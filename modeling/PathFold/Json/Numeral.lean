import PathFold.Json.Extent
import PathFold.Json.Fault

/-! Numerals as the grammar writes them: an optional minus, an integer part without leading zeros, an
optional fraction and an optional exponent. Reading one takes as many bytes as it can and says how
many, or where it stops and why. -/

namespace PathFold.Json

/-- Why reading stops short, and how far from the front. -/
structure Stop where
  fault : Fault
  offset : Nat
  deriving DecidableEq, Repr

/-- Takes some bytes off the front: how many, or where it stops. -/
abbrev Reader := Bytes → Except Stop Nat

/-- One reader on what another leaves. -/
def Reader.andThen (first second : Reader) : Reader := fun bytes =>
  match first bytes with
  | .error stop => .error stop
  | .ok n =>
    match second (bytes.drop n) with
    | .error stop => .error ⟨stop.fault, n + stop.offset⟩
    | .ok m => .ok (n + m)

theorem Reader.andThen_eq_ok {first second : Reader} {bytes : Bytes} {k : Nat} :
    first.andThen second bytes = .ok k ↔
      ∃ n m, first bytes = .ok n ∧ second (bytes.drop n) = .ok m ∧ k = n + m := by
  unfold andThen
  cases first bytes with
  | error stop => simp
  | ok n => cases h : second (bytes.drop n) <;> simp [h, eq_comm]

/-- How far reading gets: past the bytes it takes, or to where it stops. -/
def reach : Except Stop Nat → Nat
  | .ok n => n
  | .error stop => stop.offset

/-- A reader stays within the bytes it is given. -/
def Reader.Within (reader : Reader) : Prop := ∀ bytes : Bytes, reach (reader bytes) ≤ bytes.length

theorem Reader.Within.andThen {first second : Reader} (hfirst : first.Within)
    (hsecond : second.Within) : (first.andThen second).Within := by
  intro bytes
  have h1 := hfirst bytes
  unfold Reader.andThen
  cases hn : first bytes with
  | error stop => simpa [hn] using h1
  | ok n =>
    have h2 := hsecond (bytes.drop n)
    simp only [hn, reach] at h1
    cases hm : second (bytes.drop n) <;>
      simp only [hm, reach, List.length_drop] at h2 ⊢ <;> omega

namespace Numeral

def minus : Reader := fun bytes => .ok (if bytes.head? = some 0x2D then 1 else 0)

/-- A zero stands alone; any other first digit takes the digits after it along. -/
def whole : Reader := fun bytes =>
  match bytes with
  | [] => .error ⟨.invalidNumber, 0⟩
  | b :: _ =>
    if b = 0x30 then .ok 1
    else if isDigit b then .ok (Extent.digits bytes)
    else .error ⟨.invalidNumber, 0⟩

/-- At least one digit. -/
def someDigits (fault : Fault) : Reader := fun bytes =>
  if Extent.digits bytes = 0 then .error ⟨fault, 0⟩ else .ok (Extent.digits bytes)

def fraction : Reader := fun bytes =>
  if bytes.head? = some 0x2E then
    Reader.andThen (fun _ => .ok 1) (someDigits .expectedFractionDigit) bytes
  else .ok 0

def exponentSign : Reader := fun bytes =>
  .ok (if bytes.head? = some 0x2B ∨ bytes.head? = some 0x2D then 1 else 0)

def exponent : Reader := fun bytes =>
  if bytes.head? = some 0x65 ∨ bytes.head? = some 0x45 then
    Reader.andThen (fun _ => .ok 1)
      (exponentSign.andThen (someDigits .expectedExponentDigit)) bytes
  else .ok 0

def read : Reader := minus.andThen (whole.andThen (fraction.andThen exponent))

theorem digits_pos {b : UInt8} {rest : Bytes} (h : isDigit b) : 0 < Extent.digits (b :: rest) := by
  simp [Extent.digits, h]

theorem whole_pos {bytes : Bytes} {n : Nat} (h : whole bytes = .ok n) : 0 < n := by
  unfold whole at h
  split at h
  · cases h
  · split at h
    · cases h
      decide
    · split at h
      · rename_i hd
        cases h
        exact digits_pos hd
      · cases h

/-- A numeral takes at least one byte. -/
theorem read_pos {bytes : Bytes} {n : Nat} (h : read bytes = .ok n) : 0 < n := by
  obtain ⟨_, _, _, htail, rfl⟩ := Reader.andThen_eq_ok.1 h
  obtain ⟨_, _, hwhole, _, rfl⟩ := Reader.andThen_eq_ok.1 htail
  have := whole_pos hwhole
  omega

theorem length_pos_of_head? {bytes : Bytes} {b : UInt8} (h : bytes.head? = some b) :
    0 < bytes.length := by
  cases bytes <;> simp_all

theorem within_minus : minus.Within := by
  intro bytes
  unfold minus
  split
  · rename_i h
    exact length_pos_of_head? h
  · exact Nat.zero_le _

theorem within_exponentSign : exponentSign.Within := by
  intro bytes
  unfold exponentSign
  split
  · rename_i h
    exact h.elim length_pos_of_head? length_pos_of_head?
  · exact Nat.zero_le _

theorem within_whole : whole.Within := by
  intro bytes
  unfold whole
  split
  · exact Nat.zero_le _
  · split
    · simp [reach]
    · split
      · exact Extent.digits_le _
      · exact Nat.zero_le _

theorem within_someDigits (fault : Fault) : (someDigits fault).Within := by
  intro bytes
  unfold someDigits
  split
  · exact Nat.zero_le _
  · exact Extent.digits_le _

/-- One byte that is known to be there, and then a reader. -/
theorem reach_after_head {reader : Reader} (h : reader.Within) {bytes : Bytes} {b : UInt8}
    (head : bytes.head? = some b) :
    reach (Reader.andThen (fun _ => .ok 1) reader bytes) ≤ bytes.length := by
  have h := h (bytes.drop 1)
  have := length_pos_of_head? head
  unfold Reader.andThen
  cases hr : reader (bytes.drop 1) <;> simp only [hr, reach, List.length_drop] at h ⊢ <;> omega

theorem within_fraction : fraction.Within := by
  intro bytes
  unfold fraction
  split
  · rename_i h
    exact reach_after_head (within_someDigits _) h
  · exact Nat.zero_le _

theorem within_exponent : exponent.Within := by
  intro bytes
  have tail := within_exponentSign.andThen (within_someDigits .expectedExponentDigit)
  unfold exponent
  split
  · rename_i h
    exact h.elim (reach_after_head tail) (reach_after_head tail)
  · exact Nat.zero_le _

theorem within_read : read.Within :=
  within_minus.andThen (within_whole.andThen (within_fraction.andThen within_exponent))

example : read (Bytes.ofText "-12.5e3,") = .ok 7 := by cbv
example : read (Bytes.ofText "01") = .ok 1 := by cbv
example : read (Bytes.ofText "1.e") = .error ⟨.expectedFractionDigit, 2⟩ := by cbv

end Numeral

end PathFold.Json
