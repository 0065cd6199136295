import PathFold.Json.Escape
import PathFold.Json.Extent

/-! The contents of a quoted string, read up to the closing quote. The bytes up to the next quote or
backslash are looked at together, so that a string that is never closed is reported as such and not
for the control characters at its end. -/

namespace PathFold.Json

/-- The contents of a string read up to its closing quote, or how far reading got. -/
inductive Quotation where
  | closed (length : Nat) (escaped : Bool)
  | unclosed (offset : Nat)
  | faulty (fault : Fault) (offset : Nat)
  deriving DecidableEq, Repr

namespace Quotation

/-- What follows an escape that ends at `n`. -/
def afterEscape (n : Nat) : Quotation → Quotation
  | .closed length _ => .closed (n + length) true
  | .unclosed offset => .unclosed (n + offset)
  | .faulty fault offset => .faulty fault (n + offset)

/-- Reads what stands after the opening quote. -/
def ofFront (bytes : Bytes) : Quotation :=
  let n := Extent.plain bytes
  match _front : bytes.drop n with
  | [] => .unclosed 0
  | b :: rest =>
    if (bytes.take n).any isControl then .faulty .controlInString 0
    else if b = 0x22 then .closed n false
    else match Escape.read (b :: rest) with
      | .error fault => .faulty (.escape fault) n
      | .ok (_, m) => (ofFront (rest.drop (m - 1))).afterEscape (n + m)
termination_by bytes.length
decreasing_by
  have := congrArg List.length _front
  simp only [List.length_drop, List.length_cons] at this ⊢
  omega

/-- Where reading ends, counted from the opening quote: at the closing quote, which is still to come,
or where it stopped. -/
def Within (bytes : Bytes) : Quotation → Prop
  | .closed length _ => length < bytes.length
  | .unclosed offset => offset ≤ bytes.length
  | .faulty _ offset => offset ≤ bytes.length

theorem within_afterEscape {bytes rest : Bytes} {n : Nat} {quotation : Quotation}
    (h : Within rest quotation) (room : n + rest.length ≤ bytes.length) :
    Within bytes (quotation.afterEscape n) := by
  cases quotation <;> simp only [Within, afterEscape] at h ⊢ <;> omega

theorem length_eq_of_front {bytes : Bytes} {n : Nat} {b : UInt8} {rest : Bytes}
    (front : bytes.drop n = b :: rest) : bytes.length = n + rest.length + 1 := by
  have := congrArg List.length front
  simp only [List.length_drop, List.length_cons] at this
  omega

theorem within_ofFront (bytes : Bytes) : Within bytes (ofFront bytes) := by
  fun_induction ofFront bytes with
  | case1 bytes n front => exact Nat.zero_le _
  | case2 bytes n b rest front => exact Nat.zero_le _
  | case3 bytes n rest _ front =>
    have := length_eq_of_front front
    simp only [Within]
    omega
  | case4 bytes n b rest front =>
    have := length_eq_of_front front
    simp only [Within]
    omega
  | case5 bytes n b rest front _ _ c m hread ih =>
    have := length_eq_of_front front
    have := Escape.read_count hread
    refine within_afterEscape ih ?_
    simp only [List.length_drop, List.length_cons] at *
    omega

example : ofFront (Bytes.ofText "a\\n\" ") = .closed 3 true := by cbv
example : ofFront [0x01] = .unclosed 0 := by cbv
example : ofFront [0x01, 0x22] = .faulty .controlInString 0 := by cbv

end Quotation

end PathFold.Json
