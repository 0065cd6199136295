import PathFold.Json.Escape
import PathFold.Json.Numeral
import PathFold.Proofs.Grammar.Lexeme

/-! Numerals are read exactly. What the reader takes is a number of the grammar, and it takes all of
a number that is not followed by a byte that could prolong it. -/

namespace PathFold.Json

theorem isDigit_iff {b : UInt8} : isDigit b = true ↔ IsDigit b := by
  simp [isDigit, IsDigit]

theorem all_isDigit_iff {bytes : Bytes} : bytes.all isDigit = true ↔ ∀ b ∈ bytes, IsDigit b := by
  simp only [List.all_eq_true, isDigit_iff]

/-- Nothing at the front goes on with a number. -/
def NoNumeralAhead (rest : Bytes) : Prop :=
  ∀ b ∈ rest.head?, isDigit b = false ∧ b ≠ 0x2E ∧ b ≠ 0x65 ∧ b ≠ 0x45

theorem noNumeralAhead_nil : NoNumeralAhead [] := by simp [NoNumeralAhead]

theorem Reader.take_of_andThen {first second : Reader} {bytes : Bytes} {k : Nat}
    (h : first.andThen second bytes = .ok k) :
    ∃ n m, first bytes = .ok n ∧ second (bytes.drop n) = .ok m ∧
      bytes.take k = bytes.take n ++ (bytes.drop n).take m := by
  obtain ⟨n, m, hn, hm, rfl⟩ := Reader.andThen_eq_ok.1 h
  exact ⟨n, m, hn, hm, List.take_add ..⟩

theorem Reader.andThen_append {first second : Reader} {front back rest : Bytes}
    (hfirst : first (front ++ (back ++ rest)) = .ok front.length)
    (hsecond : second (back ++ rest) = .ok back.length) :
    first.andThen second (front ++ (back ++ rest)) = .ok (front ++ back).length := by
  rw [Reader.andThen_eq_ok]
  refine ⟨_, _, hfirst, ?_, List.length_append⟩
  rwa [List.drop_append_length]

theorem Reader.one_andThen_append {second : Reader} {b : UInt8} {back rest : Bytes}
    (h : second (back ++ rest) = .ok back.length) :
    Reader.andThen (fun _ => .ok 1) second (b :: (back ++ rest)) = .ok (b :: back).length := by
  rw [Reader.andThen_eq_ok]
  exact ⟨1, _, rfl, h, Nat.add_comm _ _⟩

namespace Extent

theorem take_digits (bytes : Bytes) : bytes.take (digits bytes) = bytes.takeWhile isDigit :=
  take_takeWhile_length isDigit bytes

theorem digits_append {front rest : Bytes} (all : ∀ b ∈ front, IsDigit b)
    (stop : ∀ b ∈ rest.head?, isDigit b = false) : digits (front ++ rest) = front.length := by
  induction front with
  | nil =>
    cases rest with
    | nil => rfl
    | cons b rest =>
      have h : isDigit b = false := stop b rfl
      simp [digits, h]
  | cons b front ih =>
    obtain ⟨hb, hfront⟩ := List.forall_mem_cons.1 all
    have := ih hfront
    simp only [digits] at this
    simp [digits, isDigit_iff.2 hb, this]

end Extent

theorem isDigits_takeWhile {bytes : Bytes} (h : Extent.digits bytes ≠ 0) :
    IsDigits (bytes.takeWhile isDigit) := by
  refine ⟨fun none => h ?_, all_isDigit_iff.1 List.all_takeWhile⟩
  rw [Extent.digits, none]
  rfl

namespace Numeral

/-! What is read is a number. -/

theorem sign_of_minus {bytes : Bytes} {n : Nat} (h : minus bytes = .ok n) :
    bytes.take n = [] ∨ bytes.take n = [0x2D] := by
  unfold minus at h
  split at h <;> cases h
  · rename_i head
    obtain ⟨rest, rfl⟩ := List.head?_eq_some_iff.1 head
    exact .inr rfl
  · exact .inl rfl

theorem isWhole_of_whole {bytes : Bytes} {n : Nat} (h : whole bytes = .ok n) :
    IsWhole (bytes.take n) := by
  unfold whole at h
  split at h
  · cases h
  · rename_i b rest
    split at h
    · rename_i zero
      cases h
      exact .inl (by simp [zero])
    · split at h
      · rename_i notZero digit
        cases h
        have some : Extent.digits (b :: rest) ≠ 0 := Nat.pos_iff_ne_zero.1 (digits_pos digit)
        rw [Extent.take_digits]
        refine .inr ⟨isDigits_takeWhile some, ?_⟩
        simp [digit, notZero]
      · cases h

theorem isDigits_of_someDigits {fault : Fault} {bytes : Bytes} {n : Nat}
    (h : someDigits fault bytes = .ok n) : IsDigits (bytes.take n) := by
  unfold someDigits at h
  split at h
  · cases h
  · rename_i some
    cases h
    rw [Extent.take_digits]
    exact isDigits_takeWhile some

theorem isFraction_of_fraction {bytes : Bytes} {n : Nat} (h : fraction bytes = .ok n) :
    IsFraction (bytes.take n) := by
  unfold fraction at h
  split at h
  · rename_i head
    obtain ⟨rest, rfl⟩ := List.head?_eq_some_iff.1 head
    obtain ⟨one, m, hone, hm, split⟩ := Reader.take_of_andThen h
    cases hone
    rw [split]
    exact .inr ⟨_, isDigits_of_someDigits hm, rfl⟩
  · cases h
    exact .inl rfl

theorem sign_of_exponentSign {bytes : Bytes} {n : Nat} (h : exponentSign bytes = .ok n) :
    bytes.take n = [] ∨ bytes.take n = [0x2B] ∨ bytes.take n = [0x2D] := by
  unfold exponentSign at h
  split at h <;> cases h
  · rename_i head
    rcases head with head | head
    · obtain ⟨rest, rfl⟩ := List.head?_eq_some_iff.1 head
      exact .inr (.inl rfl)
    · obtain ⟨rest, rfl⟩ := List.head?_eq_some_iff.1 head
      exact .inr (.inr rfl)
  · exact .inl rfl

theorem isExponent_of_exponent {bytes : Bytes} {n : Nat} (h : exponent bytes = .ok n) :
    IsExponent (bytes.take n) := by
  unfold exponent at h
  split at h
  · rename_i head
    obtain ⟨one, m, hone, hm, split⟩ := Reader.take_of_andThen h
    cases hone
    obtain ⟨s, d, hs, hd, split'⟩ := Reader.take_of_andThen hm
    rw [split, split']
    rcases head with head | head <;> obtain ⟨rest, rfl⟩ := List.head?_eq_some_iff.1 head
    · exact .inr ⟨_, _, _, .inl rfl, sign_of_exponentSign hs, isDigits_of_someDigits hd, rfl⟩
    · exact .inr ⟨_, _, _, .inr rfl, sign_of_exponentSign hs, isDigits_of_someDigits hd, rfl⟩
  · cases h
    exact .inl rfl

theorem isNumeral_of_read {bytes : Bytes} {n : Nat} (h : read bytes = .ok n) :
    IsNumeral (bytes.take n) := by
  obtain ⟨_, _, hsign, h, split⟩ := Reader.take_of_andThen h
  obtain ⟨_, _, hwhole, h, split'⟩ := Reader.take_of_andThen h
  obtain ⟨_, _, hfraction, hexponent, split''⟩ := Reader.take_of_andThen h
  rw [split, split', split'']
  exact ⟨_, _, _, _, sign_of_minus hsign, isWhole_of_whole hwhole,
    isFraction_of_fraction hfraction, isExponent_of_exponent hexponent, rfl⟩

/-! A number that cannot be prolonged is read whole. -/

theorem minus_append {sign rest : Bytes} (h : sign = [] ∨ sign = [0x2D])
    (stop : rest.head? ≠ some 0x2D) : minus (sign ++ rest) = .ok sign.length := by
  rcases h with rfl | rfl
  · simp [minus, stop]
  · rfl

theorem whole_append {front rest : Bytes} (h : IsWhole front)
    (stop : ∀ b ∈ rest.head?, isDigit b = false) : whole (front ++ rest) = .ok front.length := by
  rcases h with rfl | ⟨⟨some, all⟩, head⟩
  · rfl
  · have count := Extent.digits_append all stop
    cases front with
    | nil => exact absurd rfl some
    | cons b front =>
      have digit : isDigit b := isDigit_iff.2 (all b List.mem_cons_self)
      have notZero : b ≠ 0x30 := by simpa using head
      rw [List.cons_append] at count ⊢
      simp [whole, notZero, digit, count]

theorem someDigits_append (fault : Fault) {digits rest : Bytes} (h : IsDigits digits)
    (stop : ∀ b ∈ rest.head?, isDigit b = false) :
    someDigits fault (digits ++ rest) = .ok digits.length := by
  have count := Extent.digits_append h.2 stop
  have some : digits.length ≠ 0 := mt List.length_eq_zero_iff.1 h.1
  rw [someDigits, count, if_neg some]

theorem fraction_append {front rest : Bytes} (h : IsFraction front)
    (stop : ∀ b ∈ rest.head?, isDigit b = false ∧ b ≠ 0x2E) :
    fraction (front ++ rest) = .ok front.length := by
  rcases h with rfl | ⟨digits, h, rfl⟩
  · have noPoint : rest.head? ≠ some 0x2E := fun head => (stop _ head).2 rfl
    simp [fraction, noPoint]
  · have tail := someDigits_append .expectedFractionDigit h fun b hb => (stop b hb).1
    rw [fraction, if_pos (by rfl)]
    exact Reader.one_andThen_append tail

theorem exponentSign_append {sign rest : Bytes} (h : sign = [] ∨ sign = [0x2B] ∨ sign = [0x2D])
    (stop : ∀ b ∈ rest.head?, b ≠ 0x2B ∧ b ≠ 0x2D) :
    exponentSign (sign ++ rest) = .ok sign.length := by
  rcases h with rfl | rfl | rfl
  · have none : ¬ (rest.head? = some 0x2B ∨ rest.head? = some 0x2D) := by
      rintro (head | head)
      · exact (stop _ head).1 rfl
      · exact (stop _ head).2 rfl
    simp [exponentSign, none]
  · rfl
  · rfl

theorem ne_signs_of_isDigit {b : UInt8} (h : IsDigit b) : b ≠ 0x2B ∧ b ≠ 0x2D := by
  constructor <;> rintro rfl <;> revert h <;> decide

theorem exponent_append {front rest : Bytes} (h : IsExponent front)
    (stop : ∀ b ∈ rest.head?, isDigit b = false ∧ b ≠ 0x65 ∧ b ≠ 0x45) :
    exponent (front ++ rest) = .ok front.length := by
  rcases h with rfl | ⟨mark, sign, digits, hmark, hsign, hdigits, rfl⟩
  · have none : ¬ (rest.head? = some 0x65 ∨ rest.head? = some 0x45) := by
      rintro (head | head)
      · exact (stop _ head).2.1 rfl
      · exact (stop _ head).2.2 rfl
    simp [exponent, none]
  · have tail := someDigits_append .expectedExponentDigit hdigits fun b hb => (stop b hb).1
    have noSign : ∀ b ∈ (digits ++ rest).head?, b ≠ 0x2B ∧ b ≠ 0x2D := by
      obtain ⟨some, all⟩ := hdigits
      cases digits with
      | nil => exact absurd rfl some
      | cons d digits =>
        intro b hb
        cases hb
        exact ne_signs_of_isDigit (all _ List.mem_cons_self)
    have back := Reader.andThen_append (exponentSign_append hsign noSign) tail
    have marked : (mark :: (sign ++ digits) ++ rest).head? = some 0x65 ∨
        (mark :: (sign ++ digits) ++ rest).head? = some 0x45 := by
      simpa using hmark
    rw [exponent, if_pos marked]
    rw [← List.append_assoc] at back
    exact Reader.one_andThen_append back

theorem head_of_isWhole {front : Bytes} (h : IsWhole front) (rest : Bytes) :
    ∃ b tail, front ++ rest = b :: tail ∧ isDigit b := by
  rcases h with rfl | ⟨⟨some, all⟩, -⟩
  · exact ⟨_, _, rfl, rfl⟩
  · cases front with
    | nil => exact absurd rfl some
    | cons b front => exact ⟨b, front ++ rest, rfl, isDigit_iff.2 (all b List.mem_cons_self)⟩

theorem head_of_isFraction {front rest : Bytes} (h : IsFraction front)
    (stop : ∀ b ∈ rest.head?, isDigit b = false) :
    ∀ b ∈ (front ++ rest).head?, isDigit b = false := by
  rcases h with rfl | ⟨digits, -, rfl⟩
  · exact stop
  · intro b hb
    cases hb
    rfl

theorem head_of_isExponent {front rest : Bytes} (h : IsExponent front)
    (stop : ∀ b ∈ rest.head?, isDigit b = false ∧ b ≠ 0x2E) :
    ∀ b ∈ (front ++ rest).head?, isDigit b = false ∧ b ≠ 0x2E := by
  rcases h with rfl | ⟨mark, sign, digits, hmark, -, -, rfl⟩
  · exact stop
  · intro b hb
    cases hb
    rcases hmark with rfl | rfl <;> decide

theorem read_append {front rest : Bytes} (h : IsNumeral front) (stop : NoNumeralAhead rest) :
    read (front ++ rest) = .ok front.length := by
  obtain ⟨sign, whole, fraction, exponent, hsign, hwhole, hfraction, hexponent, rfl⟩ := h
  have atExponent := head_of_isExponent hexponent fun b hb => ⟨(stop b hb).1, (stop b hb).2.1⟩
  have atFraction := head_of_isFraction hfraction fun b hb => (atExponent b hb).1
  have atWhole : ((whole ++ (fraction ++ exponent)) ++ rest).head? ≠ some 0x2D := by
    obtain ⟨b, tail, split, digit⟩ := head_of_isWhole hwhole ((fraction ++ exponent) ++ rest)
    rw [List.append_assoc, split]
    rintro ⟨⟩
    exact absurd digit (by decide)
  have last := exponent_append hexponent fun b hb => ⟨(stop b hb).1, (stop b hb).2.2⟩
  have fromFraction := Reader.andThen_append (fraction_append hfraction atExponent) last
  rw [← List.append_assoc] at fromFraction atFraction
  have fromWhole := Reader.andThen_append (whole_append hwhole atFraction) fromFraction
  rw [← List.append_assoc] at fromWhole
  have fromSign := Reader.andThen_append (minus_append hsign atWhole) fromWhole
  rwa [← List.append_assoc] at fromSign

/-- A number begins with a minus or a digit. -/
theorem head_of_isNumeral {front : Bytes} (h : IsNumeral front) :
    ∃ b tail, front = b :: tail ∧ (b = 0x2D ∨ isDigit b) := by
  obtain ⟨sign, whole, fraction, exponent, hsign, hwhole, -, -, rfl⟩ := h
  rcases hsign with rfl | rfl
  · obtain ⟨b, tail, split, digit⟩ := head_of_isWhole hwhole (fraction ++ exponent)
    exact ⟨b, tail, split, .inr digit⟩
  · exact ⟨_, _, rfl, .inl rfl⟩

theorem ne_backslash_of_isDigits {bytes : Bytes} (h : IsDigits bytes) : 0x5C ∉ bytes :=
  fun here => absurd (h.2 _ here) (by decide)

/-- No escape is in a number. -/
theorem hasEscape_of_isNumeral {bytes : Bytes} (h : IsNumeral bytes) :
    Escape.hasEscape bytes = false := by
  obtain ⟨sign, whole, fraction, exponent, hsign, hwhole, hfraction, hexponent, rfl⟩ := h
  have inSign : (0x5C : UInt8) ∉ sign := by rcases hsign with rfl | rfl <;> decide
  have inWhole : (0x5C : UInt8) ∉ whole := by
    rcases hwhole with rfl | ⟨digits, -⟩
    · decide
    · exact ne_backslash_of_isDigits digits
  have inFraction : (0x5C : UInt8) ∉ fraction := by
    rcases hfraction with rfl | ⟨digits, h, rfl⟩
    · decide
    · simp [ne_backslash_of_isDigits h]
  have inExponent : (0x5C : UInt8) ∉ exponent := by
    rcases hexponent with rfl | ⟨mark, sign, digits, hmark, hsign, h, rfl⟩
    · decide
    · rcases hmark with rfl | rfl <;> rcases hsign with rfl | rfl | rfl <;>
        simp [ne_backslash_of_isDigits h]
  simp [Escape.hasEscape, inSign, inWhole, inFraction, inExponent]

end Numeral

end PathFold.Json
