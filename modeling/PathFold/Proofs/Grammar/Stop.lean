import PathFold.Proofs.Grammar.Numeral
import PathFold.Proofs.Grammar.Quotation

/-! Where readers stop. What stands before the place where a number or a string is refused is the
beginning of one: a zero completes the number, and the contents of the string may end there. -/

namespace PathFold.Json

theorem Reader.take_of_andThen_error {first second : Reader} {bytes : Bytes} {stop : Stop}
    (h : first.andThen second bytes = .error stop) :
    first bytes = .error stop ∨ ∃ n after, first bytes = .ok n ∧
      second (bytes.drop n) = .error after ∧
      bytes.take stop.offset = bytes.take n ++ (bytes.drop n).take after.offset := by
  unfold andThen at h
  cases early : first bytes with
  | error stop' =>
    rw [early] at h
    exact .inl h
  | ok n =>
    rw [early] at h
    dsimp only at h
    cases late : second (bytes.drop n) with
    | error after =>
      rw [late] at h
      cases h
      exact .inr ⟨n, after, rfl, late, List.take_add ..⟩
    | ok m =>
      rw [late] at h
      cases h

namespace Numeral

theorem isWhole_zero : IsWhole [0x30] := .inl rfl

theorem isDigits_zero : IsDigits [0x30] :=
  ⟨List.cons_ne_nil _ _, List.forall_mem_singleton.2 (by decide)⟩

theorem offset_of_whole {bytes : Bytes} {stop : Stop} (h : whole bytes = .error stop) :
    stop.offset = 0 := by
  unfold whole at h
  repeat' split at h
  all_goals cases h
  all_goals rfl

theorem offset_of_someDigits {fault : Fault} {bytes : Bytes} {stop : Stop}
    (h : someDigits fault bytes = .error stop) : stop.offset = 0 := by
  unfold someDigits at h
  split at h <;> cases h
  rfl

theorem isFraction_of_stop {bytes : Bytes} {stop : Stop} (h : fraction bytes = .error stop) :
    IsFraction (bytes.take stop.offset ++ [0x30]) := by
  unfold fraction at h
  split at h
  · rename_i head
    obtain ⟨rest, rfl⟩ := List.head?_eq_some_iff.1 head
    rcases Reader.take_of_andThen_error h with early | ⟨one, after, hone, late, split⟩
    · cases early
    · cases hone
      rw [split, offset_of_someDigits late]
      exact .inr ⟨_, isDigits_zero, rfl⟩
  · cases h

theorem isExponent_of_stop {bytes : Bytes} {stop : Stop} (h : exponent bytes = .error stop) :
    IsExponent (bytes.take stop.offset ++ [0x30]) := by
  unfold exponent at h
  split at h
  · rename_i head
    rcases Reader.take_of_andThen_error h with early | ⟨one, after, hone, late, split⟩
    · cases early
    · cases hone
      rcases Reader.take_of_andThen_error late with early | ⟨n, digits, hsign, late, split'⟩
      · cases early
      · rw [split, split', offset_of_someDigits late]
        obtain ⟨mark, rest, rfl, letter⟩ : ∃ mark rest, bytes = mark :: rest ∧
            (mark = 0x65 ∨ mark = 0x45) := by
          rcases head with head | head <;>
          · obtain ⟨rest, rfl⟩ := List.head?_eq_some_iff.1 head
            exact ⟨_, rest, rfl, by decide⟩
        refine .inr ⟨mark, _, [0x30], letter, sign_of_exponentSign hsign, isDigits_zero, ?_⟩
        simp
  · cases h

/-- A number that is refused would go on with a zero where it is refused. -/
theorem isNumeral_of_stop {bytes : Bytes} {stop : Stop} (h : read bytes = .error stop) :
    IsNumeral (bytes.take stop.offset ++ [0x30]) := by
  rcases Reader.take_of_andThen_error h with early | ⟨_, _, hsign, h, split⟩
  · cases early
  rw [split, List.append_assoc]
  rcases Reader.take_of_andThen_error h with hwhole | ⟨_, _, hwhole, h, split⟩
  · rw [offset_of_whole hwhole]
    exact ⟨_, [0x30], [], [], sign_of_minus hsign, isWhole_zero, .inl rfl, .inl rfl, rfl⟩
  rw [split, List.append_assoc]
  rcases Reader.take_of_andThen_error h with hfraction | ⟨_, _, hfraction, h, split⟩
  · exact ⟨_, _, _, [], sign_of_minus hsign, isWhole_of_whole hwhole,
      isFraction_of_stop hfraction, .inl rfl, by rw [List.append_nil]⟩
  · rw [split, List.append_assoc]
    exact ⟨_, _, _, _, sign_of_minus hsign, isWhole_of_whole hwhole,
      isFraction_of_fraction hfraction, isExponent_of_stop h, rfl⟩

end Numeral

theorem Quotation.faulty_of_afterEscape {quotation : Quotation} {fault : Fault} {m n : Nat}
    (h : quotation.afterEscape m = .faulty fault n) :
    ∃ k, quotation = .faulty fault k ∧ n = m + k := by
  cases quotation with
  | closed | unclosed => cases h
  | faulty other offset =>
    cases h
    exact ⟨offset, rfl, rfl⟩

/-- What is read of a string before a fault are contents. -/
theorem Quotation.isContents_of_faulty (bytes : Bytes) : ∀ {fault : Fault} {n : Nat},
    ofFront bytes = .faulty fault n → IsContents (bytes.take n) := by
  fun_induction ofFront bytes with
  | case1 => rintro _ _ ⟨⟩
  | case2 =>
    rintro _ _ ⟨⟩
    exact .nil
  | case3 => rintro _ _ ⟨⟩
  | case4 bytes k b rest front clean =>
    rintro _ _ ⟨⟩
    simpa using isContents_append (plain_of_mem_take clean) .nil
  | case5 bytes k b rest front clean noQuote c m hread =>
    rename_i ih
    intro fault n h
    obtain ⟨start, whole, length, contents⟩ := split_of_escape front clean noQuote hread
    obtain ⟨j, tail, rfl⟩ := faulty_of_afterEscape h
    rw [whole, ← length, List.take_length_add_append]
    exact (contents _).1 (ih tail)

end PathFold.Json
