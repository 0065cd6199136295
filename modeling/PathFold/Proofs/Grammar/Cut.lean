import PathFold.Proofs.Grammar.Gap
import PathFold.Proofs.Grammar.Numeral
import PathFold.Proofs.Grammar.Quotation

/-! Pieces of text that are cut off. A part of a number is read as a number if it is one, and no
part of a quoted string is read as closed; a part of a gap is a gap unless it breaks a comment. -/

namespace PathFold.Json

/-- Bytes that are split in two ways are split in three. -/
theorem exists_of_append_eq {front back front' back' : Bytes} (h : front ++ back = front' ++ back')
    (le : front'.length ≤ front.length) :
    ∃ rest, front = front' ++ rest ∧ back' = rest ++ back := by
  rcases List.append_eq_append_iff.1 h with ⟨rest, rfl, rfl⟩ | ⟨rest, rfl, rfl⟩
  · have none : rest = [] := by
      rw [List.length_append] at le
      exact List.length_eq_zero_iff.1 (by omega)
    subst none
    exact ⟨[], by simp, rfl⟩
  · exact ⟨rest, rfl, rfl⟩

/-- That a reader which stops short of the end stops there whatever comes after the end. -/
def Reader.Settled (reader : Reader) : Prop :=
  ∀ (bytes : Bytes) (n : Nat), reader bytes = .ok n → n < bytes.length →
    ∀ more, reader (bytes ++ more) = .ok n

namespace Reader

theorem Settled.andThen {first second : Reader} (hfirst : first.Settled)
    (hsecond : second.Settled) : (first.andThen second).Settled := by
  intro bytes k h short more
  obtain ⟨n, m, hn, hm, rfl⟩ := andThen_eq_ok.1 h
  have left : (bytes ++ more).drop n = bytes.drop n ++ more :=
    List.drop_append_of_le_length (by omega)
  refine andThen_eq_ok.2 ⟨n, m, hfirst bytes n hn (by omega) more, ?_, rfl⟩
  rw [left]
  exact hsecond (bytes.drop n) m hm (by simp; omega) more

theorem head?_append_of_lt {bytes : Bytes} {n : Nat} (h : n < bytes.length) (more : Bytes) :
    (bytes ++ more).head? = bytes.head? := by
  cases bytes with
  | nil => cases h
  | cons => rfl

/-- What is taken may depend on the first byte. -/
theorem settled_head (count : Option UInt8 → Nat) :
    Reader.Settled fun bytes => .ok (count bytes.head?) := by
  intro bytes n h short more
  dsimp only at h ⊢
  rwa [head?_append_of_lt short more]

/-- A part that may be missing is told by its first byte. -/
theorem Settled.optional {reader : Reader} (h : reader.Settled) (starts : Option UInt8 → Prop)
    [DecidablePred starts] :
    Reader.Settled fun bytes => if starts bytes.head? then reader bytes else .ok 0 := by
  intro bytes n taken short more
  dsimp only at taken ⊢
  rw [head?_append_of_lt short more]
  split at taken
  · rename_i here
    rw [if_pos here]
    exact h bytes n taken short more
  · rename_i here
    rw [if_neg here, taken]

end Reader

/-- Digits that end before the end. -/
theorem Extent.digits_append_of_lt {bytes : Bytes} (h : digits bytes < bytes.length)
    (more : Bytes) : digits (bytes ++ more) = digits bytes := by
  have stops : (bytes.takeWhile isDigit).length ≠ bytes.length := Nat.ne_of_lt h
  rw [digits, List.takeWhile_append, if_neg stops, digits]

namespace Numeral

theorem settled_whole : whole.Settled := by
  intro bytes n h short more
  cases bytes with
  | nil => cases short
  | cons b rest =>
    unfold whole at h ⊢
    dsimp only [List.cons_append] at h ⊢
    split at h
    · rename_i zero
      rw [if_pos zero, h]
    · split at h
      · rename_i notZero digit
        cases h
        rw [if_neg notZero, if_pos digit]
        exact congrArg _ (Extent.digits_append_of_lt short more)
      · cases h

theorem settled_someDigits (fault : Fault) : (someDigits fault).Settled := by
  intro bytes n h short more
  unfold someDigits at h ⊢
  split at h
  · cases h
  · rename_i some
    cases h
    rw [Extent.digits_append_of_lt short more, if_neg some]

theorem settled_read : read.Settled := by
  have minus : minus.Settled := Reader.settled_head fun head => if head = some 0x2D then 1 else 0
  have sign : exponentSign.Settled :=
    Reader.settled_head fun head => if head = some 0x2B ∨ head = some 0x2D then 1 else 0
  have mark : Reader.Settled fun _ => .ok 1 := Reader.settled_head fun _ => 1
  have fraction : fraction.Settled :=
    (mark.andThen (settled_someDigits _)).optional (· = some 0x2E)
  have exponent : exponent.Settled :=
    (mark.andThen (sign.andThen (settled_someDigits _))).optional
      fun head => head = some 0x65 ∨ head = some 0x45
  exact minus.andThen (settled_whole.andThen (fraction.andThen exponent))

/-- A part of a number that is no number is refused if nothing comes after it. -/
theorem refuses_cut {part lost : Bytes} (h : IsNumeral (part ++ lost)) (noNumeral : ¬ IsNumeral part) :
    ∃ stop, read part = .error stop := by
  cases taken : read part with
  | error stop => exact ⟨stop, rfl⟩
  | ok n =>
    have within := within_read part
    rw [taken] at within
    have within : n ≤ part.length := within
    rcases Nat.lt_or_eq_of_le within with short | rfl
    · -- A reader that stops inside the part stops there in the whole number.
      have whole := read_append h noNumeralAhead_nil
      rw [List.append_nil, settled_read part n taken short lost] at whole
      cases whole
      simp only [List.length_append] at short
      omega
    · refine (noNumeral ?_).elim
      have numeral := isNumeral_of_read taken
      rwa [List.take_length] at numeral

end Numeral

theorem NoNumeralAhead.of_append {front rest : Bytes} (h : NoNumeralAhead (front ++ rest)) :
    NoNumeralAhead front := by
  cases front with
  | nil => exact noNumeralAhead_nil
  | cons => exact h

/-- No quote that is in a part of a quoted string closes it. -/
theorem Quotation.not_closed_of_cut {raw part lost : Bytes} (h : IsContents raw)
    (split : raw ++ [0x22] = part ++ lost) (cut : lost ≠ []) (n : Nat) (escaped : Bool) :
    ofFront part ≠ .closed n escaped := by
  intro closed
  obtain ⟨raw', rest, rfl, rfl, contents, -⟩ := isContents_of_closed part closed
  have whole := ofFront_append h []
  rw [split, List.append_assoc, List.cons_append, ofFront_append contents] at whole
  have same : raw'.length = raw.length := (Quotation.closed.inj whole).1
  have lengths := congrArg List.length split
  simp only [List.length_append, List.length_cons, List.length_nil] at lengths
  exact cut (List.length_eq_zero_iff.1 (by omega))

/-- A gap is told from what comes after it if that does not go on with a gap. -/
theorem IsGap.unique {comments : Bool} {gap gap' rest rest' : Bytes} (h : IsGap comments gap)
    (h' : IsGap comments gap') (stop : NoGapAhead rest) (stop' : NoGapAhead rest')
    (same : gap ++ rest = gap' ++ rest') : gap = gap' ∧ rest = rest' := by
  have read := Gap.ofFront_of_isGap h stop
  rw [same, Gap.ofFront_of_isGap h' stop'] at read
  exact List.append_inj same (congrArg Gap.length read).symm

/-- All that follows a gap in a gap goes on with a gap. -/
theorem IsGap.eq_nil {comments : Bool} {gap rest : Bytes} (h : IsGap comments gap)
    (whole : IsGap comments (gap ++ rest)) (stop : NoGapAhead rest) : rest = [] :=
  (h.unique whole stop noGapAhead_nil (List.append_nil _).symm).2

/-- What may be left of a gap that is no gap: the first slash of a comment, or a block comment that is
not closed. -/
inductive IsBrokenGap (comments : Bool) : Bytes → Prop
  | slash {gap} : comments → IsGap comments gap → IsBrokenGap comments (gap ++ [0x2F])
  | block {gap body} : comments → IsGap comments gap → ¬ [0x2A, 0x2F] <:+: body →
      IsBrokenGap comments (gap ++ 0x2F :: 0x2A :: body)

theorem IsBrokenGap.append {comments : Bool} {gap rest : Bytes} (h : IsGap comments gap)
    (tail : IsBrokenGap comments rest) : IsBrokenGap comments (gap ++ rest) := by
  cases tail with
  | slash allowed before =>
    rw [← List.append_assoc]
    exact .slash allowed (h.append before)
  | block allowed before noClose =>
    rw [← List.append_assoc]
    exact .block allowed (h.append before) noClose

/-- A part of a gap is a gap, which may end in an open line comment, or it breaks a comment. -/
theorem IsGap.of_cut {comments : Bool} {whole part lost : Bytes} (h : IsGap comments whole)
    (split : whole = part ++ lost) : IsLastGap comments part ∨ IsBrokenGap comments part := by
  induction h generalizing part with
  | nil =>
    obtain ⟨rfl, -⟩ := List.nil_eq_append_iff.1 split
    exact .inl (.closed .nil)
  | @blank b rest blank _ ih =>
    cases part with
    | nil => exact .inl (.closed .nil)
    | cons c part =>
      obtain ⟨rfl, rest⟩ := List.cons.inj split
      have front : IsGap comments [b] := .blank blank .nil
      exact (ih rest).imp (IsLastGap.append front) (IsBrokenGap.append front)
  | @line body rest allowed inside _ ih =>
    match part with
    | [] => exact .inl (.closed .nil)
    | [c] =>
      obtain ⟨rfl, -⟩ := List.cons.inj split
      exact .inr (.slash allowed .nil)
    | c :: d :: part =>
      obtain ⟨rfl, second⟩ := List.cons.inj split
      obtain ⟨rfl, inner⟩ := List.cons.inj second
      by_cases short : part.length ≤ body.length
      · obtain ⟨more, rfl, -⟩ := exists_of_append_eq inner short
        exact .inl (.openLine allowed .nil fun here => inside (List.mem_append_left _ here))
      · have same : (body ++ [0x0A]) ++ rest = part ++ lost := by simpa using inner
        obtain ⟨more, rfl, rest⟩ := exists_of_append_eq same.symm (by simp; omega)
        have front : IsGap comments (0x2F :: 0x2F :: (body ++ [0x0A])) := .line allowed inside .nil
        exact (ih rest).imp (IsLastGap.append front) (IsBrokenGap.append front)
  | @block body rest allowed first _ ih =>
    match part with
    | [] => exact .inl (.closed .nil)
    | [c] =>
      obtain ⟨rfl, -⟩ := List.cons.inj split
      exact .inr (.slash allowed .nil)
    | c :: d :: part =>
      obtain ⟨rfl, second⟩ := List.cons.inj split
      obtain ⟨rfl, inner⟩ := List.cons.inj second
      by_cases short : part.length ≤ body.length + 1
      · have same : (body ++ [0x2A]) ++ 0x2F :: rest = part ++ lost := by simpa using inner
        obtain ⟨more, whole, -⟩ := exists_of_append_eq same (by simpa using short)
        have within : part <:+: body ++ [0x2A] := whole ▸ (List.prefix_append _ _).isInfix
        exact .inr (.block allowed .nil fun here => first (here.trans within))
      · have same : (body ++ [0x2A, 0x2F]) ++ rest = part ++ lost := by simpa using inner
        obtain ⟨more, rfl, rest⟩ := exists_of_append_eq same.symm (by simp; omega)
        have front : IsGap comments (0x2F :: 0x2A :: (body ++ [0x2A, 0x2F])) :=
          .block allowed first .nil
        exact (ih rest).imp (IsLastGap.append front) (IsBrokenGap.append front)

/-- What breaks a comment is read up to a slash, if it is read at all. -/
theorem IsBrokenGap.drop_ofFront {comments : Bool} {bytes : Bytes} (h : IsBrokenGap comments bytes)
    (closed : (Gap.ofFront comments bytes).closed = true) :
    bytes.drop (Gap.ofFront comments bytes).length = [0x2F] := by
  cases h with
  | slash allowed gap =>
    have slash : Gap.ofFront comments [0x2F] = ⟨0, true⟩ := by
      rw [Gap.ofFront_eq]
      cases comments <;> rfl
    rw [Gap.ofFront_append gap, slash]
    exact List.drop_left
  | @block gap body allowed before noClose =>
    subst allowed
    have unclosed : Extent.block? body = none := by
      cases count : Extent.block? body with
      | none => rfl
      | some n =>
        obtain ⟨front, rest, rfl, -⟩ := Extent.eq_append_of_block? count
        exact (noClose ⟨front, rest, by simp⟩).elim
    have fails : (Gap.ofFront true (0x2F :: 0x2A :: body)).closed = false := by
      have count : Extent.blanks (0x2F :: 0x2A :: body) = 0 := rfl
      rw [Gap.ofFront_eq, count]
      simp [unclosed]
    rw [Gap.ofFront_append before, Gap.after_closed, fails] at closed
    cases closed

theorem IsBrokenGap.not_isLastGap {comments : Bool} {bytes : Bytes}
    (h : IsBrokenGap comments bytes) : ¬ IsLastGap comments bytes := by
  intro last
  have read := Gap.ofFront_of_isLastGap last
  have left := h.drop_ofFront (by rw [read])
  rw [read, List.drop_length] at left
  cases left

end PathFold.Json
