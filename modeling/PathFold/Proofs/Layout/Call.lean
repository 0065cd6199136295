import PathFold.Proofs.Grammar.Gap
import PathFold.Proofs.Layout.Reading

/-! One call of the tokenizer, which passes a lead and then reads a lexeme. -/

namespace PathFold.Json.Tokenizer

theorem afterComma_eq (t : Tokenizer) :
    (⟨t.afterComma, t.nesting.inward⟩ : Stage) =
      .afterComma t.options.trailingCommas t.nesting.inward := by
  unfold afterComma Stage.afterComma
  rewrite [Nesting.innermost?_eq_head?]
  rfl

/-- A separator that is passed is one that the stage asks for. -/
theorem lead_of_passSeparator? {t u : Tokenizer} (h : t.passSeparator? = some u) :
    ∃ b tail, t.cursor.rest = b :: tail ∧ ∀ {Last : Bytes → Prop} {gap last : Bytes},
      IsGap t.options.comments gap → Last last →
        Lead t.options Last t.stage (gap ++ b :: last) u.stage := by
  unfold passSeparator? at h
  split at h
  · rename_i expect
    split at h
    · rename_i peek
      cases h
      have colon : t.stage = ⟨.colon, t.nesting.inward⟩ := congrArg (Stage.mk · _) expect
      refine ⟨_, _, Cursor.rest_of_peek peek, fun gap last => ?_⟩
      rw [colon]
      exact .colon gap last
    · cases h
  · rename_i expect
    split at h
    · rename_i peek
      cases h
      have comma : t.stage = ⟨.commaOrEnd, t.nesting.inward⟩ := congrArg (Stage.mk · _) expect
      refine ⟨_, _, Cursor.rest_of_peek peek, fun gap last => ?_⟩
      rw [comma]
      change Lead _ _ _ _ ⟨t.afterComma, t.nesting.inward⟩
      rw [afterComma_eq]
      exact .comma gap last
    · cases h
  · cases h

theorem passSeparator?_eq_none {t : Tokenizer}
    (h : ∀ b ∈ t.cursor.rest.head?, b ≠ 0x3A ∧ b ≠ 0x2C) : t.passSeparator? = none := by
  have colon : t.cursor.peek ≠ some 0x3A := fun here => (h _ here).1 rfl
  have comma : t.cursor.peek ≠ some 0x2C := fun here => (h _ here).2 rfl
  unfold passSeparator?
  split
  · exact if_neg colon
  · exact if_neg comma
  · rfl

/-- Where the cursor stands past a separator between two gaps. -/
theorem cursor_of_separator {t separated : Tokenizer} {gap : Bytes}
    (passes : (t.advance gap.length).passSeparator? = some separated) (b : UInt8) (last : Bytes) :
    (separated.advance last.length).cursor = t.cursor.advance (gap ++ b :: last).length := by
  obtain ⟨-, cursor, -⟩ := passSeparator?_eq_some passes
  calc (separated.advance last.length).cursor
      = ((t.cursor.advance gap.length).advance 1).advance last.length := by
        rw [advance, cursor]
        rfl
    _ = t.cursor.advance (gap ++ b :: last).length := by
        rw [Cursor.advance_advance, Cursor.advance_advance]
        congr 1
        simp
        omega

/-- A gap is passed, or it runs into a comment that is never closed. -/
theorem afterGap_cases (t : Tokenizer) (read : Tokenizer → Answer × Tokenizer) :
    (∃ n, GapAtFront t.options.comments t.cursor.rest n ∧ t.afterGap read = read (t.advance n)) ∨
      (BeginsGap t.options.comments t.cursor.rest ∧
        t.afterGap read = (t.advance t.left).refuse .unterminatedComment) := by
  unfold afterGap passGap
  dsimp only
  cases closed : (Gap.ofFront t.options.comments t.cursor.rest).closed with
  | true => exact .inl ⟨_, Gap.atFront_of_closed closed, rfl⟩
  | false =>
    obtain ⟨length, begins⟩ := BeginsGap.of_not_closed closed
    rw [length]
    exact .inr ⟨begins, rfl⟩

theorem afterGap_eq {t : Tokenizer} {n : Nat}
    (h : Gap.ofFront t.options.comments t.cursor.rest = ⟨n, true⟩)
    (read : Tokenizer → Answer × Tokenizer) : t.afterGap read = read (t.advance n) := by
  rw [afterGap, passGap, h]

/-- That a tokenizer has come from another by passing a lead. -/
structure Passed (Last : Bytes → Prop) (t : Tokenizer) (passed : Bytes) (ready : Tokenizer) :
    Prop where
  lead : Lead t.options Last t.stage passed ready.stage
  options : ready.options = t.options
  nesting : ready.nesting = t.nesting
  cursor : ready.cursor = t.cursor.advance passed.length

/-- A gap that is cut off has the end of the input after it. -/
def GapBefore (comments : Bool) (rest gap : Bytes) : Prop :=
  IsLastGap comments gap ∧ (rest ≠ [] → IsGap comments gap)

/-- A call passes a lead and then reads at a lexeme or at the end, or it passes the beginning of a
lead that runs into a comment which is never closed. -/
theorem next_cases (t : Tokenizer) :
    (∃ passed rest ready, t.cursor.rest = passed ++ rest ∧
      t.Passed (GapBefore t.options.comments rest) passed ready ∧ t.next = ready.readLexeme) ∨
    ∃ ready, t.Passed (BeginsGap t.options.comments) t.cursor.rest ready ∧
      t.next = ready.refuse .unterminatedComment := by
  unfold next
  rcases t.afterGap_cases _ with ⟨n, ⟨gap, rest, ahead, rfl, last, closed⟩, call⟩ | ⟨begins, call⟩
  · have here : (t.advance gap.length).cursor.rest = rest := by simp [advance, ahead]
    rw [call]
    split
    · exact .inl ⟨gap, rest, t.advance gap.length, ahead, ⟨.gap ⟨last, closed⟩, rfl, rfl, rfl⟩, rfl⟩
    · rename_i separated passes
      obtain ⟨b, tail, ahead', lead⟩ := lead_of_passSeparator? passes
      obtain ⟨-, cursor, options⟩ := passSeparator?_eq_some passes
      have nesting := nesting_of_passSeparator? passes
      rw [here] at ahead'
      have noEnd : rest ≠ [] := by simp [ahead']
      have tail_eq : separated.cursor.rest = tail := by
        rw [cursor, Cursor.advance_rest, here, ahead', List.drop_one, List.tail_cons]
      rcases separated.afterGap_cases readLexeme with
        ⟨m, ⟨gap', rest', split, rfl, last', closed'⟩, call'⟩ | ⟨begins, call'⟩
      · rw [options] at last' closed'
        refine .inl ⟨gap ++ b :: gap', rest', separated.advance gap'.length, ?_,
          ⟨lead (closed noEnd) ⟨last', closed'⟩, options, nesting, ?_⟩, call'⟩
        · rw [ahead, ahead', ← tail_eq, split, List.append_assoc, List.cons_append]
        · exact cursor_of_separator passes b gap'
      · rw [options] at begins
        have whole : t.cursor.rest = gap ++ b :: separated.cursor.rest := by
          rw [ahead, ahead', tail_eq]
        rw [whole]
        exact .inr ⟨separated.advance separated.left,
          ⟨lead (closed noEnd) begins, options, nesting, cursor_of_separator passes b _⟩, call'⟩
  · exact .inr ⟨t.advance t.left, ⟨.gap begins, rfl, rfl, rfl⟩, call⟩

/-- A call that is not in error has passed a lead and then read at a lexeme or at the end. -/
theorem passed_of_next {t u : Tokenizer} {answer : Option Token} (h : t.next = (.ok answer, u)) :
    ∃ passed rest ready, t.cursor.rest = passed ++ rest ∧
      t.Passed (GapBefore t.options.comments rest) passed ready ∧
      ready.readLexeme = (.ok answer, u) := by
  rcases t.next_cases with ⟨passed, rest, ready, ahead, came, call⟩ | ⟨ready, -, call⟩
  · exact ⟨passed, rest, ready, ahead, came, call ▸ h⟩
  · rw [call] at h
    cases h

theorem next_of_separator {t separated : Tokenizer} {gap last rest : Bytes} {b : UInt8}
    (h : IsGap t.options.comments gap) (ahead : t.cursor.rest = gap ++ b :: (last ++ rest))
    (noGap : isBlank b = false ∧ b ≠ 0x2F)
    (passes : (t.advance gap.length).passSeparator? = some separated)
    (whole : Gap.ofFront t.options.comments (last ++ rest) = ⟨last.length, true⟩) :
    t.next = (separated.advance last.length).readLexeme ∧
      (separated.advance last.length).cursor = t.cursor.advance (gap ++ b :: last).length := by
  obtain ⟨-, cursor, options⟩ := passSeparator?_eq_some passes
  have stop : NoGapAhead (b :: (last ++ rest)) := noGapAhead_cons.2 noGap
  have before := Gap.ofFront_of_isGap h stop
  rw [← ahead] at before
  have here : separated.cursor.rest = last ++ rest := by simp [cursor, advance, ahead]
  have after : Gap.ofFront separated.options.comments separated.cursor.rest =
      ⟨last.length, true⟩ := by
    rw [here, options]
    exact whole
  refine ⟨?_, cursor_of_separator passes b last⟩
  rw [next, afterGap_eq before, passes]
  exact afterGap_eq after _

/-- A call passes a lead whole if the gap next to what follows is read whole and no separator that
the stage may ask for follows. -/
theorem next_of_lead {t : Tokenizer} {Last : Bytes → Prop} {passed rest : Bytes} {ready : Stage}
    (lead : Lead t.options Last t.stage passed ready) (ahead : t.cursor.rest = passed ++ rest)
    (whole : ∀ gap, Last gap →
      Gap.ofFront t.options.comments (gap ++ rest) = ⟨gap.length, true⟩)
    (stop : ∀ b ∈ rest.head?, b ≠ 0x3A ∧ b ≠ 0x2C) :
    ∃ u : Tokenizer, t.next = u.readLexeme ∧ u.stage = ready ∧ u.nesting = t.nesting ∧
      u.options = t.options ∧ u.cursor = t.cursor.advance passed.length := by
  generalize stage : t.stage = s at lead
  cases lead with
  | gap last =>
    have here : (t.advance passed.length).cursor.rest = rest := by simp [advance, ahead]
    have none : (t.advance passed.length).passSeparator? = none := by
      refine passSeparator?_eq_none ?_
      rwa [here]
    have read := whole passed last
    rw [← ahead] at read
    refine ⟨t.advance passed.length, ?_, stage, rfl, rfl, rfl⟩
    rw [next, afterGap_eq read, none]
  | @colon kinds gap last before after =>
    obtain ⟨expect, rfl⟩ := Stage.mk.inj stage
    rw [List.append_assoc, List.cons_append] at ahead
    have passes : (t.advance gap.length).passSeparator? =
        some { (t.advance gap.length).advance 1 with expect := .value } := by
      have peek : (t.advance gap.length).cursor.peek = some 0x3A := by
        simp [advance, Cursor.peek, ahead]
      have asks : (t.advance gap.length).expect = .colon := expect
      rw [passSeparator?, asks]
      exact if_pos peek
    obtain ⟨call, cursor⟩ := next_of_separator before ahead (by decide) passes (whole last after)
    exact ⟨_, call, rfl, rfl, rfl, cursor⟩
  | @comma kinds gap last before after =>
    obtain ⟨expect, rfl⟩ := Stage.mk.inj stage
    rw [List.append_assoc, List.cons_append] at ahead
    have passes : (t.advance gap.length).passSeparator? =
        some { (t.advance gap.length).advance 1 with expect := t.afterComma } := by
      have peek : (t.advance gap.length).cursor.peek = some 0x2C := by
        simp [advance, Cursor.peek, ahead]
      have asks : (t.advance gap.length).expect = .commaOrEnd := expect
      rw [passSeparator?, asks]
      exact if_pos peek
    obtain ⟨call, cursor⟩ := next_of_separator before ahead (by decide) passes (whole last after)
    exact ⟨_, call, afterComma_eq t, rfl, rfl, cursor⟩

/-- A call that gives a token has passed a lead and taken a lexeme. -/
theorem took_of_next {t u : Tokenizer} {token : Token} (h : t.next = (.ok (some token), u)) :
    ∃ passed ready written, t.cursor.rest = passed ++ (written ++ u.cursor.rest) ∧
      t.Passed (IsGap t.options.comments) passed ready ∧ ready.Took written token u := by
  obtain ⟨passed, rest, ready, ahead, came, read⟩ := passed_of_next h
  obtain ⟨written, took⟩ := took_of_readLexeme read
  have here : ready.cursor.rest = rest := by simp [came.cursor, ahead]
  obtain ⟨after, split⟩ := took.ahead
  rw [here] at split
  have left : u.cursor.rest = after := by simp [took.cursor, here, ← split]
  have noEnd : rest ≠ [] := by
    obtain ⟨b, tail, rfl, -⟩ := took.writes.head
    simp [← split]
  refine ⟨passed, ready, written, ?_, ⟨?_, came.options, came.nesting, came.cursor⟩, took⟩
  · rw [ahead, left, split]
  · exact came.lead.mono fun _ before => before.2 noEnd

theorem readClosing_ne_end {t u : Tokenizer} {container : ContainerKind} :
    t.readClosing container ≠ (.ok none, u) := by
  unfold readClosing
  split <;> rintro ⟨⟩

theorem readQuoted_ne_end {t u : Tokenizer} {kind : TokenKind} {expect : Expect} :
    t.readQuoted kind expect ≠ (.ok none, u) := by
  unfold readQuoted
  dsimp only
  split <;> rintro ⟨⟩

theorem readValue_ne_end {t u : Tokenizer} {b : UInt8} : t.readValue b ≠ (.ok none, u) := by
  have opening (container : ContainerKind) : t.readOpening container ≠ (.ok none, u) := by
    unfold readOpening
    split <;> rintro ⟨⟩
  have number : t.readNumber ≠ (.ok none, u) := by
    unfold readNumber
    split <;> rintro ⟨⟩
  have literal (kind : TokenKind) (word : Bytes) : t.readLiteral kind word ≠ (.ok none, u) := by
    unfold readLiteral
    split <;> rintro ⟨⟩
  unfold readValue
  repeat' split
  · exact opening _
  · exact opening _
  · exact readQuoted_ne_end
  · exact number
  · exact literal _ _
  · exact literal _ _
  · exact literal _ _
  · rintro ⟨⟩

/-- The end is given at the end of the input only. -/
theorem rest_of_readLexeme {t u : Tokenizer} (h : t.readLexeme = (.ok none, u)) :
    t.cursor.rest = [] := by
  have reads := t.reads_readLexeme
  generalize t.readLexeme = step at h reads
  cases reads with
  | finish ahead => exact ahead
  | closing => exact (readClosing_ne_end h).elim
  | name => exact (readQuoted_ne_end h).elim
  | value => exact (readValue_ne_end h).elim
  | refused => cases h

theorem readLexeme_of_end {t : Tokenizer} (h : t.cursor.rest = []) : t.readLexeme = t.readEnd := by
  have peek : t.cursor.peek = none := by rw [Cursor.peek, h, List.head?_nil]
  rw [readLexeme, peek]

/-- Giving the end changes nothing, and misses no value. -/
theorem eq_of_readLexeme {t u : Tokenizer} (h : t.readLexeme = (.ok none, u)) :
    u = t ∧ (t.depth = 0 → t.expect = .done) := by
  rw [readLexeme_of_end (rest_of_readLexeme h), readEnd] at h
  split at h
  · cases h
  · rename_i whole
    cases h
    exact ⟨rfl, fun outside => Decidable.of_not_not fun more => whole ⟨outside, more⟩⟩

theorem readEnd_of_whole {t : Tokenizer} (h : t.depth = 0 → t.expect = .done) :
    t.readEnd = (.ok none, t) :=
  if_neg fun ⟨outside, more⟩ => more (h outside)

/-- A call that gives the end has passed all there was, and no value is missing. -/
theorem passed_of_end {t u : Tokenizer} (h : t.next = (.ok none, u)) :
    t.Passed (GapBefore t.options.comments []) t.cursor.rest u ∧ u.cursor.rest = [] ∧
      (u.depth = 0 → u.expect = .done) := by
  obtain ⟨passed, rest, ready, ahead, came, read⟩ := passed_of_next h
  have stop := rest_of_readLexeme read
  obtain ⟨rfl, whole⟩ := eq_of_readLexeme read
  obtain rfl : rest = [] := by
    rw [← stop]
    simp [came.cursor, ahead]
  rw [ahead, List.append_nil]
  exact ⟨came, stop, whole⟩

/-- A call that gives the end has passed a lead up to the end of the input. -/
theorem lead_of_next {t u : Tokenizer} (h : t.next = (.ok none, u)) :
    Lead t.options (IsLastGap t.options.comments) t.stage t.cursor.rest u.stage ∧
      (u.depth = 0 → u.expect = .done) := by
  obtain ⟨came, -, whole⟩ := passed_of_end h
  exact ⟨came.lead.mono fun _ before => before.1, whole⟩

/-- Once the end is given, every later call gives it again. -/
theorem next_of_end {t u : Tokenizer} (h : t.next = (.ok none, u)) : u.next = (.ok none, u) := by
  obtain ⟨-, stop, whole⟩ := passed_of_end h
  have gap : Gap.ofFront u.options.comments u.cursor.rest = ⟨0, true⟩ := by
    rw [stop]
    exact Gap.ofFront_of_noGapAhead _ noGapAhead_nil
  have here : u.advance 0 = u := by rw [advance, Cursor.advance_zero]
  have none : u.passSeparator? = none := passSeparator?_eq_none (by simp [stop])
  rw [next, afterGap_eq gap, here, none, readLexeme_of_end stop]
  exact readEnd_of_whole whole

/-- At the end of a layout the end is given, if no value is missing. -/
theorem next_of_last {t : Tokenizer} {final : Stage}
    (lead : Lead t.options (IsLastGap t.options.comments) t.stage t.cursor.rest final)
    (whole : final.kinds = [] → final.expect = .done) :
    ∃ u, t.next = (.ok none, u) ∧ u.stage = final := by
  obtain ⟨u, call, stage, -, -, cursor⟩ := next_of_lead lead (List.append_nil _).symm
    (fun gap last => by rw [List.append_nil]; exact Gap.ofFront_of_isLastGap last) (by simp)
  subst stage
  refine ⟨u, ?_, rfl⟩
  rw [call, readLexeme_of_end (by simp [cursor]), readEnd_of_whole fun outside => whole ?_]
  rwa [← List.length_eq_zero_iff, Tokenizer.stage, Nesting.length_inward]

/-- A lexeme with its lead is given as a token, unless it opens one container too many. -/
theorem next_of_writes {t : Tokenizer} {passed written rest : Bytes} {ready next : Stage}
    {lexeme : Lexeme} (lead : Lead t.options (IsGap t.options.comments) t.stage passed ready)
    (writes : Writes ready written lexeme next) (ahead : t.cursor.rest = passed ++ (written ++ rest))
    (noNumeral : lexeme.kind = .number → NoNumeralAhead rest)
    (room : ∀ kind, lexeme.kind = .opening kind → t.depth < 64) :
    Gives t.next lexeme next rest := by
  obtain ⟨b, tail, head, noBlank, noSlash, noColon, noComma⟩ := writes.head
  have stop : NoGapAhead (written ++ rest) := by
    rw [head]
    exact noGapAhead_cons.2 ⟨noBlank, noSlash⟩
  obtain ⟨u, call, rfl, nesting, -, cursor⟩ := next_of_lead lead ahead
    (fun gap last => Gap.ofFront_of_isGap last stop) (by simp [head, noColon, noComma])
  have here : u.cursor.rest = written ++ rest := by simp [cursor, ahead]
  rw [call]
  refine readLexeme_gives writes here noNumeral ?_
  rwa [depth, nesting]

/-- The next lexeme of a layout is given as a token, unless it opens one container too many. -/
theorem next_of_more {t : Tokenizer} {passed written rest : Bytes} {ready next final : Stage}
    {lexeme : Lexeme} {lexemes : List Lexeme}
    (lead : Lead t.options (IsGap t.options.comments) t.stage passed ready)
    (writes : Writes ready written lexeme next) (after : Layout t.options next rest lexemes final)
    (ahead : t.cursor.rest = passed ++ (written ++ rest))
    (room : ∀ kind, lexeme.kind = .opening kind → t.depth < 64) :
    Gives t.next lexeme next rest := by
  refine next_of_writes lead writes ahead (fun number => ?_) room
  rw [writes.next_of_number number] at after
  exact after.noNumeralAhead

end PathFold.Json.Tokenizer
