import PathFold.Proofs.Grammar.Cut
import PathFold.Proofs.Layout.Pieces

/-! Calls that meet a cut. Where the rest of a lead is cut off, the next call gives the end or fails;
where a lexeme is cut off, it fails, or gives a number that is left of a number. -/

namespace PathFold.Json

theorem Separator.eq_of_byte_eq {separator separator' : Separator}
    (h : separator.byte = separator'.byte) : separator = separator' := by
  cases separator <;> cases separator' <;> first | rfl | cases h

/-- What may stand after the last token that is kept: a gap of some sort, or a separator with a gap
before it and a gap of this sort after it. -/
def LeadTo (comments : Bool) (Last : Bytes → Prop) (bytes : Bytes) : Prop :=
  Last bytes ∨ ∃ (separator : Separator) (gap last : Bytes),
    bytes = gap ++ separator.byte :: last ∧ IsGap comments gap ∧ Last last

/-- The separator after a gap is told from the bytes. -/
theorem IsGap.separator_eq {comments : Bool} {gap gap' last last' : Bytes}
    {separator separator' : Separator} (h : IsGap comments gap) (h' : IsGap comments gap')
    (same : gap ++ separator.byte :: last = gap' ++ separator'.byte :: last') :
    separator = separator' ∧ last = last' := by
  obtain ⟨-, marks⟩ := h.unique h' (separator.noGapAhead last) (separator'.noGapAhead last') same
  obtain ⟨bytes, lasts⟩ := List.cons.inj marks
  exact ⟨Separator.eq_of_byte_eq bytes, lasts⟩

theorem IsGap.not_last_of_separator {comments : Bool} {gap : Bytes} (h : IsGap comments gap)
    (separator : Separator) (last : Bytes) :
    ¬ IsLastGap comments (gap ++ separator.byte :: last) := by
  intro whole
  have read := Gap.ofFront_of_isGap h (separator.noGapAhead last)
  rw [Gap.ofFront_of_isLastGap whole] at read
  have length := congrArg Gap.length read
  simp at length

theorem IsGap.not_broken_of_separator {comments : Bool} {gap : Bytes} (h : IsGap comments gap)
    (separator : Separator) (last : Bytes) :
    ¬ IsBrokenGap comments (gap ++ separator.byte :: last) := by
  intro broken
  have read := Gap.ofFront_of_isGap h (separator.noGapAhead last)
  have left := broken.drop_ofFront (by rw [read])
  rw [read, List.drop_left] at left
  cases separator <;> cases left

/-- What breaks a comment is nothing that may stand there at the end. -/
theorem LeadTo.not_broken {comments : Bool} {bytes : Bytes}
    (h : LeadTo comments (IsLastGap comments) bytes) :
    ¬ LeadTo comments (IsBrokenGap comments) bytes := by
  rintro (broken | ⟨separator', gap', last', whole, before', broken⟩)
  · rcases h with gap | ⟨separator, gap, last, rfl, before, -⟩
    · exact broken.not_isLastGap gap
    · exact before.not_broken_of_separator separator last broken
  · rcases h with gap | ⟨separator, gap, last, rfl, before, after⟩
    · subst whole
      exact before'.not_last_of_separator separator' last' gap
    · obtain ⟨-, rfl⟩ := before.separator_eq before' whole
      exact broken.not_isLastGap after

namespace Lead

variable {o : Options} {stage ready ready' : Stage}

/-- What comes before a lexeme has no beginning of a lexeme in it. -/
theorem not_mark {lead rest : Bytes} {b : UInt8} (h : Lead o (IsGap o.comments) stage lead ready)
    (whole : Lead o (IsGap o.comments) stage (lead ++ b :: rest) ready')
    (noGap : isBlank b = false ∧ b ≠ 0x2F) (noColon : b ≠ 0x3A) (noComma : b ≠ 0x2C) : False := by
  have stop : NoGapAhead (b :: rest) := noGapAhead_cons.2 noGap
  have inGap {gap : Bytes} (before : IsGap o.comments gap)
      (more : IsGap o.comments (gap ++ b :: rest)) : False :=
    List.cons_ne_nil _ _ (before.eq_nil more stop)
  have noSeparator (separator : Separator) : b ≠ separator.byte := by
    cases separator
    · exact noColon
    · exact noComma
  rcases h.gap_or_separates with ⟨-, gap⟩ | ⟨separator, gap, last, rfl, before, after, -⟩
  · rcases whole.gap_or_separates with ⟨-, more⟩ | ⟨separator, gap', last, same, before, -, -⟩
    · exact inGap gap more
    · obtain ⟨-, marks⟩ := gap.unique before stop (separator.noGapAhead last) same
      exact noSeparator separator (List.cons.inj marks).1
  · rw [List.append_assoc, List.cons_append] at whole
    rcases whole.gap_or_separates with ⟨-, more⟩ | ⟨separator', gap', last', same, before', after', -⟩
    · exact before.not_last_of_separator separator _ (.closed more)
    · obtain ⟨-, rfl⟩ := before.separator_eq before' same
      exact inGap after after'

/-- What is kept of a lead may stand at the end, or breaks a comment. -/
theorem leadTo_of_cut {kept lost : Bytes}
    (h : Lead o (IsGap o.comments) stage (kept ++ lost) ready) :
    LeadTo o.comments (IsLastGap o.comments) kept ∨
      LeadTo o.comments (IsBrokenGap o.comments) kept := by
  rcases h.gap_or_separates with ⟨-, gap⟩ | ⟨separator, gap, last, whole, before, after, -⟩
  · exact (gap.of_cut rfl).imp .inl .inl
  · by_cases short : kept.length ≤ gap.length
    · obtain ⟨more, split, -⟩ := exists_of_append_eq whole.symm short
      exact (before.of_cut split).imp .inl .inl
    · have same : kept ++ lost = (gap ++ [separator.byte]) ++ last := by simpa using whole
      obtain ⟨front, rfl, split⟩ := exists_of_append_eq same (by simp; omega)
      have separated (Last : Bytes → Prop) (here : Last front) :
          LeadTo o.comments Last (gap ++ [separator.byte] ++ front) :=
        .inr ⟨separator, gap, front, by simp, before, here⟩
      exact (after.of_cut split).imp (separated _) (separated _)

/-- A lead that is cut off where it may end is one of a cut-off document. -/
theorem of_cut {kept lost : Bytes} (h : Lead o (IsGap o.comments) stage (kept ++ lost) ready)
    (ends : LeadTo o.comments (IsLastGap o.comments) kept) :
    ∃ last, Lead o (IsLastGap o.comments) stage kept last := by
  rcases ends with gap | ⟨separator, gap, last, rfl, before, after⟩
  · exact ⟨stage, .gap gap⟩
  · rw [List.append_assoc, List.cons_append] at h
    rcases h.gap_or_separates with ⟨-, more⟩ | ⟨separator', gap', last', same, before', -, parts⟩
    · exact (before.not_last_of_separator separator _ (.closed more)).elim
    · obtain ⟨rfl, -⟩ := before.separator_eq before' same
      exact ⟨ready, parts.lead before after⟩

theorem leadTo {Last : Bytes → Prop} {lead : Bytes} (h : Lead o Last stage lead ready) :
    LeadTo o.comments Last lead := by
  rcases h.gap_or_separates with ⟨-, gap⟩ | ⟨separator, gap, last, rfl, before, after, -⟩
  · exact .inl gap
  · exact .inr ⟨separator, gap, last, rfl, before, after⟩

end Lead

namespace Tokenizer

def Fails (step : Answer × Tokenizer) : Prop := ∃ error u, step = (.error error, u)

/-- Where a lead is cut off, the end is given if the lead may end there, and else the call fails. -/
theorem next_of_cut_lead {t : Tokenizer} {lost : Bytes} {ready : Stage}
    (lead : Lead t.options (IsGap t.options.comments) t.stage (t.cursor.rest ++ lost) ready)
    (inside : 0 < t.depth) :
    (LeadTo t.options.comments (IsLastGap t.options.comments) t.cursor.rest ∧
      ∃ u, t.next = (.ok none, u) ∧ u.depth = t.depth) ∨
    (LeadTo t.options.comments (IsBrokenGap t.options.comments) t.cursor.rest ∧ Fails t.next) := by
  rcases lead.leadTo_of_cut with ends | broken
  · obtain ⟨final, last⟩ := lead.of_cut ends
    have depth : final.kinds.length = t.depth := by rw [last.kinds, length_stage]
    have whole : final.kinds = [] → final.expect = .done := by
      intro outside
      rw [outside] at depth
      exact absurd depth (Nat.ne_of_lt inside)
    obtain ⟨u, call, rfl⟩ := next_of_last last whole
    exact .inl ⟨ends, u, call, u.length_stage.symm.trans depth⟩
  · refine .inr ⟨broken, ?_⟩
    cases call : t.next with
    | mk answer u =>
      cases answer with
      | error error => exact ⟨error, u, rfl⟩
      | ok given =>
        cases given with
        | none => exact ((lead_of_next call).1.leadTo.not_broken broken).elim
        | some token =>
          obtain ⟨passed, ready', written, ahead, came, took⟩ := took_of_next call
          obtain ⟨b, tail, rfl, noBlank, noSlash, noColon, noComma⟩ := took.writes.head
          rw [ahead, List.append_assoc, List.cons_append, List.cons_append] at lead
          exact (came.lead.not_mark lead ⟨noBlank, noSlash⟩ noColon noComma).elim

section Lexemes

variable {t : Tokenizer} {part lost : Bytes}

theorem readQuoted_of_cut {raw : Bytes} (contents : IsContents raw)
    (split : quoted raw = part ++ lost) (some : part ≠ []) (cut : lost ≠ [])
    (ahead : t.cursor.rest = part) (kind : TokenKind) (expect : Expect) :
    Fails (t.readQuoted kind expect) := by
  cases part with
  | nil => exact (some rfl).elim
  | cons b part =>
    obtain ⟨-, split⟩ := List.cons.inj split
    have content : t.cursor.rest.drop 1 = part := by rw [ahead, List.drop_one, List.tail_cons]
    unfold readQuoted
    dsimp only
    rw [content]
    cases front : Quotation.ofFront part with
    | closed n escaped => exact (Quotation.not_closed_of_cut contents split cut n escaped front).elim
    | unclosed | faulty => exact ⟨_, _, rfl⟩

theorem readLiteral_of_cut {word : Bytes} (split : word = part ++ lost) (cut : lost ≠ [])
    (ahead : t.cursor.rest = part) (kind : TokenKind) : Fails (t.readLiteral kind word) := by
  have short : ¬ word.isPrefixOf t.cursor.rest = true := by
    intro starts
    have le := (List.isPrefixOf_iff_prefix.1 starts).length_le
    rw [ahead, split, List.length_append] at le
    exact cut (List.length_eq_zero_iff.1 (by omega))
  rw [readLiteral, if_neg short]
  exact ⟨_, _, rfl⟩

theorem readNumber_of_cut (numeral : IsNumeral (part ++ lost)) (ahead : t.cursor.rest = part) :
    (IsNumeral part ∧ Gives t.readNumber ⟨.number, part⟩ (.afterValue t.nesting.inward) []) ∨
    (¬ IsNumeral part ∧ Fails t.readNumber) := by
  by_cases whole : IsNumeral part
  · exact .inl ⟨whole, readNumber_gives whole noNumeralAhead_nil (by simp [ahead])⟩
  · obtain ⟨stop, refused⟩ := Numeral.refuses_cut numeral whole
    refine .inr ⟨whole, ?_⟩
    rw [readNumber, ahead, refused]
    exact ⟨_, _, rfl⟩

/-- Where a lexeme is cut off, a number is given if one is left of a number, and else reading fails. -/
theorem readLexeme_of_cut {written : Bytes} {lexeme : Lexeme} {next : Stage}
    (writes : Writes t.stage written lexeme next) (split : written = part ++ lost)
    (some : part ≠ []) (cut : lost ≠ []) (ahead : t.cursor.rest = part) :
    ((lexeme.kind = .number ∧ IsNumeral part) ∧
      Gives t.readLexeme ⟨.number, part⟩ (.afterValue t.nesting.inward) []) ∨
    (¬ (lexeme.kind = .number ∧ IsNumeral part) ∧ Fails t.readLexeme) := by
  have single {b : UInt8} (whole : [b] = part ++ lost) : False := by
    have lengths := congrArg List.length whole
    have parts := List.length_pos_iff.2 some
    have losses := List.length_pos_iff.2 cut
    simp only [List.length_append, List.length_cons, List.length_nil] at lengths
    omega
  have head {b : UInt8} {tail : Bytes} (whole : b :: tail = part ++ lost) :
      ∃ tail, t.cursor.rest = b :: tail := by
    obtain ⟨c, front, rfl⟩ := List.exists_cons_of_ne_nil some
    cases whole
    exact ⟨front, ahead⟩
  generalize stage : t.stage = s at writes
  cases writes with
  | opening | closing => exact (single split).elim
  | name takes contents =>
    cases stage
    obtain ⟨tail, here⟩ := head split
    refine .inr ⟨by rintro ⟨⟨⟩, -⟩, ?_⟩
    rw [readLexeme_of_takesName takes here]
    exact readQuoted_of_cut contents split some cut ahead _ _
  | scalar takes scalar =>
    cases stage
    cases scalar with
    | string contents =>
      obtain ⟨tail, here⟩ := head split
      refine .inr ⟨by rintro ⟨⟨⟩, -⟩, ?_⟩
      rw [readLexeme_of_takesValue takes here (by decide)]
      exact readQuoted_of_cut contents split some cut ahead _ _
    | number numeral =>
      obtain ⟨b, tail, rfl, first⟩ := Numeral.head_of_isNumeral numeral
      obtain ⟨tail, here⟩ := head split
      have noCloser : b ≠ 0x5D := by
        rintro rfl
        exact absurd first (by decide)
      rw [split] at numeral
      rw [readLexeme_of_takesValue takes here noCloser, readValue_of_numeral first]
      rcases readNumber_of_cut numeral ahead with ⟨whole, gives⟩ | ⟨noNumeral, fails⟩
      · exact .inl ⟨⟨rfl, whole⟩, gives⟩
      · exact .inr ⟨fun number => noNumeral number.2, fails⟩
    | yes | no | null =>
      obtain ⟨tail, here⟩ := head split
      refine .inr ⟨by rintro ⟨⟨⟩, -⟩, ?_⟩
      rw [readLexeme_of_takesValue takes here (by decide)]
      exact readLiteral_of_cut split cut ahead _

/-- A call that meets the cut inside a lexeme passes the lead before it. -/
theorem next_of_cut_lexeme {passed written : Bytes} {ready next : Stage} {lexeme : Lexeme}
    (lead : Lead t.options (IsGap t.options.comments) t.stage passed ready)
    (writes : Writes ready written lexeme next) (split : written = part ++ lost)
    (some : part ≠ []) (cut : lost ≠ []) (ahead : t.cursor.rest = passed ++ part) :
    ((lexeme.kind = .number ∧ IsNumeral part) ∧
      Gives t.next ⟨.number, part⟩ (.afterValue ready.kinds) []) ∨
    (¬ (lexeme.kind = .number ∧ IsNumeral part) ∧ Fails t.next) := by
  obtain ⟨b, tail, head, noBlank, noSlash, noColon, noComma⟩ := writes.head
  obtain ⟨c, front, rfl⟩ := List.exists_cons_of_ne_nil some
  obtain ⟨rfl, -⟩ := List.cons.inj (head.symm.trans split)
  have stop : NoGapAhead (b :: front) := noGapAhead_cons.2 ⟨noBlank, noSlash⟩
  obtain ⟨u, call, rfl, -, -, cursor⟩ := next_of_lead lead ahead
    (fun gap last => Gap.ofFront_of_isGap last stop) (by simp [noColon, noComma])
  rw [call]
  exact readLexeme_of_cut writes split some cut (by simp [cursor, ahead])

end Lexemes

end Tokenizer

end PathFold.Json
