import PathFold.Proofs.Layout.Run

/-! The pieces of a document: gaps, and between them the bytes of tokens and the separators. What a
run without an error has read is made up of pieces in one way only, and other gaps between the same
marks make up a layout of the same lexemes. -/

namespace PathFold.Json

inductive Separator where
  | colon
  | comma
  deriving DecidableEq, Repr

def Separator.byte : Separator → UInt8
  | .colon => 0x3A
  | .comma => 0x2C

/-- What stands between two gaps: a token as it is written, or a separator. -/
inductive Mark where
  | token (written : Bytes)
  | separator (kind : Separator)
  deriving DecidableEq, Repr

/-- A mark and the gap before it. -/
structure Piece where
  gap : Bytes
  mark : Mark
  deriving DecidableEq, Repr

/-- That bytes are made up of these pieces and a last gap. -/
inductive Woven (comments : Bool) : List Piece → Bytes → Bytes → Prop
  | nil {last} : IsLastGap comments last → Woven comments [] last last
  | token {gap written pieces last bytes} : IsGap comments gap → Woven comments pieces last bytes →
      Woven comments (⟨gap, .token written⟩ :: pieces) last (gap ++ (written ++ bytes))
  | separator {gap separator pieces last bytes} : IsGap comments gap →
      Woven comments pieces last bytes →
      Woven comments (⟨gap, .separator separator⟩ :: pieces) last (gap ++ separator.byte :: bytes)

/-- From where to where each of the tokens stands if the pieces begin at `offset`. -/
def spans : Nat → List Piece → List (Nat × Nat)
  | _, [] => []
  | offset, ⟨gap, .token written⟩ :: pieces =>
    (offset + gap.length, offset + gap.length + written.length) ::
      spans (offset + gap.length + written.length) pieces
  | offset, ⟨gap, .separator _⟩ :: pieces => spans (offset + gap.length + 1) pieces

/-- That a stage asks for a separator, and the stage after it. -/
inductive Separates (o : Options) : Stage → Separator → Stage → Prop
  | colon {kinds} : Separates o ⟨.colon, kinds⟩ .colon ⟨.value, kinds⟩
  | comma {kinds} : Separates o ⟨.commaOrEnd, kinds⟩ .comma (.afterComma o.trailingCommas kinds)

/-- Marks that go on from a stage with these lexemes and end in another. -/
inductive Marks (o : Options) : Stage → List Mark → List Lexeme → Stage → Prop
  | nil {stage} : Marks o stage [] [] stage
  | separator {stage separator next marks lexemes final} : Separates o stage separator next →
      Marks o next marks lexemes final → Marks o stage (.separator separator :: marks) lexemes final
  | token {stage written lexeme next marks lexemes final} : Writes stage written lexeme next →
      Marks o next marks lexemes final →
      Marks o stage (.token written :: marks) (lexeme :: lexemes) final

section Separators

variable {o : Options} {Last : Bytes → Prop} {stage next ready : Stage} {separator : Separator}

theorem Separates.lead (h : Separates o stage separator next) {gap last : Bytes}
    (before : IsGap o.comments gap) (after : Last last) :
    Lead o Last stage (gap ++ separator.byte :: last) next := by
  cases h with
  | colon => exact .colon before after
  | comma => exact .comma before after

/-- No separator is asked for right after another. -/
theorem Separates.gap_of_lead (h : Separates o stage separator next) {lead : Bytes}
    (after : Lead o Last next lead ready) : ready = next ∧ Last lead := by
  have plain : next.expect ≠ .colon ∧ next.expect ≠ .commaOrEnd := by
    cases h with
    | colon => exact ⟨by rintro ⟨⟩, by rintro ⟨⟩⟩
    | @comma kinds =>
      unfold Stage.afterComma
      dsimp only
      split <;> decide
  cases after with
  | gap last => exact ⟨rfl, last⟩
  | colon => exact absurd rfl plain.1
  | comma => exact absurd rfl plain.2

/-- What comes before a lexeme is a gap, or a separator between two gaps. -/
theorem Lead.gap_or_separates {lead : Bytes} (h : Lead o Last stage lead ready) :
    (ready = stage ∧ Last lead) ∨ ∃ separator gap last, lead = gap ++ separator.byte :: last ∧
      IsGap o.comments gap ∧ Last last ∧ Separates o stage separator ready := by
  cases h with
  | gap last => exact .inl ⟨rfl, last⟩
  | colon before last => exact .inr ⟨.colon, _, _, rfl, before, last, .colon⟩
  | comma before last => exact .inr ⟨.comma, _, _, rfl, before, last, .comma⟩

/-- A lead may have more of a gap before it. -/
theorem Lead.after_gap {gap lead : Bytes} (h : Lead o Last stage lead ready)
    (before : IsGap o.comments gap) (longer : ∀ last, Last last → Last (gap ++ last)) :
    Lead o Last stage (gap ++ lead) ready := by
  cases h with
  | gap last => exact .gap (longer _ last)
  | colon gap last =>
    rw [← List.append_assoc]
    exact .colon (before.append gap) last
  | comma gap last =>
    rw [← List.append_assoc]
    exact .comma (before.append gap) last

/-- A layout with a separator before it. -/
theorem Layout.separated (parts : Separates o stage separator next) {gap bytes : Bytes}
    (before : IsGap o.comments gap) {lexemes : List Lexeme} {final : Stage}
    (h : Layout o next bytes lexemes final) :
    Layout o stage (gap ++ separator.byte :: bytes) lexemes final := by
  cases h with
  | last lead =>
    obtain ⟨rfl, last⟩ := parts.gap_of_lead lead
    exact .last (parts.lead before last)
  | @more _ lead ready written lexeme after rest lexemes _ passed writes more =>
    obtain ⟨rfl, last⟩ := parts.gap_of_lead passed
    have whole := Layout.more (parts.lead before last) writes more
    rwa [List.append_assoc, List.cons_append] at whole

theorem Layout.after_gap {gap bytes : Bytes} (before : IsGap o.comments gap)
    {lexemes : List Lexeme} {final : Stage} (h : Layout o stage bytes lexemes final) :
    Layout o stage (gap ++ bytes) lexemes final := by
  cases h with
  | last lead => exact .last (lead.after_gap before fun _ => IsLastGap.append before)
  | more passed writes more =>
    have whole := Layout.more (passed.after_gap before fun _ => before.append) writes more
    rwa [List.append_assoc] at whole

/-- A layout with what may stand before its first lexeme before it. -/
theorem Layout.after_lead {lead bytes : Bytes} (before : Lead o (IsGap o.comments) stage lead ready)
    {lexemes : List Lexeme} {final : Stage} (h : Layout o ready bytes lexemes final) :
    Layout o stage (lead ++ bytes) lexemes final := by
  rcases before.gap_or_separates with ⟨rfl, gap⟩ | ⟨separator, gap, last, rfl, gap, after, parts⟩
  · exact h.after_gap gap
  · rw [List.append_assoc, List.cons_append]
    exact (h.after_gap after).separated parts gap

end Separators

/-- Whatever gaps stand between marks, they make up a layout of the same lexemes. -/
theorem Marks.layout {o : Options} {stage final : Stage} {marks : List Mark} {lexemes : List Lexeme}
    (h : Marks o stage marks lexemes final) {pieces : List Piece} {last bytes : Bytes}
    (woven : Woven o.comments pieces last bytes) (same : pieces.map (·.mark) = marks) :
    Layout o stage bytes lexemes final := by
  induction h generalizing pieces bytes with
  | nil =>
    cases woven with
    | nil gap => exact .last (.gap gap)
    | token | separator => cases same
  | separator parts _ ih =>
    cases woven with
    | nil | token => cases same
    | separator gap rest =>
      cases same
      exact (ih rest rfl).separated parts gap
  | token writes _ ih =>
    cases woven with
    | nil | separator => cases same
    | token gap rest =>
      cases same
      exact .more (.gap gap) writes (ih rest rfl)

/-- What a run without an error has read is made up of pieces, with its tokens for marks that are no
separators. -/
theorem Tokenizer.Completes.woven {t final : Tokenizer} {tokens : List Token}
    (h : t.Completes tokens final) : ∃ pieces last,
      Woven t.options.comments pieces last t.cursor.rest ∧
      Marks t.options t.stage (pieces.map (·.mark)) (tokens.map (·.lexeme)) final.stage ∧
      spans t.position pieces = tokens.map fun token => (token.start, token.stop) := by
  induction h with
  | @last t u call =>
    obtain ⟨lead, -⟩ := lead_of_next call
    rcases lead.gap_or_separates with
      ⟨same, last⟩ | ⟨separator, gap, last, whole, before, after, parts⟩
    · exact ⟨[], _, .nil last, same ▸ .nil, rfl⟩
    · rw [whole]
      refine ⟨[⟨gap, .separator separator⟩], last, ?_, .separator parts .nil, rfl⟩
      exact .separator before (.nil after)
  | @more t u tokens final token call _ ih =>
    obtain ⟨pieces, last, woven, marks, same⟩ := ih
    obtain ⟨passed, ready, written, ahead, came, took⟩ := took_of_next call
    have options : u.options = t.options := took.options.trans came.options
    have position : ready.position = t.position + passed.length := by
      rw [Tokenizer.position, came.cursor]
      rfl
    have there : u.position = ready.position + written.length := by
      rw [Tokenizer.position, took.cursor]
      rfl
    rw [options] at woven marks
    rw [there] at same
    have token : (token.start, token.stop) = (ready.position, ready.position + written.length) :=
      Prod.ext took.start took.stop
    rw [ahead, List.map_cons, List.map_cons, token, ← same]
    rcases came.lead.gap_or_separates with
      ⟨stage, gap⟩ | ⟨separator, gap, more, rfl, before, after, parts⟩
    · refine ⟨⟨passed, .token written⟩ :: pieces, last, .token gap woven, ?_, ?_⟩
      · exact .token (stage ▸ took.writes) marks
      · rw [spans, position]
    · refine ⟨⟨gap, .separator separator⟩ :: ⟨more, .token written⟩ :: pieces, last, ?_, ?_, ?_⟩
      · rw [List.append_assoc, List.cons_append]
        exact .separator before (.token after woven)
      · exact .separator parts (.token took.writes marks)
      · have length : t.position + gap.length + 1 + more.length = ready.position := by
          rw [position, List.length_append, List.length_cons]
          omega
        rw [spans, spans, length]

/-- That a mark cannot be taken for a gap or for a separator where it is none. -/
def Mark.Begins : Mark → Prop
  | .token written => ∃ b tail, written = b :: tail ∧ isBlank b = false ∧ b ≠ 0x2F ∧
      b ≠ 0x3A ∧ b ≠ 0x2C
  | .separator _ => True

theorem Marks.begins {o : Options} {stage final : Stage} {marks : List Mark} {lexemes : List Lexeme}
    (h : Marks o stage marks lexemes final) : ∀ mark ∈ marks, mark.Begins := by
  induction h with
  | nil => exact List.forall_mem_nil _
  | separator _ _ ih => exact List.forall_mem_cons.2 ⟨trivial, ih⟩
  | token writes _ ih => exact List.forall_mem_cons.2 ⟨writes.head, ih⟩

theorem Separator.noGapAhead (separator : Separator) (rest : Bytes) :
    NoGapAhead (separator.byte :: rest) :=
  noGapAhead_cons.2 (by cases separator <;> decide)

/-- The gap at the front is the one before the first mark. -/
theorem Woven.ofFront {comments : Bool} {piece : Piece} {pieces : List Piece} {last bytes : Bytes}
    (h : Woven comments (piece :: pieces) last bytes) (begins : piece.mark.Begins) :
    Gap.ofFront comments bytes = ⟨piece.gap.length, true⟩ ∧ piece.gap.length < bytes.length := by
  cases h with
  | token gap =>
    obtain ⟨b, tail, rfl, noBlank, noSlash, -⟩ := begins
    refine ⟨Gap.ofFront_of_isGap gap (noGapAhead_cons.2 ⟨noBlank, noSlash⟩), ?_⟩
    simp
  | separator gap =>
    refine ⟨Gap.ofFront_of_isGap gap (Separator.noGapAhead _ _), ?_⟩
    simp

/-- Marks make no gap up to the end. -/
theorem Woven.not_isLastGap {comments : Bool} {piece : Piece} {pieces : List Piece}
    {last bytes : Bytes} (h : Woven comments (piece :: pieces) last bytes)
    (begins : piece.mark.Begins) : ¬ IsLastGap comments bytes := by
  intro gap
  obtain ⟨front, shorter⟩ := h.ofFront begins
  rw [Gap.ofFront_of_isLastGap gap] at front
  exact absurd (congrArg Gap.length front) (Nat.ne_of_gt shorter)

/-- A gap is no longer than the one that is read at the front. -/
theorem IsGap.length_le {comments : Bool} {gap : Bytes} (h : IsGap comments gap) (rest : Bytes) :
    gap.length ≤ (Gap.ofFront comments (gap ++ rest)).length := by
  rw [Gap.ofFront_append h]
  exact Nat.le_add_right _ _

theorem le_of_mem_spans {offset : Nat} {pieces : List Piece} {span : Nat × Nat}
    (h : span ∈ spans offset pieces) : offset ≤ span.1 := by
  fun_induction spans offset pieces with
  | case1 => cases h
  | case2 offset gap written pieces ih =>
    rcases List.mem_cons.1 h with rfl | later
    · exact Nat.le_add_right _ _
    · have := ih later
      omega
  | case3 offset gap separator pieces ih =>
    have := ih h
    omega

/-- Bytes are made up of pieces in one way, given where the tokens stand. -/
theorem Woven.unique {comments : Bool} {pieces pieces' : List Piece} {last last' bytes : Bytes}
    (h : Woven comments pieces last bytes) (begins : ∀ piece ∈ pieces, piece.mark.Begins)
    (h' : Woven comments pieces' last' bytes) {offset : Nat}
    (same : spans offset pieces' = spans offset pieces) : pieces' = pieces := by
  -- The gap at the front is the same in both, since that before a token ends where the token starts
  -- and that before a separator goes as far as a gap can.
  induction h generalizing pieces' offset with
  | nil gap =>
    cases h' with
    | nil => rfl
    | token => cases same
    | @separator gap' separator pieces' _ _ isGap' rest' =>
      have woven : Woven comments (⟨gap', .separator separator⟩ :: pieces') last' _ :=
        .separator isGap' rest'
      exact (woven.not_isLastGap trivial gap).elim
  | @token gap written pieces last bytes isGap rest ih =>
    obtain ⟨begin', begins⟩ := List.forall_mem_cons.1 begins
    have woven : Woven comments (⟨gap, .token written⟩ :: pieces) last _ := .token isGap rest
    generalize whole : gap ++ (written ++ bytes) = all at h' woven
    cases h' with
    | nil gap' => exact (woven.not_isLastGap begin' gap').elim
    | @token gap' written' pieces' _ bytes' isGap' rest' =>
      obtain ⟨span, later⟩ := List.cons.inj same
      obtain ⟨start, stop⟩ := Prod.mk.inj span
      have gaps : gap.length = gap'.length := by omega
      obtain ⟨gaps, whole⟩ := List.append_inj whole gaps
      have marks : written.length = written'.length := by omega
      obtain ⟨marks, rest⟩ := List.append_inj whole marks
      subst gaps marks rest
      rw [ih begins rest' later]
    | @separator gap' separator pieces' _ bytes' isGap' rest' =>
      have front := (woven.ofFront begin').1
      rw [Gap.ofFront_of_isGap isGap' (separator.noGapAhead bytes')] at front
      have gaps : gap'.length = gap.length := congrArg Gap.length front
      obtain ⟨-, whole⟩ := List.append_inj whole gaps.symm
      obtain ⟨b, tail, written, -, -, noColon, noComma⟩ := begin'
      subst written
      have first : b = separator.byte := (List.cons.inj whole).1
      cases separator with
      | colon => exact absurd first noColon
      | comma => exact absurd first noComma
  | @separator gap separator pieces last bytes isGap rest ih =>
    have woven : Woven comments (⟨gap, .separator separator⟩ :: pieces) last _ :=
      .separator isGap rest
    have front := (woven.ofFront trivial).1
    generalize whole : gap ++ separator.byte :: bytes = all at h' woven front
    cases h' with
    | nil gap' => exact (woven.not_isLastGap trivial gap').elim
    | @token gap' written' pieces' _ bytes' isGap' rest' =>
      have short : gap'.length ≤ gap.length := by
        have bound := isGap'.length_le (written' ++ bytes')
        rwa [front] at bound
      have mem : (offset + gap'.length, offset + gap'.length + written'.length) ∈
          spans (offset + gap.length + 1) pieces := by
        have first : _ :: _ = spans (offset + gap.length + 1) pieces := same
        rw [← first]
        exact List.mem_cons_self
      have far := le_of_mem_spans mem
      omega
    | @separator gap' separator' pieces' _ bytes' isGap' rest' =>
      rw [Gap.ofFront_of_isGap isGap' (separator'.noGapAhead bytes')] at front
      have gaps : gap'.length = gap.length := congrArg Gap.length front
      obtain ⟨gaps, whole⟩ := List.append_inj whole gaps.symm
      obtain ⟨first, rest⟩ := List.cons.inj whole
      have marks : separator = separator' := by
        cases separator <;> cases separator' <;> first | rfl | cases first
      subst gaps marks rest
      rw [ih (List.forall_mem_cons.1 begins).2 rest' same]

end PathFold.Json
