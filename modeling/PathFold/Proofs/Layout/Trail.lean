import PathFold.Proofs.Layout.Cut

/-! A tokenizer over an input that is cut off trails one over the whole input: it gives the tokens that
are kept whole, and then meets the cut in front of a token or inside one. -/

namespace PathFold.Json

namespace Tokenizer

/-- Where a token stands, and the tokenizer after it. -/
theorem span_of_took {Last : Bytes → Prop} {t ready u : Tokenizer} {passed written : Bytes}
    {token : Token} (came : t.Passed Last passed ready) (took : ready.Took written token u) :
    token.start = t.position + passed.length ∧ token.stop = token.start + written.length ∧
      u.position = token.stop := by
  have here : ready.position = t.position + passed.length := by
    rw [position, came.cursor]
    rfl
  have after : u.position = ready.position + written.length := by
    rw [position, took.cursor]
    rfl
  exact ⟨took.start.trans here, by rw [took.stop, took.start], after.trans took.stop.symm⟩

/-- After a token the tokenizer stands at its end. -/
theorem position_of_next {t u : Tokenizer} {token : Token} (h : t.next = (.ok (some token), u)) :
    u.position = token.stop := by
  obtain ⟨passed, ready, written, -, came, took⟩ := took_of_next h
  exact (span_of_took came took).2.2

/-- That a tokenizer stands in the kept bytes where another one stands in the document. -/
structure Trails (kept lost : Bytes) (t t' : Tokenizer) : Prop where
  stage : t'.stage = t.stage
  options : t'.options = t.options
  here : t'.cursor.rest = kept.drop t.position
  rest : t.cursor.rest = kept.drop t.position ++ lost
  within : t.position ≤ kept.length

namespace Trails

variable {kept lost : Bytes} {t t' u final : Tokenizer} {token : Token} {tokens : List Token}

theorem depth (h : t.Trails kept lost t') : t'.depth = t.depth := by
  rw [← length_stage, h.stage, length_stage]

/-- A token that is kept whole is given again. -/
theorem next_of_whole (h : t.Trails kept lost t') (call : t.next = (.ok (some token), u))
    (after : u.Completes tokens final) (whole : token.stop ≤ kept.length) :
    ∃ token' u', t'.next = (.ok (some token'), u') ∧ u.Trails kept lost u' := by
  obtain ⟨passed, ready, written, ahead, came, took⟩ := took_of_next call
  obtain ⟨start, stop, there⟩ := span_of_took came took
  have within := h.within
  have length : (passed ++ written).length ≤ (kept.drop t.position).length := by
    simp only [List.length_append, List.length_drop]
    omega
  rw [h.rest, ← List.append_assoc] at ahead
  obtain ⟨rest, here, left⟩ := exists_of_append_eq ahead length
  have skipped : t.position + (passed ++ written).length = u.position := by
    rw [List.length_append]
    omega
  have kept_rest : rest = kept.drop u.position := by
    rw [← skipped, ← List.drop_drop, here, List.drop_left]
  have noNumeral : token.lexeme.kind = .number → NoNumeralAhead rest := by
    intro number
    have layout := after.layout.1
    rw [took.writes.next_of_number number] at layout
    have stop := layout.noNumeralAhead
    rw [left] at stop
    exact stop.of_append
  have room : ∀ kind, token.lexeme.kind = .opening kind → t'.depth < 64 := by
    intro kind opening
    have same : ready.depth = t.depth := congrArg Nesting.depth came.nesting
    rw [h.depth, ← same]
    exact took.room kind opening
  have lead := came.lead
  rw [← h.options, ← h.stage] at lead
  have ahead' : t'.cursor.rest = passed ++ (written ++ rest) := by
    rw [h.here, here, List.append_assoc]
  obtain ⟨token', u', call', -, stage, rest'⟩ :=
    next_of_writes lead took.writes ahead' noNumeral room
  have options : u'.options = t'.options := by
    have same := t'.options_next
    rwa [call'] at same
  refine ⟨token', u', call', stage, ?_, rest'.trans kept_rest, kept_rest ▸ left, ?_⟩
  · rw [options, h.options, took.options, came.options]
  · rw [there]
    exact whole

/-- A cut between two tokens is met in the lead of the second. -/
theorem next_of_before (h : t.Trails kept lost t') (call : t.next = (.ok (some token), u))
    (before : kept.length ≤ token.start) (inside : 0 < t.depth) :
    (LeadTo t.options.comments (IsLastGap t.options.comments) (kept.drop t.position) ∧
      ∃ u', t'.next = (.ok none, u') ∧ u'.depth = t.depth) ∨
    (LeadTo t.options.comments (IsBrokenGap t.options.comments) (kept.drop t.position) ∧
      Fails t'.next) := by
  obtain ⟨passed, ready, written, ahead, came, took⟩ := took_of_next call
  obtain ⟨start, -, -⟩ := span_of_took came took
  have within := h.within
  rw [h.rest] at ahead
  obtain ⟨more, rfl, -⟩ := exists_of_append_eq ahead.symm (by rw [List.length_drop]; omega)
  have lead := came.lead
  rw [← h.options, ← h.stage, ← h.here] at lead
  rw [← h.options, ← h.here, ← h.depth]
  exact next_of_cut_lead lead (by rwa [h.depth])

/-- A cut inside a token is met in reading it. -/
theorem next_of_inside (h : t.Trails kept lost t') (call : t.next = (.ok (some token), u))
    (before : token.start < kept.length) (after : kept.length < token.stop) :
    ((token.kind = .number ∧ IsNumeral (kept.drop token.start)) ∧
      Gives t'.next ⟨.number, kept.drop token.start⟩ (.afterValue t'.stage.kinds) []) ∨
    (¬ (token.kind = .number ∧ IsNumeral (kept.drop token.start)) ∧ Fails t'.next) := by
  obtain ⟨passed, ready, written, ahead, came, took⟩ := took_of_next call
  obtain ⟨start, stop, -⟩ := span_of_took came took
  have within := h.within
  rw [h.rest] at ahead
  obtain ⟨part, here, left⟩ := exists_of_append_eq ahead (by rw [List.length_drop]; omega)
  have part_eq : kept.drop token.start = part := by
    rw [start, ← List.drop_drop, here, List.drop_left]
  have lengths : part.length = kept.length - token.start := by rw [← part_eq, List.length_drop]
  obtain ⟨more, split, -⟩ := exists_of_append_eq left (by omega)
  have some : part ≠ [] := by
    rintro rfl
    rw [List.length_nil] at lengths
    omega
  have cut : more ≠ [] := by
    rintro rfl
    rw [List.append_nil] at split
    rw [split] at stop
    omega
  have lead := came.lead
  rw [← h.options, ← h.stage] at lead
  rw [part_eq, ← lead.kinds]
  exact next_of_cut_lexeme lead took.writes split some cut (h.here.trans here)

end Trails

end Tokenizer

end PathFold.Json
