import PathFold.Proofs.Layout.Tree

/-! Acceptance. The tokenizer gets to the end of an input without an error and outside any container
just when the input is a document with room for its containers, and it gives the lexemes of the
document's parse tree from left to right. -/

namespace PathFold.Json

theorem room_of_scalar {kind : TokenKind} (h : kind.scalarKind?.isSome) (depth : Nat) (raw : Bytes)
    (rest : List Lexeme) : Room depth (⟨kind, raw⟩ :: rest) ↔ Room depth rest := by
  have noOpening (container : ContainerKind) : kind ≠ .opening container := by
    rintro rfl
    cases h
  simp [Room, noOpening, depthAfter_of_scalar h]

mutual

/-- There is room for a tree just where its height fits. -/
theorem Tree.room_iff (tree : Tree) {depth : Nat} (inside : depth ≤ Nesting.maxDepth)
    (rest : List Lexeme) (proper : tree.Proper) :
    Room depth (tree.lexemes ++ rest) ↔
      depth + tree.height ≤ Nesting.maxDepth ∧ Room depth rest := by
  cases tree with
  | scalar lexeme =>
    have same := room_of_scalar proper depth lexeme.raw rest
    simp [Tree.lexemes, Tree.height, inside, same]
  | container kind entries =>
    have out : Room (depth + 1) (.closing kind :: rest) ↔ Room depth rest := by
      simp [Room, Lexeme.closing, TokenKind.depthAfter]
    by_cases room : depth < Nesting.maxDepth
    · have inner := entries.room_iff room (.closing kind :: rest) kind proper
      have fits : Room depth (.opening kind :: (entries.lexemes ++ .closing kind :: rest)) ↔
          Room (depth + 1) (entries.lexemes ++ .closing kind :: rest) := by
        simp [Room, Lexeme.opening, TokenKind.depthAfter, room]
      rw [out] at inner
      rw [Tree.lexemes, Tree.height, List.cons_append, List.append_assoc, List.singleton_append,
        fits, inner]
      refine and_congr_left fun _ => ?_
      omega
    · have full : ¬ depth + (entries.height + 1) ≤ Nesting.maxDepth := by omega
      simp [Tree.lexemes, Tree.height, Room, Lexeme.opening, room, full]

theorem Entries.room_iff (entries : Entries) {depth : Nat} (inside : depth ≤ Nesting.maxDepth)
    (rest : List Lexeme) (kind : ContainerKind) (proper : entries.Proper kind) :
    Room depth (entries.lexemes ++ rest) ↔
      depth + entries.height ≤ Nesting.maxDepth ∧ Room depth rest := by
  cases entries with
  | nil => simp [Entries.lexemes, Entries.height, inside]
  | cons name value others =>
    obtain ⟨-, first, proper⟩ := proper
    have named : Room depth (name.toList.map .name ++ (value.lexemes ++ (others.lexemes ++ rest))) ↔
        Room depth (value.lexemes ++ (others.lexemes ++ rest)) := by
      cases name <;> simp [Room, Lexeme.name, TokenKind.depthAfter]
    have inner := value.room_iff inside (others.lexemes ++ rest) first
    have more := others.room_iff inside rest kind proper
    rw [Entries.lexemes, Entries.height, List.append_assoc, List.append_assoc, named, inner, more,
      ← and_assoc]
    refine and_congr_left fun _ => ?_
    omega

end

/-- A run that ends without an error and outside any container has read a document. -/
theorem document_of_run {o : Options} {input : Bytes} {final : Tokenizer}
    (ends : (Tokenizer.start o input).run.getLast? = some (.ok none, final))
    (outside : final.depth = 0) :
    ∃ tree, IsDocument o tree input ∧ tree.height ≤ Nesting.maxDepth ∧
      tree.lexemes = (Tokenizer.start o input).feed.pulls.map (·.token.lexeme) := by
  obtain ⟨layout, room, whole⟩ := (Tokenizer.completes_of_run ends).layout
  have done : final.stage = .done := by
    have kinds : final.nesting.inward = [] := by
      rw [← List.length_eq_zero_iff, Nesting.length_inward]
      exact outside
    rw [Tokenizer.stage, whole outside, kinds]
    rfl
  rw [done] at layout
  rw [List.map_map] at layout room
  obtain ⟨tree, document, lexemes⟩ := layout.isDocument
  have height := tree.room_iff (Nat.zero_le _) [] document.proper
  rw [List.append_nil, lexemes, Nat.zero_add] at height
  exact ⟨tree, document, (height.1 room).1, lexemes⟩

/-- A document with room for its containers is read to its end. -/
theorem run_of_document {o : Options} {tree : Tree} {input : Bytes}
    (document : IsDocument o tree input) (height : tree.height ≤ Nesting.maxDepth) :
    (∃ final, (Tokenizer.start o input).run.getLast? = some (.ok none, final) ∧ final.depth = 0) ∧
      (Tokenizer.start o input).feed.pulls.map (·.token.lexeme) = tree.lexemes := by
  have room := tree.room_iff (Nat.zero_le _) [] document.proper
  rw [List.append_nil, Nat.zero_add] at room
  let start := Tokenizer.start o input
  have layout : Layout o start.stage input tree.lexemes .done := document.layout
  have fits : Room start.depth tree.lexemes := room.2 ⟨height, trivial⟩
  obtain ⟨tokens, final, completes, lexemes, stage⟩ :=
    Tokenizer.completes_of_layout layout fits (fun _ => rfl)
  obtain ⟨ends, given⟩ := completes.run
  have outside : final.depth = 0 := by
    rw [← Tokenizer.length_stage, stage]
    rfl
  refine ⟨⟨final, ends, outside⟩, ?_⟩
  rw [← lexemes, ← given, List.map_map]
  rfl

/-- A run ends without an error and outside any container just when the input is a document, and
then the tokens are the lexemes of the parse tree from left to right. -/
theorem complete_run_iff_document (o : Options) (input : Bytes) (lexemes : List Lexeme) :
    ((∃ final, (Tokenizer.start o input).run.getLast? = some (.ok none, final) ∧ final.depth = 0) ∧
      (Tokenizer.start o input).feed.pulls.map (·.token.lexeme) = lexemes) ↔
    ∃ tree, IsDocument o tree input ∧ tree.height ≤ Nesting.maxDepth ∧ tree.lexemes = lexemes := by
  constructor
  · rintro ⟨⟨final, ends, outside⟩, rfl⟩
    exact document_of_run ends outside
  · rintro ⟨tree, document, height, rfl⟩
    exact run_of_document document height

end PathFold.Json
