import PathFold.Proofs.Layout.Pieces
import PathFold.Proofs.Reduction.Lexemes

/-! Spacing does not matter. Where a run ends without an error, other gaps between the same tokens
and separators change neither what the tokenizer gives, but for the places of tokens, nor what
reducing comes to. -/

namespace PathFold

open PathFold.Json

/-- What a token says wherever it stands: its kind, its bytes, whether an escape is among them, and
how many containers are open after it. -/
def Json.Pull.contents (pull : Pull) : TokenKind × Bytes × Bool × Nat :=
  (pull.token.kind, pull.token.raw, pull.token.escaped, pull.depth)

namespace Json.Tokenizer

/-- The contents of a token are those of its lexeme, inside as many containers. -/
theorem contents_of_next {t u : Tokenizer} {token : Token} (h : t.next = (.ok (some token), u)) :
    (Pull.mk token u.depth).contents = (token.lexeme.kind, token.lexeme.raw,
      Escape.hasEscape token.lexeme.raw, token.lexeme.kind.depthAfter t.depth) := by
  obtain ⟨passed, ready, written, -, came, took⟩ := took_of_next h
  have depth : u.depth = token.lexeme.kind.depthAfter t.depth :=
    depth_of_writes came.lead took.writes
  rw [Pull.contents, took.escaped, depth]
  rfl

/-- Runs over the same lexemes that start inside as many containers give the same contents. -/
theorem Completes.contents_eq {t t' final final' : Tokenizer} {tokens tokens' : List Token}
    (h : t.Completes tokens final) (h' : t'.Completes tokens' final') (depth : t'.depth = t.depth)
    (same : tokens'.map (·.lexeme) = tokens.map (·.lexeme)) :
    t'.feed.pulls.map Pull.contents = t.feed.pulls.map Pull.contents := by
  induction h generalizing t' tokens' with
  | last call =>
    cases h' with
    | last call' => rw [feed_of_end call, feed_of_end call']
    | more => cases same
  | @more t u tokens final token call _ ih =>
    cases h' with
    | last => cases same
    | @more _ u' tokens' _ token' call' after' =>
      obtain ⟨first, others⟩ := List.cons.inj same
      have first : token'.lexeme = token.lexeme := first
      have contents : (Pull.mk token' u'.depth).contents = (Pull.mk token u.depth).contents := by
        rw [contents_of_next call', contents_of_next call, first, depth]
      have depth : u'.depth = u.depth := congrArg (·.2.2.2) contents
      rw [feed_of_token call, feed_of_token call', List.map_cons, List.map_cons, contents,
        ih after' depth others]

end Json.Tokenizer

/-- Reducing a document walks over the lexemes of its layout. -/
theorem Reducer.processWith_of_layout {α : Type} {reducer : Reducer α} {document : Bytes}
    {lexemes : List Lexeme} {final : Stage}
    (h : Layout reducer.config.options .start document lexemes final)
    (whole : final.kinds = [] → final.expect = .done) (aggregate : α) :
    reducer.processWith document aggregate =
      ((Walk.start reducer.config.maxDepth aggregate).follow reducer.rules lexemes).bind
        (·.finish none) := by
  let t := Tokenizer.start reducer.config.options document
  have layout : Layout t.options t.stage t.cursor.rest lexemes final := h
  exact Walk.result_run_layout layout whole rfl (Nat.min_le_right _ _) (Nat.zero_le _)
    (by rintro ⟨⟩)

/-- That an input is made up of these pieces and a last gap, in which the marks that are no
separators are the tokens that the tokenizer gives. -/
structure Json.Written (o : Options) (input : Bytes) (pieces : List Piece) (last : Bytes) :
    Prop where
  woven : Woven o.comments pieces last input
  spans : spans 0 pieces =
    (Tokenizer.start o input).feed.pulls.map fun pull => (pull.token.start, pull.token.stop)

/-- Spacing does not matter. Take an input over which the run ends without an error. It is made up
of its tokens and separators and of gaps between them, and with any other gaps in their places the
run ends without an error as well, the tokens have the same contents, and reducing comes to the
same. -/
theorem respaced_eq {o : Options} {input : Bytes} {final : Tokenizer}
    (ends : (Tokenizer.start o input).run.getLast? = some (.ok none, final)) :
    (∃ pieces last, Written o input pieces last) ∧
    ∀ pieces last, Written o input pieces last → ∀ pieces' last' input',
      Woven o.comments pieces' last' input' → pieces'.map (·.mark) = pieces.map (·.mark) →
      (∃ final', (Tokenizer.start o input').run.getLast? = some (.ok none, final') ∧
        final'.depth = final.depth) ∧
      (Tokenizer.start o input').feed.pulls.map Pull.contents =
        (Tokenizer.start o input).feed.pulls.map Pull.contents ∧
      ∀ (α : Type) (reducer : Reducer α), reducer.config.options = o → ∀ aggregate,
        reducer.processWith input' aggregate = reducer.processWith input aggregate := by
  have completes := Tokenizer.completes_of_run ends
  obtain ⟨pieces₀, last₀, woven₀, marks, spans₀⟩ := completes.woven
  obtain ⟨layout, room, whole⟩ := completes.layout
  rw [List.map_map] at spans₀
  refine ⟨⟨pieces₀, last₀, woven₀, spans₀⟩, ?_⟩
  intro pieces last written pieces' last' input' woven same
  have begins : ∀ piece ∈ pieces₀, piece.mark.Begins := fun piece mem =>
    marks.begins _ (List.mem_map_of_mem mem)
  have unique : pieces = pieces₀ :=
    woven₀.unique begins written.woven (written.spans.trans spans₀.symm)
  have whole : final.stage.kinds = [] → final.stage.expect = .done := by
    intro outside
    apply whole
    rw [← Tokenizer.length_stage, outside, List.length_nil]
  let t' := Tokenizer.start o input'
  have layout' : Layout t'.options t'.stage t'.cursor.rest _ final.stage :=
    marks.layout woven (unique ▸ same)
  obtain ⟨tokens', final', completes', lexemes, stage⟩ :=
    Tokenizer.completes_of_layout layout' room whole
  refine ⟨⟨final', completes'.run.1, ?_⟩, completes.contents_eq completes' rfl lexemes, ?_⟩
  · rw [← Tokenizer.length_stage, ← Tokenizer.length_stage, stage]
  · rintro α reducer rfl aggregate
    have before : reducer.processWith input aggregate = _ :=
      Reducer.processWith_of_layout layout whole aggregate
    have after : reducer.processWith input' aggregate = _ :=
      Reducer.processWith_of_layout layout' whole aggregate
    rw [before, after]

/-- An array that is cut off after its first number, with a blank before and a comment after it. -/
theorem respaced_eq_cut_off :
    let input : Bytes := [0x5B, 0x30]
    let spaced : Bytes := [0x20, 0x5B, 0x30, 0x2F, 0x2F]
    ∃ final, (Tokenizer.start .lenient input).run.getLast? = some (.ok none, final) ∧
      (Tokenizer.start .lenient spaced).feed.pulls.map Pull.contents =
        (Tokenizer.start .lenient input).feed.pulls.map Pull.contents ∧
      ∀ reducer : Reducer Nat, reducer.config.options = .lenient →
        reducer.process spaced = reducer.process input := by
  intro input spaced
  have zero : IsNumeral [0x30] := ⟨[], [0x30], [], [], .inl rfl, .inl rfl, .inl rfl, .inl rfl, rfl⟩
  have array : Writes .start [0x5B] (.opening .array) (.inside .array []) := .opening .array rfl
  have number : Writes (.inside .array []) [0x30] ⟨.number, [0x30]⟩ (.afterValue [.array]) :=
    .scalar rfl (.number zero)
  have layout : Layout .lenient .start input _ (.afterValue [.array]) :=
    .more (.gap .nil) array (.more (.gap .nil) number (.last (.gap (.closed .nil))))
  have room : Room 0 [.opening .array, ⟨.number, [0x30]⟩] := by
    simp [Room, Lexeme.opening, Nesting.maxDepth]
  obtain ⟨tokens, final, completes, -, -⟩ :=
    Tokenizer.completes_of_layout (t := Tokenizer.start .lenient input) layout room (by rintro ⟨⟩)
  have ends := completes.run.1
  have written : Written .lenient input [⟨[], .token [0x5B]⟩, ⟨[], .token [0x30]⟩] [] :=
    ⟨.token .nil (.token .nil (.nil (.closed .nil))), by decide +kernel⟩
  have woven : Woven true [⟨[0x20], .token [0x5B]⟩, ⟨[], .token [0x30]⟩] [0x2F, 0x2F] spaced :=
    .token (.blank (.inl rfl) .nil) (.token .nil (.nil (.openLine rfl .nil List.not_mem_nil)))
  obtain ⟨-, contents, results⟩ := (respaced_eq ends).2 _ _ written _ _ _ woven rfl
  exact ⟨final, ends, contents, fun reducer options => results Nat reducer options reducer.initial⟩

end PathFold
