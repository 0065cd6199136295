import PathFold.Json.Tokenizer.Run
import PathFold.Proofs.Layout.Call

/-! Runs of the tokenizer, against layouts. A run that gives no error reads a layout of the rest of
the input, and it reads every layout whose containers there is room for. -/

namespace PathFold.Json

/-- How many containers are open after a token. -/
def TokenKind.depthAfter (depth : Nat) : TokenKind → Nat
  | .opening _ => depth + 1
  | .closing _ => depth - 1
  | _ => depth

theorem depthAfter_of_scalar {kind : TokenKind} (h : kind.scalarKind?.isSome) (depth : Nat) :
    kind.depthAfter depth = depth := by
  cases kind with
  | opening | closing => cases h
  | propertyName | string | number | boolean | null => rfl

/-- Every container that opens finds fewer open than there can be. -/
def Room (depth : Nat) : List Lexeme → Prop
  | [] => True
  | lexeme :: rest =>
    (∀ kind, lexeme.kind = .opening kind → depth < Nesting.maxDepth) ∧
      Room (lexeme.kind.depthAfter depth) rest

theorem Writes.depth {stage next : Stage} {written : Bytes} {lexeme : Lexeme}
    (h : Writes stage written lexeme next) :
    next.kinds.length = lexeme.kind.depthAfter stage.kinds.length := by
  cases h with
  | opening | closing | name => rfl
  | scalar _ scalar => cases scalar <;> rfl

namespace Tokenizer

/-- The calls up to an end without an error: the tokens they give, and the tokenizer at the end. -/
inductive Completes : Tokenizer → List Token → Tokenizer → Prop
  | last {t u} : t.next = (.ok none, u) → Completes t [] u
  | more {t u tokens final} {token : Token} : t.next = (.ok (some token), u) →
      Completes u tokens final → Completes t (token :: tokens) final

theorem length_stage (t : Tokenizer) : t.stage.kinds.length = t.depth := t.nesting.length_inward

theorem options_next (t : Tokenizer) : t.next.2.options = t.options := by
  obtain ⟨_, _, _, options, _⟩ := advances_next t
  exact options

theorem depth_of_writes {t u : Tokenizer} {Last : Bytes → Prop} {passed written : Bytes}
    {ready : Stage} {lexeme : Lexeme} (lead : Lead t.options Last t.stage passed ready)
    (writes : Writes ready written lexeme u.stage) :
    u.depth = lexeme.kind.depthAfter t.depth := by
  rw [← length_stage, ← length_stage, writes.depth, lead.kinds]

theorem Completes.run {t final : Tokenizer} {tokens : List Token} (h : t.Completes tokens final) :
    t.run.getLast? = some (.ok none, final) ∧ t.feed.pulls.map (·.token) = tokens := by
  induction h with
  | last call =>
    rw [run_of_no_token (by simp [call]), feed_of_end call, call]
    exact ⟨rfl, rfl⟩
  | @more t u tokens final token call _ ih =>
    rw [run_of_token call, feed_of_token call, List.getLast?_cons_of_ne_nil u.run_ne_nil]
    exact ⟨ih.1, congrArg (token :: ·) ih.2⟩

/-- The end is given from the first time on. -/
theorem next_after_end {t : Tokenizer} {m n : Nat} (h : (t.after m).next.1 = .ok none)
    (le : m ≤ n) : (t.after n).next.1 = .ok none := by
  induction le with
  | refl => exact h
  | step _ ih => exact congrArg Prod.fst (next_of_end (next_after ih))

/-- A run whose last call gives the end has given a token with each call before. -/
theorem completes_of_run {t final : Tokenizer} (h : t.run.getLast? = some (.ok none, final)) :
    t.Completes (t.feed.pulls.map (·.token)) final := by
  induction t using run.induct with
  | case1 t token u call ih =>
    rw [run_of_token call, List.getLast?_cons_of_ne_nil u.run_ne_nil] at h
    rw [feed_of_token call]
    exact .more call (ih h)
  | case2 t answer u other call =>
    rw [run_of_no_token (by simpa [call] using other), call] at h
    cases h
    rw [feed_of_end call]
    exact .last call

/-- A run that gives no error reads a layout, and the containers of the layout have had room. -/
theorem Completes.layout {t final : Tokenizer} {tokens : List Token}
    (h : t.Completes tokens final) :
    Layout t.options t.stage t.cursor.rest (tokens.map (·.lexeme)) final.stage ∧
      Room t.depth (tokens.map (·.lexeme)) ∧ (final.depth = 0 → final.expect = .done) := by
  induction h with
  | last call =>
    obtain ⟨lead, whole⟩ := lead_of_next call
    exact ⟨.last lead, trivial, whole⟩
  | @more t u tokens final token call _ ih =>
    obtain ⟨after, room, whole⟩ := ih
    obtain ⟨passed, ready, written, ahead, came, took⟩ := took_of_next call
    have depth : ready.depth = t.depth := by
      rw [← length_stage, ← length_stage, came.lead.kinds]
    have left : u.depth = token.kind.depthAfter t.depth := depth_of_writes came.lead took.writes
    rw [took.options, came.options] at after
    rw [ahead]
    refine ⟨.more came.lead took.writes after, ⟨fun kind opening => ?_, ?_⟩, whole⟩
    · exact depth ▸ took.room kind opening
    · rwa [left] at room

/-- A layout whose containers there is room for is read by a run. -/
theorem completes_of_layout {t : Tokenizer} {lexemes : List Lexeme} {final : Stage}
    (h : Layout t.options t.stage t.cursor.rest lexemes final) (room : Room t.depth lexemes)
    (whole : final.kinds = [] → final.expect = .done) :
    ∃ tokens u, t.Completes tokens u ∧ tokens.map (·.lexeme) = lexemes ∧ u.stage = final := by
  -- The layout shrinks while the tokenizer moves on, so the induction is over all tokenizers that hold
  -- the stage, the bytes and the options of the layout.
  generalize stage : t.stage = s at h
  generalize input : t.cursor.rest = bytes at h
  generalize options : t.options = o at h
  induction h generalizing t with
  | last lead =>
    subst stage input options
    obtain ⟨u, call, stage⟩ := next_of_last lead whole
    exact ⟨[], u, .last call, rfl, stage⟩
  | @more stage lead ready written lexeme next rest lexemes final passed writes after ih =>
    subst stage options
    obtain ⟨token, u, call, same, left, here⟩ := next_of_more passed writes after input room.1
    have options : u.options = t.options := by
      have same := t.options_next
      rwa [call] at same
    have depth : u.depth = lexeme.kind.depthAfter t.depth :=
      depth_of_writes passed (left ▸ writes)
    obtain ⟨tokens, last, completes, lexemes, final⟩ :=
      ih (by rw [depth]; exact room.2) whole left here options
    exact ⟨token :: tokens, last, .more call completes, by rw [List.map_cons, same, lexemes], final⟩

end Tokenizer

end PathFold.Json
