import PathFold.Proofs.Layout.Run
import PathFold.Proofs.Layout.Tree
import PathFold.Proofs.Walk.Moves
import PathFold.Reducer.Basic

/-! Walks over lexemes. Where tokens stand does not matter to a walk over a whole document, so the
walk over the tokens of a document is one over the lexemes of its layout. -/

namespace PathFold

open PathFold.Json

/-- The token of a lexeme at no place in particular. -/
def Json.Lexeme.token (lexeme : Lexeme) : Token :=
  ⟨lexeme.kind, lexeme.raw, 0, 0, Escape.hasEscape lexeme.raw⟩

theorem Json.ne_name_of_scalar {kind : TokenKind} (h : kind.scalarKind?.isSome) :
    kind ≠ .propertyName := by
  rintro rfl
  cases h

namespace Walk

variable {α : Type}

/-- One lexeme of a walk. -/
def take (set : RuleSet α) (walk : Walk α) (lexeme : Lexeme) : Except Error (Walk α) :=
  match walk.pending with
  | none => walk.stepPlain set lexeme.token
  | some pending => (walk.stepValue set pending lexeme.token).map (·.1)

def follow (set : RuleSet α) (walk : Walk α) (lexemes : List Lexeme) : Except Error (Walk α) :=
  lexemes.foldlM (take set) walk

/-- That a token of this kind can follow: only a value can follow a name. -/
def Ready (walk : Walk α) (kind : TokenKind) : Prop :=
  walk.pending.isSome → (∃ container, kind = .opening container) ∨ kind.scalarKind?.isSome

/-- A token that can follow does what its lexeme does. -/
theorem map_step_eq_take {set : RuleSet α} {walk : Walk α} {pull : Pull}
    (escaped : pull.token.escaped = Escape.hasEscape pull.token.raw)
    (ready : walk.Ready pull.token.kind) :
    (walk.step set pull).map (·.1) = walk.take set pull.token.lexeme := by
  have plain : walk.stepPlain set pull.token.lexeme.token = walk.stepPlain set pull.token := rfl
  have scalar : Scalar.ofToken? pull.token.lexeme.token = Scalar.ofToken? pull.token := by
    rw [Scalar.ofToken?, Scalar.ofToken?, escaped]
    rfl
  unfold step take
  cases pending : walk.pending with
  | none =>
    dsimp only
    rw [plain]
    cases walk.stepPlain set pull.token <;> rfl
  | some name =>
    have value : walk.stepValue set name pull.token.lexeme.token =
        walk.stepValue set name pull.token := by
      have kind : pull.token.lexeme.token.kind = pull.token.kind := rfl
      unfold stepValue
      rw [scalar, kind]
      obtain ⟨container, opens⟩ | isScalar := ready (by rw [pending]; rfl)
      · rw [opens]
      · obtain ⟨scalarKind, known⟩ := Option.isSome_iff_exists.1 isScalar
        rw [Scalar.ofToken?, known]
        rfl
    dsimp only
    rw [value]
    cases walk.stepValue set name pull.token <;> rfl

theorem follow_cons (set : RuleSet α) (walk : Walk α) (lexeme : Lexeme) (lexemes : List Lexeme) :
    walk.follow set (lexeme :: lexemes) =
      (walk.take set lexeme).bind fun next => next.follow set lexemes :=
  List.foldlM_cons

theorem follow_append (set : RuleSet α) (walk : Walk α) (front back : List Lexeme) :
    walk.follow set (front ++ back) =
      (walk.follow set front).bind fun next => next.follow set back :=
  List.foldlM_append

/-- The result of a run, one token on. -/
theorem result_run_cons {set : RuleSet α} {failure : Option ParseError} {walk : Walk α}
    {pull : Pull} {pulls : List Pull} : (walk.run set failure (pull :: pulls)).result =
      ((walk.step set pull).map (·.1)).bind fun next => (next.run set failure pulls).result := by
  rw [run]
  cases walk.step set pull <;> rfl

/-- What a token does to the depth, and what it leaves open. -/
theorem Moves.bounds {set : RuleSet α} {walk next : Walk α} {token : Token} {fired : List Nat}
    (h : Moves set walk token next fired) (shallow : walk.path.depth ≤ walk.path.limit) :
    next.path.limit = walk.path.limit ∧ next.path.depth ≤ next.path.limit ∧
      next.path.depth = token.kind.depthAfter walk.path.depth ∧
      (next.pending.isSome ↔ token.kind = .propertyName) := by
  cases h with
  | opened kind room =>
    have length (frame : Frame) : (walk.path.frames ++ [frame]).length = walk.path.depth + 1 :=
      List.length_append
    rw [kind]
    refine ⟨rfl, ?_, length _, by simp⟩
    rw [Path.depth, length]
    exact room
  | @closed container frame outer kind plain frames =>
    have length : walk.path.depth = outer.length + 1 := by
      rw [Path.depth, frames]
      exact List.length_append
    rw [kind]
    refine ⟨rfl, ?_, ?_, by simp⟩
    · rw [length] at shallow
      exact Nat.le_of_succ_le shallow
    · rw [TokenKind.depthAfter, length]
      rfl
  | named kind =>
    rw [kind]
    exact ⟨rfl, shallow, rfl, by simp⟩
  | passed scalar plain =>
    have isScalar := Scalar.isSome_of_ofToken? scalar
    rw [depthAfter_of_scalar isScalar]
    exact ⟨rfl, shallow, rfl, by simp [plain, ne_name_of_scalar isScalar]⟩
  | offered scalar _ dispatched =>
    have isScalar := Scalar.isSome_of_ofToken? scalar
    subst dispatched
    rw [RuleSet.limit_dispatch, RuleSet.depth_dispatch, depthAfter_of_scalar isScalar]
    exact ⟨rfl, shallow, rfl, by simp [ne_name_of_scalar isScalar]⟩

theorem moves_of_take {set : RuleSet α} {walk next : Walk α} {lexeme : Lexeme}
    (h : walk.take set lexeme = .ok next) : ∃ fired, Moves set walk lexeme.token next fired := by
  unfold take at h
  cases pending : walk.pending with
  | none =>
    rw [pending] at h
    exact ⟨[], moves_of_stepPlain h pending⟩
  | some name =>
    rw [pending] at h
    obtain ⟨⟨after, fired⟩, stepped, rfl⟩ := Except.map_eq_ok_iff.1 h
    exact ⟨fired, moves_of_stepValue stepped pending⟩

end Walk

/-- After a colon comes a value. -/
theorem Json.Writes.isValue {ready next : Stage} {written : Bytes} {lexeme : Lexeme}
    (h : Writes ready written lexeme next) (value : ready.expect = .value) :
    (∃ container, lexeme.kind = .opening container) ∨ lexeme.kind.scalarKind?.isSome := by
  cases h with
  | opening container => exact .inl ⟨container, rfl⟩
  | scalar _ scalar => exact .inr scalar.scalarKind?
  | closing takes | name takes =>
    cases value
    cases takes

/-- A colon is asked for after names, and only there. -/
theorem Json.Writes.colon_iff {ready next : Stage} {written : Bytes} {lexeme : Lexeme}
    (h : Writes ready written lexeme next) :
    next.expect = .colon ↔ lexeme.kind = .propertyName := by
  have whole (kinds : List ContainerKind) : (Stage.afterValue kinds).expect ≠ .colon := by
    cases kinds <;> rintro ⟨⟩
  cases h with
  | opening kind => cases kind <;> simp [Stage.inside, Lexeme.opening]
  | closing => simp [whole, Lexeme.closing]
  | scalar _ scalar => simp [whole, ne_name_of_scalar scalar.scalarKind?]
  | name => simp [Lexeme.name]

/-- Where a colon is asked for, the next lexeme is a value. -/
theorem Json.Lead.isValue {o : Options} {Last : Bytes → Prop} {stage ready next : Stage}
    {passed written : Bytes} {lexeme : Lexeme} (lead : Lead o Last stage passed ready)
    (writes : Writes ready written lexeme next) (colon : stage.expect = .colon) :
    (∃ container, lexeme.kind = .opening container) ∨ lexeme.kind.scalarKind?.isSome := by
  cases lead with
  | gap =>
    cases writes with
    | opening _ takes | closing takes | scalar takes | name takes =>
      cases colon
      cases takes
  | colon => exact writes.isValue rfl
  | comma => cases colon

namespace Walk

variable {α : Type}

/-- The walk over what a tokenizer gives of a layout is the walk over the lexemes of the layout. -/
theorem result_run_layout {set : RuleSet α} {t : Tokenizer} {walk : Walk α} {lexemes : List Lexeme}
    {final : Stage} (h : Layout t.options t.stage t.cursor.rest lexemes final)
    (whole : final.kinds = [] → final.expect = .done) (depth : walk.path.depth = t.depth)
    (bounded : walk.path.limit ≤ Path.maxDepth) (shallow : walk.path.depth ≤ walk.path.limit)
    (named : walk.pending.isSome → t.expect = .colon) :
    (walk.run set t.feed.failure t.feed.pulls).result =
      (walk.follow set lexemes).bind (·.finish none) := by
  -- Walk and tokenizer go on together. Their depths stay the same, so the path is full before the
  -- tokenizer has no room, and a name waits only where a colon is expected.
  generalize stage : t.stage = s at h
  generalize input : t.cursor.rest = bytes at h
  generalize options : t.options = o at h
  induction h generalizing t walk with
  | last lead =>
    subst stage input options
    obtain ⟨u, call, -⟩ := Tokenizer.next_of_last lead whole
    rw [Tokenizer.feed_of_end call]
    rfl
  | @more stage lead ready written lexeme next rest lexemes final passed writes after ih =>
    subst stage options
    have room (kind : ContainerKind) (_ : lexeme.kind = .opening kind) : t.depth < 64 := by
      rw [← depth]
      exact Nat.lt_of_le_of_lt (Nat.le_trans shallow bounded) (by decide)
    obtain ⟨token, u, call, same, left, here⟩ :=
      Tokenizer.next_of_more passed writes after input room
    obtain ⟨_, _, _, _, -, took⟩ := Tokenizer.took_of_next call
    have options : u.options = t.options := by
      have same := t.options_next
      rwa [call] at same
    have ready : walk.Ready lexeme.kind := fun pending => passed.isValue writes (named pending)
    rw [← same] at ready
    rw [Tokenizer.feed_of_token call, result_run_cons, map_step_eq_take took.escaped ready, same,
      follow_cons]
    cases taken : walk.take set lexeme with
    | error error => rfl
    | ok next =>
      obtain ⟨fired, moves⟩ := moves_of_take taken
      obtain ⟨limit, shallow', depth', pending⟩ := moves.bounds shallow
      have depth' : next.path.depth = lexeme.kind.depthAfter walk.path.depth := depth'
      have deeper : u.depth = lexeme.kind.depthAfter t.depth :=
        Tokenizer.depth_of_writes passed (left ▸ writes)
      refine ih whole ?_ ?_ shallow' (fun some => ?_) left here options
      · rw [depth', deeper, depth]
      · rw [limit]
        exact bounded
      · have colon := writes.colon_iff.2 (pending.1 some)
        rw [← left] at colon
        exact colon

/-- The walk over the tokens of a document is the walk over its lexemes. -/
theorem result_run_feed {set : RuleSet α} {t : Tokenizer} {walk : Walk α} {lexemes : List Lexeme}
    (h : Layout t.options t.stage t.cursor.rest lexemes .done)
    (depth : walk.path.depth = t.depth) (bounded : walk.path.limit ≤ Path.maxDepth)
    (shallow : walk.path.depth ≤ walk.path.limit)
    (named : walk.pending.isSome → t.expect = .colon) :
    (walk.run set t.feed.failure t.feed.pulls).result =
      (walk.follow set lexemes).bind (·.finish none) :=
  result_run_layout h (fun _ => rfl) depth bounded shallow named

end Walk

end PathFold
