import PathFold.Proofs.Reduction.Document

/-! How a walk ends. Rules and their actions have no say in it: a scan that looks at the kinds of
the tokens, counts the open containers and remembers whether a name came last finds the same end,
and in case of an error the same error. -/

namespace PathFold

open PathFold.Json

variable {α : Type}

/-- What a scan looks at in a token: what it is, and where it starts. -/
structure Sight where
  kind : TokenKind
  start : Nat
  deriving DecidableEq, Repr

def Json.Token.sight (token : Token) : Sight := ⟨token.kind, token.start⟩

/-- Where a scan stands: how many containers are open, and whether a name has just come. -/
structure Place where
  depth : Nat
  named : Bool
  deriving DecidableEq, Repr

namespace Place

def start : Place := ⟨0, false⟩

/-- The error of a token that may not come here. -/
def fault? (maxDepth : Nat) (place : Place) (sight : Sight) : Option Error :=
  match sight.kind with
  | .opening _ => if place.depth = maxDepth then some (.stackOverflow maxDepth) else none
  | .closing _ =>
    if place.named then some (.malformed ⟨.expectedValue, sight.start⟩)
    else if place.depth = 0 then some .stackUnderflow
    else none
  | .propertyName => if place.named then some (.malformed ⟨.expectedValue, sight.start⟩) else none
  | .string | .number | .boolean _ | .null => none

/-- The place after a token. -/
def after (place : Place) (kind : TokenKind) : Place :=
  ⟨kind.depthAfter place.depth, kind = .propertyName⟩

/-- The error of the end if it may not come here, or the error that the source ends with. -/
def endFault? (place : Place) : Option ParseError → Option Error
  | some error => some (.malformed error)
  | none => if place.named ∨ 0 < place.depth then some (.truncatedDocument place.depth) else none

end Place

/-- The error of the first token, or of the end, that may not come where it does. -/
def verdict (maxDepth : Nat) (failure : Option ParseError) (place : Place) :
    List Sight → Option Error
  | [] => place.endFault? failure
  | sight :: sights =>
    (place.fault? maxDepth sight).or (verdict maxDepth failure (place.after sight.kind) sights)

/-- The error that a result is, if it is one. -/
def errorOf {β : Type} : Except Error β → Option Error
  | .error error => some error
  | .ok _ => none

theorem errorOf_eq_some_iff {β : Type} {result : Except Error β} {error : Error} :
    errorOf result = some error ↔ result = .error error := by
  cases result <;> simp [errorOf]

theorem errorOf_map {β γ : Type} (result : Except Error β) (f : β → γ) :
    errorOf (result.map f) = errorOf result := by
  cases result <;> rfl

namespace Path

theorem errorOf_push {path : Path} (shallow : path.depth ≤ path.limit) (frame : Frame) :
    errorOf (path.push frame) =
      if path.depth = path.limit then some (.stackOverflow path.limit) else none := by
  by_cases full : path.depth = path.limit
  · rw [if_pos full, push_of_le (Nat.le_of_eq full.symm)]
    rfl
  · rw [if_neg full, push_of_lt (Nat.lt_of_le_of_ne shallow full)]
    rfl

theorem errorOf_pop (path : Path) :
    errorOf path.pop = if path.depth = 0 then some .stackUnderflow else none := by
  unfold pop depth
  cases last : path.frames.getLast? with
  | none =>
    rw [List.getLast?_eq_none_iff.1 last]
    rfl
  | some frame =>
    have inside : path.frames.length ≠ 0 := by
      intro empty
      rw [List.length_eq_zero_iff.1 empty] at last
      cases last
    rw [if_neg inside]
    rfl

end Path

namespace Walk

def place (walk : Walk α) : Place := ⟨walk.path.depth, walk.pending.isSome⟩

theorem limit_start {maxDepth : Nat} (bounded : maxDepth ≤ Path.maxDepth) (aggregate : α) :
    (start maxDepth aggregate).path.limit = maxDepth :=
  Nat.min_eq_left bounded

/-- A token takes a walk to the place after it, whatever the rules do with it. -/
theorem Moves.place {set : RuleSet α} {walk next : Walk α} {token : Token} {fired : List Nat}
    (h : Moves set walk token next fired) (shallow : walk.path.depth ≤ walk.path.limit) :
    next.place = walk.place.after token.kind := by
  obtain ⟨-, -, depth, named⟩ := h.bounds shallow
  rw [Walk.place, depth, Bool.eq_iff_iff.2 (named.trans (decide_eq_true_iff).symm)]
  rfl

/-- A walk refuses just the tokens that may not come at its place. -/
theorem errorOf_step (set : RuleSet α) {walk : Walk α} (pull : Pull)
    (shallow : walk.path.depth ≤ walk.path.limit) :
    errorOf (walk.step set pull) = walk.place.fault? walk.path.limit pull.token.sight := by
  obtain ⟨path, aggregate, pending⟩ := walk
  obtain ⟨⟨kind, raw, start, stop, escaped⟩, depth⟩ := pull
  cases pending with
  | none =>
    refine (errorOf_map _ _).trans ?_
    cases kind with
    | opening => exact (errorOf_map _ _).trans (Path.errorOf_push shallow _)
    | closing => exact (errorOf_map _ _).trans (Path.errorOf_pop path)
    | propertyName | string | number | boolean | null => rfl
  | some name =>
    refine (errorOf_map _ _).trans ?_
    cases kind with
    | opening => exact (errorOf_map _ _).trans (Path.errorOf_push shallow _)
    | closing | propertyName | string | number | boolean | null => rfl

theorem errorOf_finish (walk : Walk α) (failure : Option ParseError) :
    errorOf (walk.finish failure) = walk.place.endFault? failure := by
  cases failure with
  | some error => rfl
  | none =>
    by_cases left : walk.pending.isSome ∨ 0 < walk.path.depth
    · have cut : walk.place.endFault? none = some (.truncatedDocument walk.path.depth) :=
        if_pos left
      rw [finish, if_pos left, cut]
      rfl
    · have whole : walk.place.endFault? none = none := if_neg left
      rw [finish, if_neg left, whole]
      rfl

/-- A run ends as a scan from its place does. -/
theorem errorOf_run (set : RuleSet α) (failure : Option ParseError) (pulls : List Pull)
    {walk : Walk α} (shallow : walk.path.depth ≤ walk.path.limit) :
    errorOf (walk.run set failure pulls).result =
      verdict walk.path.limit failure walk.place (pulls.map (·.token.sight)) := by
  -- Actions only invalidate frames, so the depth of the path stays the count of the scan.
  induction pulls generalizing walk with
  | nil => exact errorOf_finish walk failure
  | cons pull pulls ih =>
    have refused := errorOf_step set pull shallow
    rw [run, List.map_cons, verdict, ← refused]
    cases stepped : walk.step set pull with
    | error error => rfl
    | ok result =>
      obtain ⟨next, events⟩ := result
      obtain ⟨fired, moves, -⟩ := moves_of_step stepped
      obtain ⟨limit, shallow', -⟩ := moves.bounds shallow
      have later := ih shallow'
      rw [limit, moves.place shallow] at later
      exact later

end Walk

namespace Reducer

theorem errorOf_processTokens {config : Config} {initial : α} {rules : List (Rule α)}
    {reducer : Reducer α} (built : build config initial rules = .ok reducer) (feed : Feed)
    (aggregate : α) : errorOf (reducer.processTokens feed aggregate) =
      verdict config.maxDepth feed.failure .start (feed.pulls.map (·.token.sight)) := by
  obtain ⟨set, bounded, -, rfl⟩ := build_eq_ok built
  have shallow : (Walk.start config.maxDepth aggregate).path.depth ≤
      (Walk.start config.maxDepth aggregate).path.limit := Nat.zero_le _
  have scanned := Walk.errorOf_run set feed.failure feed.pulls shallow
  rwa [Walk.limit_start bounded] at scanned

/-- Whatever a source gives, how reducing it ends is what a scan of its tokens finds, and so it is
the same for any rules, actions and aggregates, and for any tokens of the same kinds that start at
the same positions. -/
theorem processTokens_verdict {config : Config} {initial : α} {rules : List (Rule α)}
    {reducer : Reducer α} (built : build config initial rules = .ok reducer) (feed : Feed)
    (aggregate : α) :
    (match verdict config.maxDepth feed.failure .start (feed.pulls.map (·.token.sight)) with
      | some error => reducer.processTokens feed aggregate = .error error
      | none => ∃ total, reducer.processTokens feed aggregate = .ok total) ∧
    ∀ (β : Type) (config' : Config) (initial' : β) (rules' : List (Rule β)) (other : Reducer β),
      build config' initial' rules' = .ok other → config'.maxDepth = config.maxDepth →
      ∀ (feed' : Feed) (aggregate' : β), feed'.failure = feed.failure →
        feed'.pulls.map (·.token.sight) = feed.pulls.map (·.token.sight) →
        errorOf (other.processTokens feed' aggregate') =
          errorOf (reducer.processTokens feed aggregate) := by
  have scanned := errorOf_processTokens built feed aggregate
  constructor
  · rw [← scanned]
    cases reducer.processTokens feed aggregate with
    | error error => rfl
    | ok total => exact ⟨total, rfl⟩
  · intro β config' initial' rules' other built' depth feed' aggregate' failure sights
    rw [errorOf_processTokens built' feed' aggregate', scanned, depth, failure, sights]

/-- An object inside the root where only one container may be open, under a rule that counts. -/
theorem processTokens_verdict_nested :
    let count : Rule Nat := ⟨[.container .object], none, none, fun _ _ _ n => ⟨n + 1, []⟩⟩
    let root : Pull := ⟨⟨.opening .object, [0x7B], 0, 1, false⟩, 1⟩
    let name : Pull := ⟨⟨.propertyName, [0x61], 1, 4, false⟩, 1⟩
    let inner : Pull := ⟨⟨.opening .object, [0x7B], 5, 6, false⟩, 2⟩
    ∃ reducer, build ⟨1, .strict⟩ 0 [count] = .ok reducer ∧
      reducer.processTokens ⟨[root, name, inner], none⟩ 7 = .error (.stackOverflow 1) := by
  intro count root name inner
  have built : build ⟨1, .strict⟩ 0 [count] = .ok _ := rfl
  exact ⟨_, built, (processTokens_verdict built ⟨[root, name, inner], none⟩ 7).1⟩

end Reducer

end PathFold
