import PathFold.Proofs.Reduction.Lexemes
import PathFold.Proofs.Reduction.TreeFold

/-! Reducing a document folds its parse tree. The walk over the lexemes of a tree comes to the fold
of the tree, unless the tree nests deeper than the path may be long. -/

namespace PathFold

open PathFold.Json

variable {α : Type}

namespace Walk

/-- A walk with nothing but a fold's state, before a value that stands under a name or under none.
-/
def ofFold (set : RuleSet α) (limit : Nat) (name : Option Bytes) (state : Fold α) : Walk α :=
  ⟨⟨state.frames, limit⟩, state.aggregate, name.map fun name => ⟨name, set.symbols.encode name⟩⟩

theorem take_opening (set : RuleSet α) (limit : Nat) (name : Option Bytes) (state : Fold α)
    (kind : ContainerKind) : (ofFold set limit name state).take set (.opening kind) =
      if limit ≤ state.frames.length then .error (.stackOverflow limit)
      else .ok (ofFold set limit none (state.enter kind (set.symbolOf name))) := by
  have pushed : (ofFold set limit name state).take set (.opening kind) =
      (Path.push ⟨state.frames, limit⟩ ⟨kind, set.symbolOf name, true⟩).map
        (⟨·, state.aggregate, none⟩) := by
    cases name with
    | none => rfl
    | some name => exact Except.map_map ..
  rw [pushed, Path.push, Path.depth]
  split <;> rfl

theorem take_closing (set : RuleSet α) (limit : Nat) {state : Fold α} (kind : ContainerKind)
    (inside : 0 < state.frames.length) :
    (ofFold set limit none state).take set (.closing kind) =
      .ok (ofFold set limit none state.leave) := by
  change (Path.pop ⟨state.frames, limit⟩).map _ = _
  cases last : state.frames.getLast? with
  | none => simp [List.getLast?_eq_none_iff.1 last] at inside
  | some frame =>
    rw [Path.pop, last]
    rfl

/-- Dispatching a scalar leaves the state that offering it to all rules comes to. -/
theorem ofFold_dispatch {set : RuleSet α} (filed : set.Filed) (limit : Nat) (state : Fold α)
    (property : Property) :
    let firing := set.dispatch property ⟨state.frames, limit⟩ state.aggregate
    (⟨firing.path, firing.aggregate, none⟩ : Walk α) = ofFold set limit none
      (set.rules.foldl (Fold.offer property.scalar property.name property.symbol) state) := by
  intro firing
  have folded := Fold.ofFiring_dispatch filed property ⟨state.frames, limit⟩ state.aggregate
  have bounded : firing.path.limit = limit := set.limit_dispatch property ⟨state.frames, limit⟩ _
  have path : firing.path = ⟨(Fold.ofFiring firing).frames, limit⟩ := by
    rw [← bounded]
    rfl
  rw [ofFold, ← folded, path]
  rfl

theorem take_scalar {set : RuleSet α} (filed : set.Filed) (limit : Nat) (name : Option Bytes)
    (state : Fold α) {lexeme : Lexeme} (scalar : lexeme.kind.scalarKind?.isSome) :
    (ofFold set limit name state).take set lexeme =
      .ok (ofFold set limit none (state.scalar set name lexeme)) := by
  obtain ⟨kind, raw⟩ := lexeme
  cases name with
  | none => cases kind <;> first | rfl | cases scalar
  | some name =>
    have dispatched (kind : ScalarKind) := ofFold_dispatch filed limit state
      ⟨.ofRaw kind raw, name, set.symbols.encode name⟩
    cases kind with
    | string => exact congrArg Except.ok (dispatched .string)
    | number => exact congrArg Except.ok (dispatched .number)
    | boolean => exact congrArg Except.ok (dispatched .bool)
    | null => exact congrArg Except.ok (dispatched .null)
    | opening | closing | propertyName => cases scalar

mutual

/-- The walk over the lexemes of a tree comes to the fold of the tree, or finds the path too short.
-/
theorem follow_tree {set : RuleSet α} (filed : set.Filed) {limit : Nat} (name : Option Bytes)
    (state : Fold α) (tree : Tree) (proper : tree.Proper) (shallow : state.frames.length ≤ limit) :
    (ofFold set limit name state).follow set tree.lexemes =
      if limit < state.frames.length + tree.height then .error (.stackOverflow limit)
      else .ok (ofFold set limit none (state.tree set name tree)) := by
  cases tree with
  | scalar lexeme =>
    rw [Json.Tree.height, Nat.add_zero, if_neg (Nat.not_lt_of_le shallow), Json.Tree.lexemes,
      follow_cons, take_scalar filed limit name state proper]
    rfl
  | container kind entries =>
    rw [Json.Tree.lexemes, follow_cons, take_opening, Json.Tree.height, Fold.tree]
    -- Either the path is too short for this container, or all that is left are its entries.
    by_cases full : limit ≤ state.frames.length
    · rw [if_pos full, if_pos (by omega)]
      rfl
    · have length : (state.enter kind (set.symbolOf name)).frames.length =
          state.frames.length + 1 := List.length_append
      have shallow' : (state.enter kind (set.symbolOf name)).frames.length ≤ limit := by omega
      have inner := follow_entries filed (state.enter kind (set.symbolOf name)) entries kind proper
        shallow'
      have open' :
          0 < ((state.enter kind (set.symbolOf name)).entries set entries).frames.length := by
        rw [Fold.length_entries, length]
        exact Nat.succ_pos _
      have closed := take_closing set limit kind open'
      have same : state.frames.length + (entries.height + 1) =
          (state.enter kind (set.symbolOf name)).frames.length + entries.height := by omega
      rw [if_neg full, Except.bind, follow_append, inner, same]
      split
      · rfl
      · rw [Except.bind, follow_cons, closed]
        rfl

/-- The walk over the lexemes of entries comes to the fold of the entries, or finds the path too
short. -/
theorem follow_entries {set : RuleSet α} (filed : set.Filed) {limit : Nat} (state : Fold α)
    (entries : Entries) (kind : ContainerKind) (proper : entries.Proper kind)
    (shallow : state.frames.length ≤ limit) :
    (ofFold set limit none state).follow set entries.lexemes =
      if limit < state.frames.length + entries.height then .error (.stackOverflow limit)
      else .ok (ofFold set limit none (state.entries set entries)) := by
  cases entries with
  | nil =>
    rw [Json.Entries.height, Nat.add_zero, if_neg (Nat.not_lt_of_le shallow)]
    rfl
  | cons name value rest =>
    obtain ⟨-, first, proper⟩ := proper
    have named : (ofFold set limit none state).follow set (name.toList.map .name) =
        .ok (ofFold set limit name state) := by
      cases name <;> rfl
    have length := Fold.length_tree set name state value
    have shallow' : (state.tree set name value).frames.length ≤ limit := by rwa [length]
    have value' := follow_tree filed name state value first shallow
    have rest' := follow_entries filed (state.tree set name value) rest kind proper shallow'
    rw [length] at rest'
    rw [Json.Entries.lexemes, Json.Entries.height, follow_append, named, Except.bind, follow_append,
      value', Fold.entries]
    by_cases deep : limit < state.frames.length + value.height
    · rw [if_pos deep, if_pos (by omega)]
      rfl
    · have same : limit < state.frames.length + rest.height ↔
          limit < state.frames.length + max value.height rest.height := by omega
      rw [if_neg deep, Except.bind, rest']
      simp only [same]

end

end Walk

/-- What building a reducer has done. -/
theorem Reducer.build_eq_ok {config : Config} {initial : α} {rules : List (Rule α)}
    {reducer : Reducer α} (h : Reducer.build config initial rules = .ok reducer) :
    ∃ set, config.maxDepth ≤ Path.maxDepth ∧ RuleSet.compile rules config.maxDepth = .ok set ∧
      reducer = ⟨set, initial, config⟩ := by
  unfold build at h
  cases valid : config.validate with
  | error error =>
    rw [valid] at h
    cases h
  | ok =>
    cases compiled : RuleSet.compile rules config.maxDepth with
    | error error =>
      rw [valid, compiled] at h
      cases h
    | ok set =>
      rw [valid, compiled] at h
      cases h
      refine ⟨set, ?_, rfl, rfl⟩
      unfold Config.validate at valid
      split at valid
      · cases valid
      · omega

/-- Reducing a document folds its parse tree, unless more containers nest than the settings allow.
-/
theorem Reducer.processWith_eq_fold {config : Config} {initial : α} {rules : List (Rule α)}
    {reducer : Reducer α} (built : Reducer.build config initial rules = .ok reducer)
    {document : Bytes} {tree : Json.Tree} (written : IsDocument config.options tree document)
    (aggregate : α) : reducer.processWith document aggregate =
      if config.maxDepth < tree.height then .error (.stackOverflow config.maxDepth)
      else .ok (Fold.tree reducer.rules none ⟨[], aggregate⟩ tree).aggregate := by
  obtain ⟨set, bounded, compiled, rfl⟩ := build_eq_ok built
  have filed := RuleSet.filed_of_compile compiled
  have start : Walk.start config.maxDepth aggregate =
      Walk.ofFold set config.maxDepth none ⟨[], aggregate⟩ := by
    rw [Walk.start, Path.empty, Nat.min_eq_left bounded]
    rfl
  let t := Tokenizer.start config.options document
  have layout : Layout t.options t.stage t.cursor.rest tree.lexemes .done := written.layout
  let walk := Walk.ofFold set config.maxDepth none ⟨[], aggregate⟩
  have walked : (walk.run set t.feed.failure t.feed.pulls).result = _ :=
    Walk.result_run_feed layout rfl bounded (Nat.zero_le _) (by rintro ⟨⟩)
  have folded : walk.follow set tree.lexemes = _ :=
    Walk.follow_tree filed none ⟨[], aggregate⟩ tree written.proper (Nat.zero_le _)
  have outside : (Fold.tree set none ⟨[], aggregate⟩ tree).frames.length = 0 :=
    Fold.length_tree set none ⟨[], aggregate⟩ tree
  change ((Walk.start config.maxDepth aggregate).run set t.feed.failure t.feed.pulls).result = _
  rw [start, walked, folded, List.length_nil, Nat.zero_add]
  split
  · rfl
  · refine if_neg ?_
    rintro (pending | deep)
    · cases pending
    · exact absurd deep (Nat.not_lt_of_le (Nat.le_of_eq outside))

/-- The object `{"a":0,"a":0}`, under a rule that counts the members of that name and invalidates the
object at the first. -/
theorem Reducer.processWith_eq_fold_counting :
    let count : Rule Nat := ⟨[.container .object], some [0x61], none,
      fun _ _ view n => ⟨n + 1, view.invalidateParent.2.requests⟩⟩
    ∃ reducer, Reducer.build .strict 0 [count] = .ok reducer ∧
      reducer.processWith [0x7B, 0x22, 0x61, 0x22, 0x3A, 0x30, 0x2C, 0x22, 0x61, 0x22, 0x3A, 0x30,
        0x7D] 5 = .ok 6 := by
  intro count
  have zero : IsNumeral [0x30] := ⟨[], [0x30], [], [], .inl rfl, .inl rfl, .inl rfl, .inl rfl, rfl⟩
  have name : IsContents [0x61] := .plain (by decide) (by decide) (by decide) .nil
  have member : IsEntry .strict .object (some [0x61]) (.scalar ⟨.number, [0x30]⟩) _ :=
    .member .nil name .nil .nil (.scalar (.number zero))
  have written : IsDocument .strict _ _ :=
    .intro .nil (.filled member (.cons .nil member .nil) (.plain .nil)) (.closed .nil)
  have built : Reducer.build .strict 0 [count] = .ok _ := rfl
  have folded := processWith_eq_fold built written 5
  exact ⟨_, built, folded.trans (by rfl)⟩

end PathFold
