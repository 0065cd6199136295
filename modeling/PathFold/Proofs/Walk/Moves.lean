import PathFold.Except
import PathFold.Reducer.Walk

/-! What tokens do to a walk: the moves that one token can make, and stretches of a run. -/

namespace PathFold

open PathFold.Json (ContainerKind ParseError Pull Scalar)

variable {α : Type}

namespace Walk

/-- The symbol of a container that opens now: that of the name that waits for it, if one does. -/
def symbolAhead (walk : Walk α) : Symbol := (walk.pending.map (·.symbol)).getD .wildcard

/-- What a token that is not refused does, with the rules that fire on it. -/
inductive Moves (set : RuleSet α) (walk : Walk α) (token : Json.Token) :
    Walk α → List Nat → Prop
  | opened {container : ContainerKind} : token.kind = .opening container →
      walk.path.depth < walk.path.limit →
      Moves set walk token
        ⟨⟨walk.path.frames ++ [.named container walk.symbolAhead], walk.path.limit⟩,
          walk.aggregate, none⟩ []
  | closed {container : ContainerKind} {frame : Frame} {outer : List Frame} :
      token.kind = .closing container → walk.pending = none →
      walk.path.frames = outer ++ [frame] →
      Moves set walk token ⟨⟨outer, walk.path.limit⟩, walk.aggregate, none⟩ []
  | named : token.kind = .propertyName → walk.pending = none →
      Moves set walk token
        { walk with pending := some ⟨token.raw, set.symbols.encode token.raw⟩ } []
  | passed {scalar : Scalar} : Scalar.ofToken? token = some scalar → walk.pending = none →
      Moves set walk token walk []
  | offered {pending : Pending} {scalar : Scalar} {firing : Firing α} :
      Scalar.ofToken? token = some scalar → walk.pending = some pending →
      set.dispatch ⟨scalar, pending.name, pending.symbol⟩ walk.path walk.aggregate = firing →
      Moves set walk token ⟨firing.path, firing.aggregate, none⟩ firing.fired

/-- What makes the path shorter closes its innermost container and leaves the rest. -/
theorem Moves.closes {set : RuleSet α} {walk next : Walk α} {token : Json.Token}
    {fired : List Nat} (h : Moves set walk token next fired) (shorter : next.path.depth < walk.path.depth) :
    ∃ frame, walk.path.frames = next.path.frames ++ [frame] ∧
      next = ⟨⟨next.path.frames, walk.path.limit⟩, walk.aggregate, none⟩ := by
  cases h with
  | opened =>
    simp only [Path.depth, List.length_append, List.length_singleton] at shorter
    omega
  | closed _ _ frames => exact ⟨_, frames, rfl⟩
  | named | passed => exact absurd shorter (Nat.lt_irrefl _)
  | offered _ _ dispatched =>
    subst dispatched
    rw [RuleSet.depth_dispatch] at shorter
    exact absurd shorter (Nat.lt_irrefl _)

/-- What makes the path longer adds an active frame. -/
theorem Moves.opens {set : RuleSet α} {walk next : Walk α} {token : Json.Token}
    {fired : List Nat} (h : Moves set walk token next fired) (longer : walk.path.depth < next.path.depth) :
    ∃ frame, next.path.frames = walk.path.frames ++ [frame] ∧ frame.active = true := by
  cases h with
  | opened => exact ⟨_, rfl, rfl⟩
  | closed _ _ frames =>
    simp only [Path.depth, frames, List.length_append, List.length_singleton] at longer
    omega
  | named | passed => exact absurd longer (Nat.lt_irrefl _)
  | offered _ _ dispatched =>
    subst dispatched
    rw [RuleSet.depth_dispatch] at longer
    exact absurd longer (Nat.lt_irrefl _)

theorem moves_of_stepPlain {set : RuleSet α} {walk next : Walk α} {token : Json.Token}
    (h : walk.stepPlain set token = .ok next) (plain : walk.pending = none) :
    Moves set walk token next [] := by
  obtain ⟨path, aggregate, pending⟩ := walk
  obtain ⟨kind, raw, start, stop, escaped⟩ := token
  cases plain
  cases kind with
  | opening container =>
    obtain ⟨inner, pushed, rfl⟩ := Except.map_eq_ok_iff.1 h
    obtain ⟨room, rfl⟩ := Path.push_eq_ok pushed
    exact .opened rfl room
  | closing container =>
    obtain ⟨⟨frame, outer, limit⟩, popped, rfl⟩ := Except.map_eq_ok_iff.1 h
    obtain ⟨frames, rfl⟩ := Path.pop_eq_ok popped
    exact .closed rfl rfl frames
  | propertyName =>
    cases h
    exact .named rfl rfl
  | string | number | boolean | null =>
    cases h
    exact .passed rfl rfl

/-- A scalar under a name is offered to the rules. -/
theorem stepValue_of_scalar {set : RuleSet α} {walk : Walk α} {pending : Pending}
    {token : Json.Token} {scalar : Scalar} (h : Scalar.ofToken? token = some scalar) :
    let firing := set.dispatch ⟨scalar, pending.name, pending.symbol⟩ walk.path walk.aggregate
    walk.stepValue set pending token =
      .ok (⟨firing.path, firing.aggregate, none⟩, firing.fired) := by
  obtain ⟨kind, raw, start, stop, escaped⟩ := token
  cases kind with
  | opening | closing | propertyName => cases h
  | string | number | boolean | null =>
    cases h
    rfl

theorem moves_of_stepValue {set : RuleSet α} {walk next : Walk α} {pending : Pending}
    {token : Json.Token} {fired : List Nat}
    (h : walk.stepValue set pending token = .ok (next, fired))
    (named : walk.pending = some pending) : Moves set walk token next fired := by
  obtain ⟨kind, raw, start, stop, escaped⟩ := token
  cases kind with
  | opening container =>
    obtain ⟨inner, pushed, same⟩ := Except.map_eq_ok_iff.1 h
    cases same
    obtain ⟨room, rfl⟩ := Path.push_eq_ok pushed
    have symbol : walk.symbolAhead = pending.symbol := by
      rw [symbolAhead, named]
      rfl
    rw [← symbol]
    exact .opened rfl room
  | closing | propertyName => cases h
  | string | number | boolean | null =>
    cases h
    exact .offered rfl named rfl

/-- What a token has done to a walk that has not refused it. -/
theorem moves_of_step {set : RuleSet α} {walk next : Walk α} {pull : Pull} {events : List Event}
    (h : walk.step set pull = .ok (next, events)) :
    ∃ fired, Moves set walk pull.token next fired ∧
      events = fired.map .fired ++ [.token pull.token.kind pull.depth next.path.frames] := by
  unfold step at h
  cases pending : walk.pending with
  | none =>
    rw [pending] at h
    obtain ⟨after, stepped, same⟩ := Except.map_eq_ok_iff.1 h
    cases same
    exact ⟨[], moves_of_stepPlain stepped pending, rfl⟩
  | some name =>
    rw [pending] at h
    obtain ⟨⟨after, fired⟩, stepped, same⟩ := Except.map_eq_ok_iff.1 h
    cases same
    exact ⟨fired, moves_of_stepValue stepped pending, rfl⟩

/-- A stretch of a run: the tokens of it, the walk before and after, and the events. No fewer than
`floor` containers are open after any of its tokens. -/
inductive Stretch (set : RuleSet α) (floor : Nat) :
    Walk α → List Pull → Walk α → List Event → Prop
  | nil {walk} : Stretch set floor walk [] walk []
  | cons {walk next last pull pulls events more} : walk.step set pull = .ok (next, events) →
      floor ≤ next.path.depth → Stretch set floor next pulls last more →
      Stretch set floor walk (pull :: pulls) last (events ++ more)

/-- A run goes on from the end of a stretch. -/
theorem Stretch.result_run {set : RuleSet α} {floor : Nat} {walk last : Walk α} {front : List Pull}
    {events : List Event} (h : Stretch set floor walk front last events)
    (failure : Option ParseError) (back : List Pull) :
    (walk.run set failure (front ++ back)).result = (last.run set failure back).result := by
  induction h with
  | nil => rfl
  | cons step _ _ ih => rw [List.cons_append, run, step, ih]

end Walk

end PathFold
