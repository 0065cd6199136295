import PathFold.Proofs.Walk.Moves
import PathFold.Reducer.Basic

/-! Invalidation is contained. While a frame that has been invalidated is open no action runs, so
all that the tokens inside it can do is open and close containers above it; what they are makes no
difference to what comes after the frame has been closed. -/

namespace PathFold

open PathFold.Json (ParseError Pull Scalar)

variable {α : Type}

/-- Whether there is a frame at `index` and it has been invalidated. -/
def Path.Invalidated (path : Path) (index : Nat) : Prop :=
  ∃ frame, path.frames[index]? = some frame ∧ frame.active = false

theorem Path.Invalidated.lt_depth {path : Path} {index : Nat} (h : path.Invalidated index) :
    index < path.depth := by
  obtain ⟨frame, here, -⟩ := h
  exact (List.getElem?_eq_some_iff.1 here).1

/-- Whether a frame is invalidated shows in the frames up to it. -/
theorem Path.Invalidated.of_take {path other : Path} {index : Nat} (h : path.Invalidated index)
    (same : other.frames.take (index + 1) = path.frames.take (index + 1)) :
    other.Invalidated index := by
  obtain ⟨frame, here, inactive⟩ := h
  refine ⟨frame, ?_, inactive⟩
  have read (frames : List Frame) : (frames.take (index + 1))[index]? = frames[index]? :=
    List.getElem?_take_of_lt (Nat.lt_succ_self index)
  rw [← read, same, read, here]

namespace RuleSet

/-- Inside an invalidated frame no rule fires. -/
theorem tryRule_of_invalidated (set : RuleSet α) (property : Property) {firing : Firing α}
    {index : Nat} (h : firing.path.Invalidated index) (rule : Nat) :
    set.tryRule property firing rule = firing := by
  obtain ⟨frame, here, inactive⟩ := h
  unfold tryRule
  split
  · rfl
  · refine if_neg fun accepts => ?_
    have fits := (Bool.and_eq_true_iff.1 accepts).2
    have active := Frame.active_of_allFit fits frame (List.mem_of_getElem? here)
    rw [inactive] at active
    cases active

theorem foldl_tryRule_of_invalidated (set : RuleSet α) (property : Property) {firing : Firing α}
    {index : Nat} (h : firing.path.Invalidated index) (rules : List Nat) :
    rules.foldl (set.tryRule property) firing = firing := by
  induction rules with
  | nil => rfl
  | cons rule rules ih => rw [List.foldl_cons, tryRule_of_invalidated set property h, ih]

theorem dispatch_of_invalidated (set : RuleSet α) (property : Property) {path : Path} {index : Nat}
    (h : path.Invalidated index) (aggregate : α) :
    set.dispatch property path aggregate = ⟨path, aggregate, []⟩ :=
  foldl_tryRule_of_invalidated set property h _

end RuleSet

namespace Walk

/-- What an invalidated frame that stays open keeps: the aggregate, and the frames up to it. -/
structure Holds (index : Nat) (walk next : Walk α) : Prop where
  aggregate : next.aggregate = walk.aggregate
  frames : next.path.frames.take (index + 1) = walk.path.frames.take (index + 1)
  limit : next.path.limit = walk.path.limit

theorem Holds.refl (index : Nat) (walk : Walk α) : Holds index walk walk := ⟨rfl, rfl, rfl⟩

theorem Holds.trans {index : Nat} {walk next last : Walk α} (first : Holds index walk next)
    (second : Holds index next last) : Holds index walk last :=
  ⟨second.aggregate.trans first.aggregate, second.frames.trans first.frames,
    second.limit.trans first.limit⟩

/-- Inside an invalidated frame, and when it is closed, a token fires no rule. -/
theorem Moves.quiet {set : RuleSet α} {walk next : Walk α} {token : Json.Token}
    {fired : List Nat} (h : Moves set walk token next fired) {index : Nat}
    (invalidated : walk.path.Invalidated index) : fired = [] := by
  cases h with
  | opened | closed | named | passed => rfl
  | offered _ _ dispatched =>
    rw [RuleSet.dispatch_of_invalidated set _ invalidated] at dispatched
    rw [← dispatched]

/-- A token that does not close an invalidated frame leaves the frames up to it. -/
theorem Moves.holds {set : RuleSet α} {walk next : Walk α} {token : Json.Token}
    {fired : List Nat} (h : Moves set walk token next fired) {index : Nat}
    (invalidated : walk.path.Invalidated index) (stays : index < next.path.depth) :
    Holds index walk next := by
  cases h with
  | opened =>
    refine ⟨rfl, ?_, rfl⟩
    exact List.take_append_of_le_length invalidated.lt_depth
  | closed _ _ frames =>
    refine ⟨rfl, ?_, rfl⟩
    rw [frames]
    exact (List.take_append_of_le_length stays).symm
  | named | passed => exact ⟨rfl, rfl, rfl⟩
  | offered _ _ dispatched =>
    rw [RuleSet.dispatch_of_invalidated set _ invalidated] at dispatched
    subst dispatched
    exact ⟨rfl, rfl, rfl⟩

/-- Whatever token comes next to a walk inside an invalidated frame, no rule fires on it. -/
theorem quiet_of_step {set : RuleSet α} {walk next : Walk α} {pull : Pull} {events : List Event}
    (h : walk.step set pull = .ok (next, events)) {index : Nat}
    (invalidated : walk.path.Invalidated index) (rule : Nat) : .fired rule ∉ events := by
  obtain ⟨fired, moves, rfl⟩ := moves_of_step h
  rw [moves.quiet invalidated]
  simp

/-- While an invalidated frame is open no rule fires and the frames up to it stay as they are. -/
theorem Stretch.holds {set : RuleSet α} {index : Nat} {walk last : Walk α} {pulls : List Pull}
    {events : List Event} (h : Stretch set (index + 1) walk pulls last events)
    (invalidated : walk.path.Invalidated index) :
    (∀ rule, .fired rule ∉ events) ∧ Holds index walk last := by
  -- The frame stays invalidated since the frames up to it do not change.
  induction h with
  | nil => exact ⟨fun _ => List.not_mem_nil, .refl index _⟩
  | cons step stays _ ih =>
    obtain ⟨fired, moves, -⟩ := moves_of_step step
    have first := moves.holds invalidated stays
    obtain ⟨quiet, others⟩ := ih (invalidated.of_take first.frames)
    refine ⟨fun rule mem => ?_, first.trans others⟩
    rcases List.mem_append.1 mem with now | later
    · exact quiet_of_step step invalidated rule now
    · exact quiet rule later

/-- Tokens inside the frame at `index`, and then the token that closes it. -/
def Leaves (set : RuleSet α) (index : Nat) (walk : Walk α) (inside : List Pull) (closing : Pull)
    (out : Walk α) : Prop :=
  ∃ last events more, Stretch set (index + 1) walk inside last events ∧
    last.step set closing = .ok (out, more) ∧ out.path.depth = index

theorem Leaves.result_run {set : RuleSet α} {index : Nat} {walk out : Walk α} {inside : List Pull}
    {closing : Pull} (h : Leaves set index walk inside closing out) (failure : Option ParseError)
    (back : List Pull) : (walk.run set failure (inside ++ closing :: back)).result =
      (out.run set failure back).result := by
  obtain ⟨last, events, more, stretch, step, -⟩ := h
  rw [stretch.result_run, run, step]

theorem Stretch.floor_le {set : RuleSet α} {floor : Nat} {walk last : Walk α} {pulls : List Pull}
    {events : List Event} (h : Stretch set floor walk pulls last events)
    (start : floor ≤ walk.path.depth) : floor ≤ last.path.depth := by
  induction h with
  | nil => exact start
  | cons _ stays _ ih => exact ih stays

/-- Where a walk is once an invalidated frame has been closed does not depend on what was inside. -/
theorem Leaves.eq {set : RuleSet α} {index : Nat} {walk out : Walk α} {inside : List Pull}
    {closing : Pull} (h : Leaves set index walk inside closing out)
    (invalidated : walk.path.Invalidated index) :
    out = ⟨⟨walk.path.frames.take index, walk.path.limit⟩, walk.aggregate, none⟩ := by
  obtain ⟨last, events, more, stretch, step, depth⟩ := h
  have deep : index < last.path.depth := stretch.floor_le invalidated.lt_depth
  have held := (stretch.holds invalidated).2
  obtain ⟨fired, moves, -⟩ := moves_of_step step
  obtain ⟨frame, frames, whole⟩ := moves.closes (depth ▸ deep)
  -- What is left of the path is what was below the frame, and that has been kept.
  have outer : out.path.frames = walk.path.frames.take index := by
    have kept := congrArg (List.take index) held.frames
    rw [List.take_take, List.take_take, Nat.min_eq_left (Nat.le_succ index), frames] at kept
    rw [← kept, ← depth]
    exact (List.take_left ..).symm
  rw [whole, outer, held.limit, held.aggregate]

end Walk

namespace Reducer

/-- A point of a run between two action calls: tokens have been walked, the scalar of a property has
come next, and some of the rules of its depth have been tried. -/
structure Between (reducer : Reducer α) (aggregate : α) (front : List Pull) (walk : Walk α)
    (pull : Pull) (firing : Firing α) : Prop where
  reached : ∃ seen,
    Walk.Stretch reducer.rules 0 (.start reducer.config.maxDepth aggregate) front walk seen
  tried : ∃ pending scalar tried rest, walk.pending = some pending ∧
    Scalar.ofToken? pull.token = some scalar ∧
    reducer.rules.candidates walk.path.depth = tried ++ rest ∧
    tried.foldl (reducer.rules.tryRule ⟨scalar, pending.name, pending.symbol⟩)
      ⟨walk.path, walk.aggregate, []⟩ = firing

/-- The walk goes on after the scalar with what the rules tried so far have left: the others do not
fire. -/
theorem Between.step {reducer : Reducer α} {aggregate : α} {front : List Pull} {walk : Walk α}
    {pull : Pull} {firing : Firing α} (h : reducer.Between aggregate front walk pull firing)
    {index : Nat} (invalidated : firing.path.Invalidated index) :
    walk.step reducer.rules pull = .ok (⟨firing.path, firing.aggregate, none⟩,
      firing.fired.map .fired ++ [.token pull.token.kind pull.depth firing.path.frames]) := by
  obtain ⟨pending, scalar, tried, rest, named, isScalar, order, fired⟩ := h.tried
  have dispatched : reducer.rules.dispatch ⟨scalar, pending.name, pending.symbol⟩ walk.path
      walk.aggregate = firing := by
    rw [RuleSet.dispatch, order, List.foldl_append, fired]
    exact RuleSet.foldl_tryRule_of_invalidated _ _ invalidated rest
  have offered : walk.stepValue reducer.rules pending pull.token =
      .ok (⟨firing.path, firing.aggregate, none⟩, firing.fired) := by
    rw [Walk.stepValue_of_scalar isScalar, dispatched]
  rw [Walk.step, named]
  dsimp only
  rw [offered]
  rfl

/-- Whatever is inside an invalidated frame, a run ends as the walk from its end does. -/
theorem Between.processTokens {reducer : Reducer α} {aggregate : α} {front : List Pull}
    {walk : Walk α} {pull : Pull} {firing : Firing α}
    (h : reducer.Between aggregate front walk pull firing) {index : Nat}
    (invalidated : firing.path.Invalidated index) {inside : List Pull} {closing : Pull}
    {out : Walk α} (leaves : Walk.Leaves reducer.rules index ⟨firing.path, firing.aggregate, none⟩
      inside closing out) (back : List Pull) (failure : Option ParseError) :
    reducer.processTokens ⟨front ++ pull :: (inside ++ closing :: back), failure⟩ aggregate =
      (Walk.run reducer.rules failure
        ⟨⟨firing.path.frames.take index, firing.path.limit⟩, firing.aggregate, none⟩
        back).result := by
  obtain ⟨seen, reached⟩ := h.reached
  have there := reached.result_run failure (pull :: (inside ++ closing :: back))
  rw [Walk.run, h.step invalidated] at there
  have skipped := leaves.result_run failure back
  rw [leaves.eq invalidated] at skipped
  exact there.trans skipped

/-- Invalidation is contained. Take a point between two action calls at which the frame at `index`
is invalidated. From there on no rule fires until that frame is closed, so that the aggregate and
the frames up to it stay; the result of the run does not depend on the tokens in between; and once
it is closed the frames around it are as they were, and a container in its place is active. -/
theorem invalidation_contained {reducer : Reducer α} {aggregate : α} {front : List Pull}
    {walk : Walk α} {pull : Pull} {firing : Firing α}
    (point : reducer.Between aggregate front walk pull firing) {index : Nat}
    (invalidated : firing.path.Invalidated index) :
    let after : Walk α := ⟨firing.path, firing.aggregate, none⟩
    walk.step reducer.rules pull = .ok (after, firing.fired.map .fired ++
      [.token pull.token.kind pull.depth firing.path.frames]) ∧
    (∀ inside last events, Walk.Stretch reducer.rules (index + 1) after inside last events →
      (∀ rule, .fired rule ∉ events) ∧ last.aggregate = firing.aggregate ∧
        last.path.frames.take (index + 1) = firing.path.frames.take (index + 1) ∧
        ∀ token next more, last.step reducer.rules token = .ok (next, more) →
          ∀ rule, .fired rule ∉ more) ∧
    (∀ inside inside' closing back failure out out',
      after.Leaves reducer.rules index inside closing out →
      after.Leaves reducer.rules index inside' closing out' →
      reducer.processTokens ⟨front ++ pull :: (inside ++ closing :: back), failure⟩ aggregate =
        reducer.processTokens ⟨front ++ pull :: (inside' ++ closing :: back), failure⟩ aggregate) ∧
    (∀ inside closing out, after.Leaves reducer.rules index inside closing out →
      out.aggregate = firing.aggregate ∧ out.path.frames = firing.path.frames.take index ∧
      ∀ later mid events opening next more,
        Walk.Stretch reducer.rules 0 out later mid events → mid.path.depth = index →
        mid.step reducer.rules opening = .ok (next, more) → next.path.depth = index + 1 →
        ∃ frame, next.path.frames[index]? = some frame ∧ frame.active = true) := by
  intro after
  refine ⟨point.step invalidated, ?_, ?_, ?_⟩
  · intro inside last events stretch
    obtain ⟨quiet, held⟩ := stretch.holds invalidated
    refine ⟨quiet, held.aggregate, held.frames, ?_⟩
    intro token next more step
    exact Walk.quiet_of_step step (invalidated.of_take held.frames)
  · intro inside inside' closing back failure out out' leaves leaves'
    rw [point.processTokens invalidated leaves, point.processTokens invalidated leaves']
  · intro inside closing out leaves
    have closed := leaves.eq invalidated
    refine ⟨by rw [closed], by rw [closed], ?_⟩
    intro later mid events opening next more _ depth step opens
    obtain ⟨fired, moves, -⟩ := Walk.moves_of_step step
    obtain ⟨frame, frames, active⟩ := moves.opens (by omega)
    refine ⟨frame, ?_, active⟩
    rw [frames, ← depth]
    exact List.getElem?_concat_length

/-- A rule that counts the members of the root and invalidates it counts the first alone, so that a
second makes no difference. -/
theorem invalidation_contained_second :
    let first : Rule Nat := ⟨[.container .object], none, none, fun _ _ _ n => ⟨n + 1, [0]⟩⟩
    let opening : Pull := ⟨⟨.opening .object, [0x7B], 0, 1, false⟩, 1⟩
    let name : Pull := ⟨⟨.propertyName, [0x61], 1, 4, false⟩, 1⟩
    let zero : Pull := ⟨⟨.number, [0x30], 5, 6, false⟩, 1⟩
    let closing : Pull := ⟨⟨.closing .object, [0x7D], 6, 7, false⟩, 0⟩
    ∃ reducer, build .strict 0 [first] = .ok reducer ∧
      reducer.processTokens ⟨[opening, name, zero, name, zero, closing], none⟩ 0 =
        reducer.processTokens ⟨[opening, name, zero, closing], none⟩ 0 := by
  intro first opening name zero closing
  let rule : CompiledRule Nat := ⟨[.anonymous .object], none, none, first.action⟩
  let reducer : Reducer Nat :=
    ⟨⟨.empty, [rule], (List.replicate 17 []).modify 1 (· ++ [0])⟩, 0, .strict⟩
  let firing : Firing Nat := ⟨⟨[(Frame.anonymous .object).invalidate], 16⟩, 1, [0]⟩
  have front : Walk.Stretch reducer.rules 0 (.start 16 0) [opening, name]
      ⟨⟨[.anonymous .object], 16⟩, 0, some ⟨[0x61], .wildcard⟩⟩ _ :=
    .cons rfl (Nat.zero_le _) (.cons rfl (Nat.zero_le _) .nil)
  have point : reducer.Between 0 [opening, name] _ zero firing :=
    ⟨⟨_, front⟩, _, _, [0], [], rfl, rfl, rfl, rfl⟩
  have invalidated : firing.path.Invalidated 0 := ⟨_, rfl, rfl⟩
  have nothing : Walk.Leaves reducer.rules 0 ⟨firing.path, 1, none⟩ [] closing _ :=
    ⟨_, _, _, .nil, rfl, rfl⟩
  have second : Walk.Leaves reducer.rules 0 ⟨firing.path, 1, none⟩ [name, zero] closing _ :=
    ⟨_, _, _, .cons rfl (Nat.le_refl _) (.cons rfl (Nat.le_refl _) .nil), rfl, rfl⟩
  have same := (invalidation_contained point invalidated).2.2.1 _ _ _ [] none _ _ second nothing
  refine ⟨reducer, rfl, ?_⟩
  exact same

end Reducer

end PathFold
