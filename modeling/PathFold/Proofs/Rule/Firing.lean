import PathFold.Proofs.Rule.Loop
import PathFold.Proofs.Rule.Waiting

/-! Dispatch as a plain loop. The files by depth hold every rule once, under its depth and in order.
Going through one of them fires the same rules to the same effect as going through all rules, each
tested against the path as it then is. -/

namespace PathFold

variable {α : Type}

/-- Some frames may have been invalidated between two states of a path, and nothing else has happened
to it. -/
def Path.Fades (before after : Path) : Prop := ∃ indices, after = before.invalidateAll indices

namespace Path.Fades

theorem refl (path : Path) : path.Fades path := ⟨[], rfl⟩

theorem trans {first second third : Path} (h : first.Fades second) (h' : second.Fades third) :
    first.Fades third := by
  obtain ⟨indices, rfl⟩ := h
  obtain ⟨more, rfl⟩ := h'
  refine ⟨indices ++ more, ?_⟩
  rw [invalidateAll, invalidateAll, invalidateAll, List.foldl_append]

variable {before after : Path}

theorem places (h : before.Fades after) :
    after.frames.map Frame.place = before.frames.map Frame.place := by
  obtain ⟨indices, rfl⟩ := h
  exact map_frames_invalidateAll (fun _ => rfl) before indices

/-- An invalidated frame stays so. -/
theorem inactive (h : before.Fades after) {i : Nat} {frame faded : Frame}
    (old : before.frames[i]? = some frame) (new : after.frames[i]? = some faded)
    (off : frame.active = false) : faded.active = false := by
  obtain ⟨indices, rfl⟩ := h
  rw [invalidateAll, Frame.getElem?_foldl_invalidateAt, old] at new
  cases new
  simp [off]

end Path.Fades

/-- The turn of the rule at an index: it fires if it accepts the property at the path as it is. -/
def CompiledRule.turn (rule : CompiledRule α) (index : Nat) (property : Property)
    (firing : Firing α) : Firing α :=
  if rule.accepts firing.path property.symbol property.scalar.kind then
    let effect := rule.action property.scalar property.name firing.path.view firing.aggregate
    ⟨firing.path.invalidateAll effect.requests, effect.aggregate, firing.fired ++ [index]⟩
  else firing

theorem CompiledRule.fades_turn (rule : CompiledRule α) (index : Nat) (property : Property)
    (firing : Firing α) : firing.path.Fades (rule.turn index property firing).path := by
  unfold turn
  split
  · exact ⟨_, rfl⟩
  · exact .refl _

namespace RuleSet

/-- The plain loop: rules take their turns in order, the first of them with the index given. -/
def fireAll (property : Property) (index : Nat) (firing : Firing α) :
    List (CompiledRule α) → Firing α
  | [] => firing
  | rule :: rules => fireAll property (index + 1) (rule.turn index property firing) rules

theorem fades_fireAll (property : Property) (index : Nat) (firing : Firing α)
    (rules : List (CompiledRule α)) :
    firing.path.Fades (fireAll property index firing rules).path := by
  induction rules generalizing index firing with
  | nil => exact .refl _
  | cons rule rules ih => exact (rule.fades_turn index property firing).trans (ih _ _)

/-- Trying all rules by their indices is the plain loop over them. -/
theorem tryAll_eq_fireAll (set : RuleSet α) (property : Property) (firing : Firing α) :
    set.tryAll property firing = fireAll property 0 firing set.rules := by
  unfold tryAll
  suffices go : ∀ (rules : List (CompiledRule α)) (index : Nat) (firing : Firing α),
      (∀ entry ∈ rules.zipIdx index, set.rules[entry.2]? = some entry.1) →
      (rules.zipIdx index).foldl (fun firing entry => set.tryRule property firing entry.2) firing =
        fireAll property index firing rules from
    go _ _ _ fun _ => getElem?_of_mem_zipIdx
  intro rules
  induction rules with
  | nil => exact fun _ _ _ => rfl
  | cons rule rules ih =>
    intro index firing known
    rw [List.zipIdx_cons] at known ⊢
    have turn : set.tryRule property firing index = rule.turn index property firing :=
      tryRule_of_getElem? (known _ List.mem_cons_self) property firing
    rw [List.foldl_cons, turn, fireAll]
    exact ih _ _ fun _ mem => known _ (List.mem_cons_of_mem _ mem)

/-- A file holds the indices of the rules of its depth. -/
theorem Filed.mem_candidates_iff {set : RuleSet α} (filed : set.Filed) {depth index : Nat} :
    index ∈ set.candidates depth ↔ ∃ rule, set.get? index = some rule ∧ rule.depth = depth := by
  simp [filed depth, get?, List.mem_zipIdx_iff_getElem?]

/-- A file is in strictly ascending order. -/
theorem Filed.pairwise_candidates {set : RuleSet α} (filed : set.Filed) (depth : Nat) :
    (set.candidates depth).Pairwise (· < ·) := by
  have all : (set.rules.zipIdx.map (·.2)).Pairwise (· < ·) := by
    rw [List.zipIdx_map_snd]
    exact List.pairwise_lt_range'
  rw [filed depth]
  exact all.sublist (List.filter_sublist.map _)

/-- In a compiled set, the file of any depth, also of one past the greatest allowed, holds just the
rules of this depth and is in strictly ascending order. Dispatch comes to the same as the plain loop
over all rules: the same rules fire in the same order, and the path and the aggregate are the same in
the end. It leaves the depth of the path, its limit and the kinds and symbols of its frames alone,
and no invalidated frame becomes active again. -/
theorem dispatch_eq_plain_loop {rules : List (Rule α)} {maxDepth : Nat} {set : RuleSet α}
    (compiled : compile rules maxDepth = .ok set) :
    (∀ depth, (set.candidates depth).Pairwise (· < ·) ∧ ∀ index,
      index ∈ set.candidates depth ↔ ∃ rule, set.get? index = some rule ∧ rule.depth = depth) ∧
    ∀ (property : Property) (path : Path) (aggregate : α),
      let firing := set.dispatch property path aggregate
      firing = fireAll property 0 ⟨path, aggregate, []⟩ set.rules ∧
      firing.path.depth = path.depth ∧ firing.path.limit = path.limit ∧
      firing.path.frames.map Frame.place = path.frames.map Frame.place ∧
      ∀ (i : Nat) before after, path.frames[i]? = some before →
        firing.path.frames[i]? = some after → before.active = false → after.active = false := by
  have filed := filed_of_compile compiled
  refine ⟨fun depth => ⟨filed.pairwise_candidates depth, fun _ => filed.mem_candidates_iff⟩, ?_⟩
  intro property path aggregate firing
  have same : firing = fireAll property 0 ⟨path, aggregate, []⟩ set.rules :=
    (dispatch_eq_tryAll filed property path aggregate).trans (tryAll_eq_fireAll set property _)
  have fades : path.Fades firing.path := by
    rw [same]
    exact fades_fireAll property 0 ⟨path, aggregate, []⟩ set.rules
  exact ⟨same, depth_dispatch set property path aggregate,
    limit_dispatch set property path aggregate, fades.places, fun _ _ _ => fades.inactive⟩

/-- Of three rules the first and the last are of depth 1. The first invalidates the root, which keeps
the last from firing. -/
theorem dispatch_eq_plain_loop_invalidating :
    let root : List Marker := [.container .object]
    let rules : List (Rule Nat) :=
      [⟨root, none, none, fun _ _ _ n => ⟨n + 1, [0]⟩⟩,
        ⟨root ++ [.name [0x61], .container .array], none, none, fun _ _ _ n => ⟨n + 10, []⟩⟩,
        ⟨root, none, none, fun _ _ _ n => ⟨n + 100, []⟩⟩]
    let property : Property := ⟨⟨.null, [0x6E, 0x75, 0x6C, 0x6C], false⟩, [0x62], .wildcard⟩
    let path : Path := ⟨[.anonymous .object], 16⟩
    ∃ set, compile rules 2 = .ok set ∧ set.candidates 1 = [0, 2] ∧ set.candidates 7 = [] ∧
      2 ∈ set.candidates 1 ∧
      set.dispatch property path 0 = ⟨⟨[⟨.object, .wildcard, false⟩], 16⟩, 1, [0]⟩ := by
  intro root rules property path
  have compiled : compile rules 2 = .ok _ := rfl
  obtain ⟨files, loop⟩ := dispatch_eq_plain_loop compiled
  obtain ⟨same, -⟩ := loop property path 0
  exact ⟨_, compiled, rfl, rfl, ((files 1).2 2).2 ⟨_, rfl, rfl⟩, same.trans rfl⟩

end RuleSet

end PathFold
