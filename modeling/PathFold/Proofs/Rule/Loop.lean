import PathFold.Proofs.Rule.Filing
import PathFold.Rule.Dispatch

/-! Dispatch as a loop over all rules. Rules of another depth accept nothing, so leaving them out,
as the files by depth do, changes nothing. -/

namespace PathFold.RuleSet

open PathFold.Json (Scalar)

variable {α : Type}

/-- All rules in turn, whatever their depth. -/
def tryAll (set : RuleSet α) (property : Property) (state : Firing α) : Firing α :=
  set.rules.zipIdx.foldl (fun state (_, index) => set.tryRule property state index) state

theorem tryRule_of_getElem? {set : RuleSet α} {index : Nat} {rule : CompiledRule α}
    (h : set.rules[index]? = some rule) (property : Property) (state : Firing α) :
    set.tryRule property state index =
      if rule.accepts state.path property.symbol property.scalar.kind then
        ⟨state.path.invalidateAll
            (rule.action property.scalar property.name state.path.view state.aggregate).requests,
          (rule.action property.scalar property.name state.path.view state.aggregate).aggregate,
          state.fired ++ [index]⟩
      else state := by
  rw [tryRule, get?, h]

/-- A rule of another depth than that of the path changes nothing. -/
theorem tryRule_of_depth_ne {set : RuleSet α} {index : Nat} {rule : CompiledRule α}
    (h : set.rules[index]? = some rule) (property : Property) {state : Firing α}
    (other : rule.depth ≠ state.path.depth) : set.tryRule property state index = state := by
  rw [tryRule_of_getElem? h]
  refine if_neg fun accepts => ?_
  exact other (CompiledRule.depth_of_accepts accepts).symm

theorem depth_tryRule (set : RuleSet α) (property : Property) (state : Firing α) (index : Nat) :
    (set.tryRule property state index).path.depth = state.path.depth :=
  view_tryRule Path.depth_invalidateAll set property state index

theorem getElem?_of_mem_zipIdx {set : RuleSet α} {rule : CompiledRule α} {index : Nat}
    (h : (rule, index) ∈ set.rules.zipIdx) : set.rules[index]? = some rule := by
  simpa using List.mem_zipIdx_iff_getElem?.1 h

/-- Where rules are filed by depth, dispatch is the loop over all rules. -/
theorem dispatch_eq_tryAll {set : RuleSet α} (filed : set.Filed) (property : Property)
    (path : Path) (aggregate : α) :
    set.dispatch property path aggregate = set.tryAll property ⟨path, aggregate, []⟩ := by
  rw [dispatch, tryAll, filed, List.foldl_map, List.foldl_filter]
  suffices go : ∀ (l : List (CompiledRule α × Nat)) (state : Firing α),
      (∀ entry ∈ l, set.rules[entry.2]? = some entry.1) → state.path.depth = path.depth →
      l.foldl (fun state entry => if decide (entry.1.depth = path.depth) then
        set.tryRule property state entry.2 else state) state =
      l.foldl (fun state entry => set.tryRule property state entry.2) state from
    go _ _ (fun _ => getElem?_of_mem_zipIdx) rfl
  intro l
  induction l with
  | nil => exact fun _ _ _ => rfl
  | cons entry l ih =>
    intro state known depth
    have first := known entry List.mem_cons_self
    have turn : (if decide (entry.1.depth = path.depth) then set.tryRule property state entry.2
        else state) = set.tryRule property state entry.2 := by
      split
      · rfl
      · rename_i other
        rw [tryRule_of_depth_ne first]
        simpa [depth] using other
    rw [List.foldl_cons, List.foldl_cons, turn]
    refine ih _ (fun _ mem => known _ (List.mem_cons_of_mem _ mem)) ?_
    rw [depth_tryRule, depth]

end PathFold.RuleSet
