import PathFold.Rule.Compiled

/-! How rules are filed. Compiling adds the rules one after the other, so what holds of the empty
set and is kept by every addition holds of a compiled set; in particular, that the rules of each
depth are filed under it, in order. -/

namespace PathFold.RuleSet

variable {α : Type}

/-- What adding a rule has done. -/
theorem add_eq_ok {maxDepth : Nat} {set next : RuleSet α} {rule : Rule α}
    (h : set.add maxDepth rule = .ok next) :
    ∃ frames symbols property symbols',
      Pattern.compile rule.path set.symbols = .ok (frames, symbols) ∧
      frames.length ≤ maxDepth ∧ recordOption symbols rule.property = .ok (property, symbols') ∧
      next = ⟨symbols', set.rules ++ [⟨frames, property, rule.kind, rule.action⟩],
        set.byDepth.modify frames.length (· ++ [set.size])⟩ := by
  unfold add at h
  cases compiled : Pattern.compile rule.path set.symbols with
  | error refusal =>
    rw [compiled] at h
    cases refusal <;> cases h
  | ok made =>
    obtain ⟨frames, symbols⟩ := made
    rw [compiled] at h
    dsimp only at h
    split at h
    · cases h
    · rename_i shallow
      cases recorded : recordOption symbols rule.property with
      | error error =>
        rw [recorded] at h
        cases h
      | ok made =>
        obtain ⟨property, symbols'⟩ := made
        rw [recorded] at h
        cases h
        exact ⟨frames, symbols, property, symbols', rfl, Nat.le_of_not_lt shallow, recorded, rfl⟩

/-- What holds of no rules and is kept by adding one holds of all that compile. -/
theorem compile_induction {maxDepth : Nat} {rules : List (Rule α)} {set : RuleSet α}
    (h : compile rules maxDepth = .ok set) {P : List (Rule α) → RuleSet α → Prop}
    (start : P [] (empty maxDepth))
    (step : ∀ done set rule next, P done set → set.add maxDepth rule = .ok next →
      P (done ++ [rule]) next) : P rules set := by
  suffices go : ∀ rules done set final, P done set →
      rules.foldlM (add maxDepth) set = .ok final → P (done ++ rules) final from
    go rules [] _ _ start h
  intro rules
  induction rules with
  | nil =>
    intro done set final holds same
    cases same
    rwa [List.append_nil]
  | cons rule rules ih =>
    intro done set final holds same
    rw [List.foldlM_cons] at same
    cases added : set.add maxDepth rule with
    | error error =>
      rw [added] at same
      cases same
    | ok next =>
      rw [added] at same
      have further := ih (done ++ [rule]) next final (step _ _ _ _ holds added) same
      rwa [List.append_assoc] at further

/-- Each rule is filed under its depth, in the order of the rules. -/
def Filed (set : RuleSet α) : Prop :=
  ∀ depth, set.candidates depth =
    (set.rules.zipIdx.filter fun (rule, _) => rule.depth = depth).map (·.2)

theorem filed_of_compile {rules : List (Rule α)} {maxDepth : Nat} {set : RuleSet α}
    (h : compile rules maxDepth = .ok set) : set.Filed := by
  suffices both : set.byDepth.length = maxDepth + 1 ∧ set.Filed from both.2
  refine compile_induction h (P := fun _ set => set.byDepth.length = maxDepth + 1 ∧ set.Filed) ?_ ?_
  · refine ⟨List.length_replicate, fun depth => ?_⟩
    simp only [candidates, empty, List.getElem?_replicate]
    split <;> rfl
  · rintro _ set rule next ⟨length, filed⟩ added
    obtain ⟨frames, symbols, property, symbols', -, shallow, -, rfl⟩ := add_eq_ok added
    refine ⟨by simpa using length, fun depth => ?_⟩
    have before := filed depth
    simp only [candidates, List.zipIdx_append, List.filter_append, List.map_append,
      List.getElem?_modify] at before ⊢
    rw [← before]
    by_cases same : frames.length = depth
    · have inside : depth < set.byDepth.length := by omega
      simp [same, CompiledRule.depth, inside, size]
    · simp [same, CompiledRule.depth]

end PathFold.RuleSet
