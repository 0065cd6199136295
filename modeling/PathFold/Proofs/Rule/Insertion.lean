import PathFold.Proofs.Rule.Matching

/-! One rule more. It can bring names with it, and containers under those names no longer suit
patterns that ask for a container without a name. So the other rules match no more than before, and
just as much where no such pattern can meet a container under a name. -/

namespace PathFold

open PathFold.Json (ContainerKind ScalarKind)

variable {α : Type}

/-- Whether a container can be opened so inside one of the given kind, or outside any. -/
def Opening.standsIn : Option ContainerKind → Opening → Bool
  | none, .root | some .object, .key _ | some .array, .element => true
  | _, _ => false

/-- Whether these containers can be open one inside the other, within one of the given kind or
outside any. -/
def wellNested : Option ContainerKind → List Opened → Bool
  | _, [] => true
  | outer, container :: inner =>
    container.opening.standsIn outer && wellNested (some container.kind) inner

/-- Whether the items without a name stand first or right inside an array. -/
def Pattern.anchored : Option ContainerKind → List Item → Bool
  | _, [] => true
  | outer, item :: rest =>
    (item.name.isSome || outer != some .object) && anchored (some item.kind) rest

theorem Opening.ne_key_of_standsIn {outer : Option ContainerKind} {opening : Opening}
    (stands : opening.standsIn outer) (noObject : outer ≠ some .object) (key : Bytes) :
    opening ≠ .key key := by
  rintro rfl
  match outer with
  | none | some .array => cases stands
  | some .object => exact noObject rfl

/-- A container that suits an item among some rules suits it among rules with no more names. -/
theorem Item.Suits.mono {rules others : List (Rule α)} {item : Item} {container : Opened}
    (h : item.Suits rules container)
    (names : ∀ rule ∈ others, ∀ name ∈ rule.names, ∃ rule ∈ rules, name ∈ rule.names) :
    item.Suits others container := by
  obtain ⟨kind, opening⟩ := h
  refine ⟨kind, ?_⟩
  cases wanted : item.name with
  | some name =>
    rw [wanted] at opening
    exact opening
  | none =>
    rw [wanted] at opening
    intro key opens rule mem named
    obtain ⟨rule', mem', named'⟩ := names rule mem key named
    exact opening key opens rule' mem' named'

/-- Names do not matter to items that no container under a name can meet. -/
theorem suits_of_anchored {rules others : List (Rule α)} {opened : List Opened} {items : List Item}
    {outer : Option ContainerKind} (nested : wellNested outer opened)
    (anchored : Pattern.anchored outer items)
    (suits : ∀ (i : Nat) container item, opened[i]? = some container → items[i]? = some item →
      item.Suits rules container) :
    ∀ (i : Nat) container item, opened[i]? = some container → items[i]? = some item →
      item.Suits others container := by
  induction opened generalizing outer items with
  | nil =>
    intro i container item here
    cases here
  | cons container opened ih =>
    cases items with
    | nil =>
      intro i container' item here there
      cases there
    | cons item items =>
      obtain ⟨kind, opening⟩ := suits 0 container item rfl rfl
      obtain ⟨stands, nested⟩ := Bool.and_eq_true_iff.1 nested
      obtain ⟨named, anchored⟩ := Bool.and_eq_true_iff.1 anchored
      rw [← kind] at anchored
      have inner := ih nested anchored fun i => suits (i + 1)
      rintro (_ | i) container' item' here there
      · cases here
        cases there
        refine ⟨kind, ?_⟩
        cases wanted : item.name with
        | some name =>
          rw [wanted] at opening
          exact opening
        | none =>
          have noObject : outer ≠ some .object := by simpa [wanted] using named
          intro key opens
          exact absurd opens (Opening.ne_key_of_standsIn stands noObject key)
      · exact inner i container' item' here there

/-- What matches among some rules matches among rules with no more names. -/
theorem Rule.Matches.mono {rules others : List (Rule α)} {rule : Rule α} {opened : List Opened}
    {invalid : List Nat} {name : Bytes} {kind : ScalarKind}
    (h : rule.Matches rules opened invalid name kind)
    (names : ∀ rule ∈ others, ∀ name ∈ rule.names, ∃ rule ∈ rules, name ∈ rule.names) :
    rule.Matches others opened invalid name kind :=
  ⟨h.length, h.active,
    fun i container item here there => (h.suits i container item here there).mono names,
    h.property, h.kind⟩

/-- What matches among some rules matches among any others if names do not matter to it. -/
theorem Rule.Matches.of_anchored {rules : List (Rule α)} {rule : Rule α} {opened : List Opened}
    {invalid : List Nat} {name : Bytes} {kind : ScalarKind}
    (h : rule.Matches rules opened invalid name kind) (nested : wellNested none opened)
    (anchored : Pattern.anchored none (Pattern.items rule.path)) (others : List (Rule α)) :
    rule.Matches others opened invalid name kind :=
  ⟨h.length, h.active, suits_of_anchored nested anchored h.suits, h.property, h.kind⟩

/-- Where the other rules stand when one is put among them. -/
theorem getElem?_inserted {β : Type} (before after : List β) (extra : β) (index : Nat) :
    (before ++ extra :: after)[if index < before.length then index else index + 1]? =
      (before ++ after)[index]? := by
  split
  · rename_i early
    rw [List.getElem?_append_left early, List.getElem?_append_left early]
  · rename_i late
    have late := Nat.le_of_not_lt late
    rw [List.getElem?_append_right (Nat.le_succ_of_le late), List.getElem?_append_right late,
      Nat.succ_sub late, List.getElem?_cons_succ]

/-- Putting one rule more among others never makes one of them match more: on containers that can be
open one inside the other, with some of them invalidated, what a rule accepts among more rules it
accepts among fewer. It accepts the same if the items without a name in its pattern stand first or
right inside an array, and also if the rule put in brings no name of its own. -/
theorem accepts_of_inserted {before after : List (Rule α)} {extra : Rule α} {maxDepth : Nat}
    {set larger : RuleSet α} (compiled : RuleSet.compile (before ++ after) maxDepth = .ok set)
    (compiled' : RuleSet.compile (before ++ extra :: after) maxDepth = .ok larger) {limit : Nat}
    {opened : List Opened} (nested : wellNested none opened) {path path' : Path}
    (pushed : pathOf set.symbols limit opened = .ok path)
    (pushed' : pathOf larger.symbols limit opened = .ok path') (invalid : List Nat) (name : Bytes)
    (kind : ScalarKind) {index : Nat} {rule : Rule α}
    (declared : (before ++ after)[index]? = some rule) :
    ∃ resolved resolved', set.get? index = some resolved ∧
      larger.get? (if index < before.length then index else index + 1) = some resolved' ∧
      let alone := resolved.accepts (path.invalidateAll invalid) (set.symbols.encode name) kind
      let among := resolved'.accepts (path'.invalidateAll invalid) (larger.symbols.encode name) kind
      (among = true → alone = true) ∧
        (Pattern.anchored none (Pattern.items rule.path) = true ∨
            (∀ name ∈ extra.names, ∃ other ∈ before ++ after, name ∈ other.names) →
          among = alone) := by
  obtain ⟨resolved, here, alone⟩ :=
    (RuleSet.translates_of_compile compiled).accepts_iff pushed invalid name kind declared
  have declared' := (getElem?_inserted before after extra index).trans declared
  obtain ⟨resolved', here', among⟩ :=
    (RuleSet.translates_of_compile compiled').accepts_iff pushed' invalid name kind declared'
  refine ⟨resolved, resolved', here, here', ?_⟩
  have fewer : ∀ rule ∈ before ++ after, ∀ name ∈ rule.names,
      ∃ rule ∈ before ++ extra :: after, name ∈ rule.names := by
    intro rule mem name named
    refine ⟨rule, ?_, named⟩
    rcases List.mem_append.1 mem with mem | mem
    · exact List.mem_append_left _ mem
    · exact List.mem_append_right _ (List.mem_cons_of_mem _ mem)
  have less : resolved'.accepts (path'.invalidateAll invalid) (larger.symbols.encode name) kind →
      resolved.accepts (path.invalidateAll invalid) (set.symbols.encode name) kind :=
    fun accepts => alone.2 ((among.1 accepts).mono fewer)
  refine ⟨less, fun same => Bool.eq_iff_iff.2 ⟨less, fun accepts => among.2 ?_⟩⟩
  rcases same with anchored | known
  · exact (alone.1 accepts).of_anchored nested anchored _
  · refine (alone.1 accepts).mono fun rule mem name named => ?_
    rcases List.mem_append.1 mem with mem | mem
    · exact ⟨rule, List.mem_append_left _ mem, named⟩
    · rcases List.mem_cons.1 mem with rfl | mem
      · exact known name named
      · exact ⟨rule, List.mem_append_right _ mem, named⟩

/-- The number `v` in an element of the array under `b`, for a rule that waits for it in any array
inside the root, and another rule before it that names `a`. -/
theorem accepts_of_inserted_unnamed :
    let rule : Rule Nat := ⟨[.container .object, .container .array, .container .object],
      some [0x76], none, fun _ _ _ n => ⟨n + 1, []⟩⟩
    let extra : Rule Nat := ⟨[.container .object, .name [0x61], .container .array], none, none,
      fun _ _ _ n => ⟨n, []⟩⟩
    let opened : List Opened := [⟨.object, .root⟩, ⟨.array, .key [0x62]⟩, ⟨.object, .element⟩]
    ∃ set larger, RuleSet.compile [rule] 3 = .ok set ∧ RuleSet.compile [extra, rule] 3 = .ok larger ∧
      ∃ path resolved, pathOf set.symbols 3 opened = .ok path ∧ set.get? 0 = some resolved ∧
        resolved.accepts path (set.symbols.encode [0x76]) .number = true := by
  intro rule extra opened
  have compiled : RuleSet.compile ([] ++ [rule]) 3 = .ok _ := rfl
  have compiled' : RuleSet.compile ([] ++ extra :: [rule]) 3 = .ok _ := rfl
  have pushed : pathOf ⟨[[0x76]]⟩ 3 opened = .ok _ := rfl
  have pushed' : pathOf ⟨[[0x61], [0x76]]⟩ 3 opened = .ok _ := rfl
  have declared : ([] ++ [rule])[0]? = some rule := rfl
  obtain ⟨resolved, resolved', here, here', less, -⟩ :=
    accepts_of_inserted compiled compiled' (by decide) pushed pushed' [] [0x76] .number declared
  cases here'
  exact ⟨_, _, compiled, compiled', _, resolved, pushed, here, less (by decide)⟩

end PathFold
