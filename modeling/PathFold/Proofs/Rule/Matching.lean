import PathFold.Proofs.Rule.Naming
import PathFold.Proofs.Rule.Waiting

/-! Matching, said with names. Compiled rules compare one-byte symbols, of which one stands for
every container without a known name; what they accept is nevertheless what the declarations say. -/

namespace PathFold

open PathFold.Json (ContainerKind ScalarKind)

variable {α : Type}

/-- How a container of a document has been opened. -/
inductive Opening where
  | root
  | element
  | key (name : Bytes)
  deriving DecidableEq, Repr

structure Opened where
  kind : ContainerKind
  opening : Opening
  deriving DecidableEq, Repr

def Opened.frame (table : SymbolTable) (container : Opened) : Frame :=
  .named container.kind
    (match container.opening with
      | .root | .element => .wildcard
      | .key name => table.encode name)

/-- The path on which these containers have been pushed, root first. -/
def pathOf (table : SymbolTable) (limit : Nat) (opened : List Opened) : Except Error Path :=
  opened.foldlM (fun path container => path.push (container.frame table)) (.empty limit)

/-- Whether a container is one that an item of a pattern asks for. An item without a name asks for
one that stands under no name of any rule. -/
def Item.Suits (rules : List (Rule α)) (item : Item) (container : Opened) : Prop :=
  container.kind = item.kind ∧
    match item.name with
    | some name => container.opening = .key name
    | none => ∀ key, container.opening = .key key → ∀ rule ∈ rules, key ∉ rule.names

/-- Whether a rule, as it is declared among others, matches a scalar under a name. -/
structure Rule.Matches (rules : List (Rule α)) (rule : Rule α) (opened : List Opened)
    (invalid : List Nat) (name : Bytes) (kind : ScalarKind) : Prop where
  length : opened.length = rule.path.countP Marker.isContainer
  active : ∀ i < opened.length, i ∉ invalid
  suits : ∀ (i : Nat) container item, opened[i]? = some container →
    (Pattern.items rule.path)[i]? = some item → item.Suits rules container
  property : ∀ wanted ∈ rule.property, wanted = name
  kind : ∀ wanted ∈ rule.kind, wanted = kind

theorem frames_of_pushes {table : SymbolTable} {opened : List Opened} {start path : Path}
    (h : opened.foldlM (fun path container => path.push (container.frame table)) start = .ok path) :
    path.frames = start.frames ++ opened.map (·.frame table) := by
  induction opened generalizing start with
  | nil =>
    cases h
    exact (List.append_nil _).symm
  | cons container opened ih =>
    rw [List.foldlM_cons] at h
    cases pushed : start.push (container.frame table) with
    | error error =>
      rw [pushed] at h
      cases h
    | ok next =>
      rw [pushed] at h
      obtain ⟨-, rfl⟩ := Path.push_eq_ok pushed
      rw [ih h, List.map_cons, List.append_assoc, List.singleton_append]

theorem frames_pathOf {table : SymbolTable} {limit : Nat} {opened : List Opened} {path : Path}
    (h : pathOf table limit opened = .ok path) : path.frames = opened.map (·.frame table) :=
  frames_of_pushes h

theorem active_invalidateAll_iff {frames : List Frame} (active : ∀ frame ∈ frames, frame.active)
    (indices : List Nat) : (∀ frame ∈ indices.foldl Frame.invalidateAt frames, frame.active) ↔
      ∀ i < frames.length, i ∉ indices := by
  constructor
  · intro still i inside mem
    have here := Frame.getElem?_foldl_invalidateAt frames indices i
    rw [List.getElem?_eq_getElem inside] at here
    have := still _ (List.mem_of_getElem? here)
    simp [mem] at this
  · intro spared frame mem
    obtain ⟨i, here⟩ := List.mem_iff_getElem?.1 mem
    rw [Frame.getElem?_foldl_invalidateAt] at here
    obtain ⟨before, there, rfl⟩ := Option.map_eq_some_iff.1 here
    obtain ⟨inside, -⟩ := List.getElem?_eq_some_iff.1 there
    simp [active before (List.mem_of_getElem? there), spared i inside]

/-- What a rule accepts at the end of a path whose frames have been active before. -/
theorem CompiledRule.accepts_invalidateAll_iff (rule : CompiledRule α) {path : Path}
    (active : ∀ frame ∈ path.frames, frame.active) (invalid : List Nat) (name : Symbol)
    (kind : ScalarKind) : rule.accepts (path.invalidateAll invalid) name kind = true ↔
      (∀ symbol ∈ rule.property, symbol = name) ∧ (∀ wanted ∈ rule.kind, wanted = kind) ∧
        path.frames.map Frame.place = rule.frames.map Frame.place ∧
          ∀ i < path.depth, i ∉ invalid := by
  have places : (path.invalidateAll invalid).frames.map Frame.place = path.frames.map Frame.place :=
    Path.map_frames_invalidateAll (fun _ => rfl) path invalid
  have spared : (∀ frame ∈ (path.invalidateAll invalid).frames, frame.active) ↔
      ∀ i < path.depth, i ∉ invalid := active_invalidateAll_iff active invalid
  rw [accepts_iff_awaits, Awaits, places, spared]

/-- A frame has the place that an item asks for just when its container suits the item. -/
theorem place_eq_iff_suits {rules : List (Rule α)} {set : RuleSet α}
    (translates : set.Translates rules) {item : Item}
    (known : ∀ name ∈ item.name, name ∈ set.symbols.names) (container : Opened) :
    (container.frame set.symbols).place = (Pattern.frameOf set.symbols item).place ↔
      item.Suits rules container := by
  obtain ⟨kind, opening⟩ := container
  obtain ⟨name, wanted⟩ := item
  have split : (Opened.frame set.symbols ⟨kind, opening⟩).place =
      (Pattern.frameOf set.symbols ⟨name, wanted⟩).place ↔
      kind = wanted ∧ (Opened.frame set.symbols ⟨kind, opening⟩).symbol =
        (name.map set.symbols.encode).getD .wildcard := Prod.mk.injEq .. ▸ Iff.rfl
  rw [split, Item.Suits]
  refine and_congr_right fun _ => ?_
  -- The wildcard is the symbol of no name in the table, and of every other name.
  cases name with
  | none =>
    have wild (key : Bytes) :
        set.symbols.encode key = .wildcard ↔ ∀ rule ∈ rules, key ∉ rule.names := by
      rw [SymbolTable.encode_eq_wildcard_iff translates.small, translates.mem]
      simp
    cases opening with
    | root | element => simp [Opened.frame, Frame.named]
    | key key => simpa [Opened.frame, Frame.named] using wild key
  | some name =>
    have mem := known name rfl
    have other := SymbolTable.encode_eq_iff translates.small mem
    have named : set.symbols.encode name ≠ .wildcard := fun same =>
      (SymbolTable.encode_eq_wildcard_iff translates.small name).1 same mem
    cases opening with
    | root | element => simpa [Opened.frame, Frame.named] using named.symm
    | key key => simpa [Opened.frame, Frame.named] using other key

/-- The places of frames are those of a pattern just when each container suits its item. -/
theorem map_place_eq_iff {rules : List (Rule α)} {set : RuleSet α}
    (translates : set.Translates rules) {rule : Rule α} (mem : rule ∈ rules)
    (opened : List Opened) :
    opened.map (fun container => (container.frame set.symbols).place) =
        (Pattern.items rule.path).map (fun item => (Pattern.frameOf set.symbols item).place) ↔
      opened.length = rule.path.countP Marker.isContainer ∧
        ∀ (i : Nat) container item, opened[i]? = some container →
          (Pattern.items rule.path)[i]? = some item → item.Suits rules container := by
  have known {item : Item} (here : item ∈ Pattern.items rule.path) :
      ∀ name ∈ item.name, name ∈ set.symbols.names := by
    intro name named
    refine (translates.mem name).2 ⟨rule, mem, ?_⟩
    exact List.mem_append_left _ (Pattern.mem_names_of_mem_items here named)
  rw [← Pattern.length_items]
  constructor
  · intro same
    have length := congrArg List.length same
    rw [List.length_map, List.length_map] at length
    refine ⟨length, fun i container item here there => ?_⟩
    have places := congrArg (·[i]?) same
    simp only [List.getElem?_map, here, there, Option.map_some, Option.some.injEq] at places
    exact (place_eq_iff_suits translates (known (List.mem_of_getElem? there)) container).1 places
  · rintro ⟨length, suits⟩
    apply List.ext_getElem?
    intro i
    rw [List.getElem?_map, List.getElem?_map]
    cases here : opened[i]? with
    | none =>
      have past := List.getElem?_eq_none_iff.1 here
      rw [length] at past
      rw [List.getElem?_eq_none_iff.2 past]
      rfl
    | some container =>
      have inside := (List.getElem?_eq_some_iff.1 here).1
      rw [length] at inside
      have there := List.getElem?_eq_getElem inside
      have same := place_eq_iff_suits translates (known (List.mem_of_getElem? there)) container
      have places := same.2 (suits i container _ here there)
      rw [there, Option.map_some, Option.map_some, places]

/-- The symbol of a wanted name is that of a given name just when the names are the same. -/
theorem property_iff {rules : List (Rule α)} {set : RuleSet α} (translates : set.Translates rules)
    {rule : Rule α} (mem : rule ∈ rules) (name : Bytes) :
    (∀ symbol ∈ rule.property.map set.symbols.encode, symbol = set.symbols.encode name) ↔
      ∀ wanted ∈ rule.property, wanted = name := by
  cases property : rule.property with
  | none => simp
  | some wanted =>
    have known : wanted ∈ set.symbols.names :=
      (translates.mem wanted).2 ⟨rule, mem, by simp [Rule.names, property]⟩
    have same := SymbolTable.encode_eq_iff translates.small known name
    simpa [eq_comm] using same

/-- The rules of a compiled set accept what their declarations match. -/
theorem RuleSet.Translates.accepts_iff {rules : List (Rule α)} {set : RuleSet α}
    (translates : set.Translates rules) {limit : Nat} {opened : List Opened} {path : Path}
    (pushed : pathOf set.symbols limit opened = .ok path) (invalid : List Nat) (name : Bytes)
    (kind : ScalarKind) {index : Nat} {rule : Rule α} (declared : rules[index]? = some rule) :
    ∃ resolved, set.get? index = some resolved ∧
      (resolved.accepts (path.invalidateAll invalid) (set.symbols.encode name) kind = true ↔
        rule.Matches rules opened invalid name kind) := by
  have mem := List.mem_of_getElem? declared
  have inside : index < set.rules.length := by
    rw [translates.length]
    exact (List.getElem?_eq_some_iff.1 declared).1
  have here : set.rules[index]? = some set.rules[index] := List.getElem?_eq_getElem inside
  have resolves := translates.resolves index rule _ declared here
  have frames := frames_pathOf pushed
  have active : ∀ frame ∈ path.frames, frame.active := by
    rw [frames]
    simp [Opened.frame, Frame.named]
  have places : path.frames.map Frame.place =
      opened.map fun container => (container.frame set.symbols).place := by
    rw [frames, List.map_map]
    rfl
  have pattern : set.rules[index].frames.map Frame.place =
      (Pattern.items rule.path).map fun item => (Pattern.frameOf set.symbols item).place := by
    rw [resolves.frames, List.map_map]
    rfl
  have depth : path.depth = opened.length := by rw [Path.depth, frames, List.length_map]
  refine ⟨_, here, ?_⟩
  rw [CompiledRule.accepts_invalidateAll_iff _ active, resolves.property, resolves.kind,
    property_iff translates mem, places, pattern, map_place_eq_iff translates mem, depth]
  constructor
  · rintro ⟨property, wanted, ⟨length, suits⟩, spared⟩
    exact ⟨length, spared, suits, property, wanted⟩
  · intro h
    exact ⟨h.property, h.kind, ⟨h.length, h.suits⟩, h.active⟩

/-- A compiled rule accepts just what its declaration matches. -/
theorem accepts_iff_matches {rules : List (Rule α)} {maxDepth : Nat} {set : RuleSet α}
    (compiled : RuleSet.compile rules maxDepth = .ok set) {limit : Nat} {opened : List Opened}
    {path : Path} (pushed : pathOf set.symbols limit opened = .ok path) (invalid : List Nat)
    (name : Bytes) (kind : ScalarKind) {index : Nat} {rule : Rule α}
    (declared : rules[index]? = some rule) :
    ∃ resolved, set.get? index = some resolved ∧
      (resolved.accepts (path.invalidateAll invalid) (set.symbols.encode name) kind = true ↔
        rule.Matches rules opened invalid name kind) :=
  (RuleSet.translates_of_compile compiled).accepts_iff pushed invalid name kind declared

/-- The number under `b` in the object under `a`, for a rule that waits for it beside another rule.
-/
theorem accepts_iff_matches_nested :
    let inner : Rule Nat := ⟨[.container .object, .name [0x61], .container .object], some [0x62],
      some .number, fun _ _ _ n => ⟨n + 1, []⟩⟩
    let outer : Rule Nat := ⟨[.container .object], some [0x63], none, fun _ _ _ n => ⟨n, [0]⟩⟩
    inner.Matches [outer, inner] [⟨.object, .root⟩, ⟨.object, .key [0x61]⟩] [2] [0x62] .number := by
  intro inner outer
  have compiled : RuleSet.compile [outer, inner] 2 = .ok _ := rfl
  have pushed : pathOf ⟨[[0x63], [0x61], [0x62]]⟩ 2
      [⟨.object, .root⟩, ⟨.object, .key [0x61]⟩] = .ok _ := rfl
  have declared : [outer, inner][1]? = some inner := rfl
  obtain ⟨resolved, here, same⟩ :=
    accepts_iff_matches compiled pushed [2] [0x62] .number declared
  cases here
  exact same.1 (by decide)

end PathFold
