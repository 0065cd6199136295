import PathFold.Proofs.Rule.Filing

/-! The names of rules in the table of a compiled set. The table holds the names of all rules and no
others, each under a symbol of its own, and a name keeps its symbol when further names are recorded.
-/

namespace PathFold

open PathFold.Json (ContainerKind)

namespace SymbolTable

/-- No two names share a symbol. -/
theorem encode_eq_iff {table : SymbolTable} (small : table.size ≤ capacity) {name : Bytes}
    (known : name ∈ table.names) (other : Bytes) :
    table.encode other = table.encode name ↔ other = name := by
  have bound {index : Nat} {name : Bytes} (here : table.names[index]? = some name) :
      index < 254 := by
    obtain ⟨inside, -⟩ := List.getElem?_eq_some_iff.1 here
    exact Nat.lt_of_lt_of_le inside small
  obtain ⟨index, here, code⟩ := encode_of_mem known
  have value := Symbol.toNat_ofIndex (bound here)
  constructor
  · intro same
    rw [code] at same
    by_cases known' : other ∈ table.names
    · obtain ⟨index', here', code'⟩ := encode_of_mem known'
      have value' := Symbol.toNat_ofIndex (bound here')
      rw [code'] at same
      rw [same, value] at value'
      obtain rfl : index = index' := by omega
      exact Option.some.inj (here'.symm.trans here)
    · rw [encode_of_not_mem known'] at same
      rw [← same] at value
      exact absurd value (by simp [Symbol.wildcard])
  · rintro rfl
    rfl

/-- The wildcard stands for the names that the table does not hold. -/
theorem encode_eq_wildcard_iff {table : SymbolTable} (small : table.size ≤ capacity)
    (name : Bytes) : table.encode name = .wildcard ↔ name ∉ table.names := by
  refine ⟨fun wild known => ?_, encode_of_not_mem⟩
  obtain ⟨index, here, code⟩ := encode_of_mem known
  obtain ⟨inside, -⟩ := List.getElem?_eq_some_iff.1 here
  have value := Symbol.toNat_ofIndex (Nat.lt_of_lt_of_le inside small)
  rw [← code, wild] at value
  exact absurd value (by simp [Symbol.wildcard])

/-- That a table has come from another by recording names. -/
structure Records (table : SymbolTable) (names : List Bytes) (after : SymbolTable) : Prop where
  mem : ∀ name, name ∈ after.names ↔ name ∈ table.names ∨ name ∈ names
  same : ∀ name ∈ table.names, after.encode name = table.encode name
  small : table.size ≤ capacity → after.size ≤ capacity

theorem Records.nil (table : SymbolTable) : table.Records [] table :=
  ⟨by simp, fun _ _ => rfl, id⟩

theorem Records.append {table between after : SymbolTable} {front back : List Bytes}
    (first : table.Records front between) (second : between.Records back after) :
    table.Records (front ++ back) after := by
  refine ⟨fun name => ?_, fun name known => ?_, second.small ∘ first.small⟩
  · rw [second.mem, first.mem, List.mem_append, or_assoc]
  · rw [second.same name ((first.mem name).2 (.inl known)), first.same name known]

/-- What recording a name has done. -/
theorem records_of_record {table after : SymbolTable} {name : Bytes} {symbol : Symbol}
    (h : table.record name = .ok (symbol, after)) :
    table.Records [name] after ∧ symbol = after.encode name := by
  refine ⟨?_, (encode_of_record h).symm⟩
  by_cases known : name ∈ table.names
  · rw [record_of_mem known] at h
    cases h
    refine ⟨fun other => ?_, fun _ _ => rfl, id⟩
    constructor
    · exact .inl
    · rintro (mem | mem)
      · exact mem
      · rwa [List.mem_singleton.1 mem]
  · rw [record_of_not_mem known] at h
    split at h
    · cases h
    · rename_i room
      cases h
      refine ⟨by simp, fun other mem => encode_append mem, fun _ => ?_⟩
      have length : (table.names ++ [name]).length = table.size + 1 := List.length_append
      rw [size, length]
      exact Nat.lt_of_not_le room

end SymbolTable

/-- What a pattern says of one container: the name it stands under, if the pattern gives one, and
its kind. -/
structure Item where
  name : Option Bytes
  kind : ContainerKind

namespace Marker

def isContainer : Marker → Bool
  | .container _ => true
  | .name _ => false

def name? : Marker → Option Bytes
  | .container _ => none
  | .name bytes => some bytes

end Marker

namespace Pattern

/-- The containers of a pattern, root first, each with the name that stands before its marker. -/
def items : List Marker → List Item
  | [] => []
  | .container kind :: rest => ⟨none, kind⟩ :: items rest
  | .name bytes :: .container kind :: rest => ⟨some bytes, kind⟩ :: items rest
  | .name _ :: rest => items rest

theorem length_items (markers : List Marker) :
    (items markers).length = markers.countP Marker.isContainer := by
  fun_induction items markers with
  | case1 => rfl
  | case2 kind rest ih => simp [ih, List.countP_cons, Marker.isContainer]
  | case3 bytes kind rest ih => simp [ih, List.countP_cons, Marker.isContainer]
  | case4 bytes rest other ih => simp [ih, Marker.isContainer]

def names (markers : List Marker) : List Bytes := markers.filterMap Marker.name?

theorem mem_names_of_mem_items {markers : List Marker} {item : Item} {name : Bytes}
    (mem : item ∈ items markers) (named : item.name = some name) : name ∈ names markers := by
  fun_induction items markers with
  | case1 => cases mem
  | case2 kind rest ih =>
    rcases List.mem_cons.1 mem with rfl | mem
    · cases named
    · exact ih mem
  | case3 bytes kind rest ih =>
    rcases List.mem_cons.1 mem with rfl | mem
    · cases named
      exact List.mem_cons_self
    · exact List.mem_cons_of_mem _ (ih mem)
  | case4 bytes rest other ih => exact List.mem_cons_of_mem _ (ih mem)

/-- The frame of a container that a pattern describes. -/
def frameOf (table : SymbolTable) (item : Item) : Frame :=
  .named item.kind ((item.name.map table.encode).getD .wildcard)

/-- The frames of a pattern stay as they are while its names keep their symbols. -/
theorem map_frameOf_of_same {markers : List Marker} {table after : SymbolTable}
    (same : ∀ name ∈ names markers, after.encode name = table.encode name) :
    (items markers).map (frameOf table) = (items markers).map (frameOf after) := by
  refine List.map_congr_left fun item mem => ?_
  cases named : item.name with
  | none => simp only [frameOf, named, Option.map_none]
  | some name =>
    have mem := mem_names_of_mem_items mem named
    simp only [frameOf, named, Option.map_some, same name mem]

/-- What compiling markers has done. -/
theorem framesIn_eq_ok {parent : Option ContainerKind} {markers : List Marker}
    {table after : SymbolTable} {frames : List Frame}
    (h : framesIn parent markers table = .ok (frames, after)) :
    table.Records (names markers) after ∧ frames = (items markers).map (frameOf after) := by
  fun_induction framesIn parent markers table generalizing frames after with
  | case1 =>
    cases h
    exact ⟨.nil _, rfl⟩
  | case3 parent table kind rest inner between compiled ih =>
    cases h
    obtain ⟨recorded, rfl⟩ := ih compiled
    exact ⟨recorded, rfl⟩
  | case8 table bytes symbol between taken kind rest inner last compiled ih =>
    cases h
    obtain ⟨first, rfl⟩ := SymbolTable.records_of_record taken
    obtain ⟨others, rfl⟩ := ih compiled
    refine ⟨first.append others, ?_⟩
    have known : bytes ∈ between.names := (first.mem bytes).2 (.inr List.mem_cons_self)
    rw [← others.same bytes known]
    rfl
  | case2 | case4 | case5 | case6 | case7 | case9 => cases h

end Pattern

namespace Rule

variable {α : Type}

/-- All names of a rule: those of its pattern, and that of its property. -/
def names (rule : Rule α) : List Bytes := Pattern.names rule.path ++ rule.property.toList

end Rule

namespace RuleSet

variable {α : Type}

theorem records_of_recordOption {table after : SymbolTable} {name : Option Bytes}
    {symbol : Option Symbol} (h : recordOption table name = .ok (symbol, after)) :
    table.Records name.toList after ∧ symbol = name.map after.encode := by
  cases name with
  | none =>
    cases h
    exact ⟨.nil _, rfl⟩
  | some name =>
    unfold recordOption at h
    cases taken : table.record name with
    | error error =>
      simp only [taken] at h
      cases h
    | ok made =>
      obtain ⟨code, after'⟩ := made
      simp only [taken] at h
      cases h
      obtain ⟨recorded, rfl⟩ := SymbolTable.records_of_record taken
      exact ⟨recorded, rfl⟩

/-- That a compiled rule says with the symbols of a table what a rule says with names. -/
structure Resolves (table : SymbolTable) (rule : Rule α) (compiled : CompiledRule α) : Prop where
  known : ∀ name ∈ rule.names, name ∈ table.names
  frames : compiled.frames = (Pattern.items rule.path).map (Pattern.frameOf table)
  property : compiled.property = rule.property.map table.encode
  kind : compiled.kind = rule.kind
  action : compiled.action = rule.action

/-- That a set is what the rules compile to. -/
structure Translates (rules : List (Rule α)) (set : RuleSet α) : Prop where
  small : set.symbols.size ≤ SymbolTable.capacity
  mem : ∀ name, name ∈ set.symbols.names ↔ ∃ rule ∈ rules, name ∈ rule.names
  length : set.rules.length = rules.length
  resolves : ∀ (i : Nat) rule compiled, rules[i]? = some rule → set.rules[i]? = some compiled →
    Resolves set.symbols rule compiled

theorem Resolves.mono {table after : SymbolTable} {names : List Bytes} {rule : Rule α}
    {compiled : CompiledRule α} (h : Resolves table rule compiled)
    (recorded : table.Records names after) : Resolves after rule compiled := by
  have same (name : Bytes) (mem : name ∈ rule.names) : after.encode name = table.encode name :=
    recorded.same name (h.known name mem)
  refine ⟨fun name mem => (recorded.mem name).2 (.inl (h.known name mem)), ?_, ?_, h.kind, h.action⟩
  · rw [h.frames]
    exact Pattern.map_frameOf_of_same fun name mem => same name (List.mem_append_left _ mem)
  · rw [h.property]
    cases named : rule.property with
    | none => rfl
    | some name =>
      have mem : name ∈ rule.names := by simp [Rule.names, named]
      rw [Option.map_some, Option.map_some, same name mem]

/-- One more rule resolves to what adding it compiles, and the rules before it as they did. -/
theorem Translates.add {maxDepth : Nat} {rules : List (Rule α)} {set next : RuleSet α}
    {rule : Rule α} (h : Translates rules set) (added : set.add maxDepth rule = .ok next) :
    Translates (rules ++ [rule]) next := by
  obtain ⟨frames, symbols, property, symbols', compiled, -, taken, rfl⟩ := add_eq_ok added
  unfold Pattern.compile at compiled
  split at compiled
  · cases compiled
  · obtain ⟨first, rfl⟩ := Pattern.framesIn_eq_ok compiled
    obtain ⟨second, rfl⟩ := records_of_recordOption taken
    have recorded : set.symbols.Records rule.names symbols' := first.append second
    refine ⟨recorded.small h.small, fun name => ?_, ?_, ?_⟩
    · simp only [recorded.mem, h.mem, List.mem_append, List.mem_singleton, or_and_right, exists_or,
        exists_eq_left]
    · simp [h.length]
    · intro i other made here there
      have lengths : set.rules.length = rules.length := h.length
      -- The rules before keep their symbols, since recording only adds names to the table.
      by_cases old : i < rules.length
      · rw [List.getElem?_append_left old] at here
        rw [List.getElem?_append_left (by omega)] at there
        exact (h.resolves i other made here there).mono recorded
      · rw [List.getElem?_append_right (by omega)] at here there
        obtain rfl := List.mem_singleton.1 (List.mem_of_getElem? here)
        obtain rfl := List.mem_singleton.1 (List.mem_of_getElem? there)
        refine ⟨fun name mem => (recorded.mem name).2 (.inr mem), ?_, rfl, rfl, rfl⟩
        exact Pattern.map_frameOf_of_same fun name mem =>
          second.same name ((first.mem name).2 (.inr mem))

theorem translates_of_compile {rules : List (Rule α)} {maxDepth : Nat} {set : RuleSet α}
    (h : compile rules maxDepth = .ok set) : Translates rules set := by
  refine compile_induction h ?_ fun _ _ _ _ before added => before.add added
  refine ⟨Nat.zero_le _, fun name => ?_, rfl, fun i rule compiled here => ?_⟩
  · simp [empty, SymbolTable.empty]
  · cases here

end RuleSet

end PathFold
