import Mathlib.Data.List.Basic
import PathFold.Proofs.Rule.Naming

/-! Tables over whole histories. Names are recorded one after the other, known or new, and a table
that is full refuses the new ones. It numbers the names that it took from 2 on, in the order in which
they came, and a number is never given up or given twice. -/

namespace PathFold.SymbolTable

/-- The table after a name has been offered to it. A name that is refused leaves it as it is. -/
def offer (table : SymbolTable) (name : Bytes) : SymbolTable :=
  match table.record name with
  | .ok (_, after) => after
  | .error _ => table

/-- The table that was empty before these names were offered to it, one after the other. -/
def history (calls : List Bytes) : SymbolTable := calls.foldl offer empty

/-- Those of the names that are recorded when they are offered one after the other. -/
def recorded (table : SymbolTable) : List Bytes → List Bytes
  | [] => []
  | name :: calls =>
    match table.record name with
    | .ok _ => name :: recorded (table.offer name) calls
    | .error _ => recorded table calls

/-- That a table holds just these names, the one after `k` others under the code `k + 2`, and answers
accordingly. -/
structure Interns (table : SymbolTable) (names : List Bytes) : Prop where
  distinct : names.Nodup
  size_eq : table.size = names.length
  size_le : table.size ≤ capacity
  code : ∀ (k : Nat) name, names[k]? = some name → (table.encode name).code.toNat = k + 2
  unknown : ∀ name, name ∉ names → table.encode name = .wildcard
  apart : ∀ name ∈ names, ∀ other, table.encode other = table.encode name → other = name
  unreserved : ∀ name ∈ names, (table.encode name).isReserved = false
  decode_encode : ∀ name ∈ names, table.decode (table.encode name) = name
  encode_decode : ∀ symbol : Symbol, 2 ≤ symbol.code.toNat →
    symbol.code.toNat < names.length + 2 → table.encode (table.decode symbol) = symbol
  unassigned : ∀ symbol : Symbol, names.length + 2 ≤ symbol.code.toNat → table.decode symbol = []
  toList_eq : table.toList = names.map fun name => (table.encode name, name)
  toList_codes : table.toList.map (·.1.code.toNat) = List.range' 2 names.length
  known : ∀ name ∈ names, table.record name = .ok (table.encode name, table)
  given : ∀ name symbol after, table.record name = .ok (symbol, after) → after.encode name = symbol
  refused : ∀ name error, table.record name = .error error ↔
    name ∉ names ∧ names.length = capacity ∧ error = .symbolCapacity capacity
  kept : ∀ name error, table.record name = .error error → table.offer name = table

/-- What becomes of a name that is offered: the answer, and the table after it. -/
inductive Offered (table : SymbolTable) (name : Bytes) :
    Except Error (Symbol × SymbolTable) → SymbolTable → Prop
  | known : name ∈ table.names → Offered table name (.ok (table.encode name, table)) table
  | full : name ∉ table.names → capacity ≤ table.size →
      Offered table name (.error (.symbolCapacity capacity)) table
  | new : name ∉ table.names → table.size < capacity →
      Offered table name (.ok (.ofIndex table.size, ⟨table.names ++ [name]⟩))
        ⟨table.names ++ [name]⟩

theorem offered (table : SymbolTable) (name : Bytes) :
    table.Offered name (table.record name) (table.offer name) := by
  unfold offer
  by_cases known : name ∈ table.names
  · rw [record_of_mem known]
    exact .known known
  · rw [record_of_not_mem known]
    by_cases full : capacity ≤ table.size
    · rw [if_pos full]
      exact .full known full
    · rw [if_neg full]
      exact .new known (Nat.lt_of_not_le full)

/-- The names are distinct, and there are no more of them than codes. -/
structure WellFormed (table : SymbolTable) : Prop where
  nodup : table.names.Nodup
  small : table.size ≤ capacity

namespace WellFormed

theorem offer {table : SymbolTable} (h : table.WellFormed) (name : Bytes) :
    (table.offer name).WellFormed := by
  have offered := table.offered name
  generalize table.record name = answer, table.offer name = after at offered
  cases offered with
  | known | full => exact h
  | new unknown room =>
    refine ⟨List.nodup_append.2 ⟨h.nodup, List.pairwise_singleton _ _, ?_⟩, ?_⟩
    · rintro other known _ last rfl
      rw [List.mem_singleton.1 last] at known
      exact unknown known
    · rw [size, List.length_append]
      exact room

theorem foldl_offer {table : SymbolTable} (h : table.WellFormed) (calls : List Bytes) :
    (calls.foldl SymbolTable.offer table).WellFormed := by
  induction calls generalizing table with
  | nil => exact h
  | cons name calls ih => exact ih (h.offer name)

variable {table : SymbolTable}

theorem index_lt (h : table.WellFormed) {k : Nat} {name : Bytes}
    (here : table.names[k]? = some name) : k < capacity :=
  Nat.lt_of_lt_of_le (List.getElem?_eq_some_iff.1 here).1 h.small

theorem encode_eq (h : table.WellFormed) {k : Nat} {name : Bytes}
    (here : table.names[k]? = some name) : table.encode name = .ofIndex k := by
  obtain ⟨index, there, code⟩ := encode_of_mem (List.mem_of_getElem? here)
  have inside := (List.getElem?_eq_some_iff.1 here).1
  have same : k = index := (List.getElem?_inj inside h.nodup).1 (here.trans there.symm)
  rw [code, same]

/-- An assigned code is that of the name at its place. -/
theorem exists_of_assigned (h : table.WellFormed) {symbol : Symbol} (low : 2 ≤ symbol.code.toNat)
    (high : symbol.code.toNat < table.names.length + 2) :
    ∃ (k : Nat) (name : Bytes), table.names[k]? = some name ∧ symbol = .ofIndex k := by
  obtain ⟨k, place⟩ := Nat.exists_eq_add_of_le' low
  have inside : k < table.names.length := by omega
  have here := List.getElem?_eq_getElem inside
  refine ⟨k, _, here, ?_⟩
  have value := Symbol.toNat_ofIndex (h.index_lt here)
  obtain ⟨code⟩ := symbol
  exact congrArg Symbol.mk (UInt8.toNat_inj.1 (place.trans value.symm))

theorem toList_eq (h : table.WellFormed) :
    table.toList = table.names.map fun name => (table.encode name, name) := by
  refine List.ext_getElem? fun k => ?_
  simp only [toList, List.getElem?_map, List.getElem?_zipIdx]
  cases here : table.names[k]? with
  | none => rfl
  | some name => simp [h.encode_eq here]

theorem interns (h : table.WellFormed) : table.Interns table.names where
  distinct := h.nodup
  size_eq := rfl
  size_le := h.small
  code k name here := by rw [h.encode_eq here, Symbol.toNat_ofIndex (h.index_lt here)]
  unknown _ := encode_of_not_mem
  apart _ known other := (encode_eq_iff h.small known other).1
  unreserved name known := by
    obtain ⟨k, here⟩ := List.mem_iff_getElem?.1 known
    have value := Symbol.toNat_ofIndex (h.index_lt here)
    simp [h.encode_eq here, Symbol.isReserved, UInt8.lt_iff_toNat_lt, value]
  decode_encode name known := by
    obtain ⟨k, here⟩ := List.mem_iff_getElem?.1 known
    rw [h.encode_eq here, decode_ofIndex _ (h.index_lt here), here]
    rfl
  encode_decode symbol low high := by
    obtain ⟨k, name, here, rfl⟩ := h.exists_of_assigned low high
    rw [decode_ofIndex _ (h.index_lt here), here]
    exact h.encode_eq here
  unassigned symbol high := by
    have other {reserved : Symbol} (low : reserved.code.toNat < 2) : symbol ≠ reserved := by
      rintro rfl
      omega
    have past : table.names.length ≤ symbol.code.toNat - 2 := Nat.le_sub_of_add_le high
    rw [decode, if_neg (other (by decide)), if_neg (other (by decide)),
      List.getElem?_eq_none past]
    rfl
  toList_eq := h.toList_eq
  toList_codes := by
    refine List.ext_getElem (by simp [toList]) fun k inside _ => ?_
    have bound : k < table.names.length := by simpa [toList] using inside
    have value := Symbol.toNat_ofIndex (Nat.lt_of_lt_of_le bound h.small)
    simp [toList, value, Nat.add_comm]
  known _ := record_of_mem
  given _ _ _ := encode_of_record
  refused name error := by
    by_cases known : name ∈ table.names
    · simp [record_of_mem known, known]
    · have full : capacity ≤ table.size ↔ table.names.length = capacity :=
        ⟨fun le => Nat.le_antisymm h.small le, fun eq => Nat.le_of_eq eq.symm⟩
      rw [record_of_not_mem known]
      by_cases room : capacity ≤ table.size
      · simp [room, known, full.1 room, eq_comm]
      · simp [room, mt full.2 room]
  kept name error failed := by rw [SymbolTable.offer, failed]

end WellFormed

section History

variable {table : SymbolTable}

theorem eraseDups_append_cons_of_mem {names : List Bytes} {name : Bytes} (known : name ∈ names)
    (calls : List Bytes) : (names ++ name :: calls).eraseDups = (names ++ calls).eraseDups := by
  simp [List.eraseDups_append, List.cons_removeAll, known]

theorem eraseDups_concat {names : List Bytes} {name : Bytes} (unknown : name ∉ names)
    (distinct : names.eraseDups = names) : (names ++ [name]).eraseDups = names ++ [name] := by
  simp [List.eraseDups_append, List.cons_removeAll, unknown, distinct, List.eraseDups_cons]

/-- The names of a table are those it has recorded, each where it was recorded first. -/
theorem names_foldl_offer (distinct : table.names.eraseDups = table.names) (calls : List Bytes) :
    (calls.foldl offer table).names = (table.names ++ table.recorded calls).eraseDups := by
  induction calls generalizing table with
  | nil => rw [recorded, List.append_nil, distinct, List.foldl_nil]
  | cons name calls ih =>
    have offered := table.offered name
    rw [List.foldl_cons, recorded]
    generalize table.record name = answer, table.offer name = after at offered
    cases offered with
    | known known => exact (ih distinct).trans (eraseDups_append_cons_of_mem known _).symm
    | full => exact ih distinct
    | new unknown =>
      refine (ih (eraseDups_concat unknown distinct)).trans ?_
      rw [List.append_assoc]
      rfl

/-- A table takes distinct names until it is full. -/
theorem names_foldl_offer_eq_take (distinct : table.names.eraseDups = table.names)
    (small : table.size ≤ capacity) (calls : List Bytes) :
    (calls.foldl offer table).names = (table.names ++ calls).eraseDups.take capacity := by
  induction calls generalizing table with
  | nil => rw [List.append_nil, distinct, List.take_of_length_le small, List.foldl_nil]
  | cons name calls ih =>
    have offered := table.offered name
    rw [List.foldl_cons]
    generalize table.record name = answer, table.offer name = after at offered
    cases offered with
    | known known => rw [eraseDups_append_cons_of_mem known, ih distinct small]
    | full _ full =>
      have cut (calls : List Bytes) :
          (table.names ++ calls).eraseDups.take capacity = table.names := by
        have length : capacity = table.names.length := Nat.le_antisymm full small
        rw [List.eraseDups_append, distinct, length, List.take_left]
      rw [ih distinct small, cut, cut]
    | new unknown room =>
      have small' : (⟨table.names ++ [name]⟩ : SymbolTable).size ≤ capacity := by
        rw [size, List.length_append]
        exact room
      rw [ih (eraseDups_concat unknown distinct) small', List.append_assoc]
      rfl

/-- A name that is recorded keeps its symbol. -/
theorem encode_foldl_offer {name : Bytes} (known : name ∈ table.names) (calls : List Bytes) :
    (calls.foldl offer table).encode name = table.encode name := by
  induction calls generalizing table with
  | nil => rfl
  | cons other calls ih =>
    have offered := table.offered other
    rw [List.foldl_cons]
    generalize table.record other = answer, table.offer other = after at offered
    cases offered with
    | known | full => exact ih known
    | new => exact (ih (List.mem_append_left _ known)).trans (encode_append known)

end History

/-- A table that keeps an index beside its names, and looks names up there. -/
structure Indexed where
  names : List Bytes
  index : Std.HashMap Bytes Symbol

namespace Indexed

def empty : Indexed := ⟨[], ∅⟩

def encode (table : Indexed) (name : Bytes) : Symbol := table.index[name]?.getD .wildcard

def record (table : Indexed) (name : Bytes) : Except Error (Symbol × Indexed) :=
  match table.index[name]? with
  | some symbol => .ok (symbol, table)
  | none =>
    if capacity ≤ table.names.length then .error (.symbolCapacity capacity)
    else
      let symbol := Symbol.ofIndex table.names.length
      .ok (symbol, ⟨table.names ++ [name], table.index.insert name symbol⟩)

def offer (table : Indexed) (name : Bytes) : Indexed :=
  match table.record name with
  | .ok (_, after) => after
  | .error _ => table

def history (calls : List Bytes) : Indexed := calls.foldl offer empty

/-- The names are those of a table, and the names and the index are inverse to each other. -/
structure Mirrors (indexed : Indexed) (table : SymbolTable) : Prop where
  names : indexed.names = table.names
  inverse : ∀ name symbol, indexed.index[name]? = some symbol ↔
    ∃ k : Nat, table.names[k]? = some name ∧ symbol = .ofIndex k

variable {indexed : Indexed} {table : SymbolTable}

theorem Mirrors.of_mem (h : indexed.Mirrors table) (formed : table.WellFormed) {name : Bytes}
    (known : name ∈ table.names) : indexed.index[name]? = some (table.encode name) := by
  obtain ⟨k, here⟩ := List.mem_iff_getElem?.1 known
  exact (h.inverse name _).2 ⟨k, here, formed.encode_eq here⟩

theorem Mirrors.of_not_mem (h : indexed.Mirrors table) {name : Bytes}
    (unknown : name ∉ table.names) : indexed.index[name]? = none := by
  refine Option.eq_none_iff_forall_ne_some.2 fun symbol found => ?_
  obtain ⟨k, here, -⟩ := (h.inverse name symbol).1 found
  exact unknown (List.mem_of_getElem? here)

theorem Mirrors.encode_eq (h : indexed.Mirrors table) (formed : table.WellFormed) (name : Bytes) :
    indexed.encode name = table.encode name := by
  by_cases known : name ∈ table.names
  · rw [encode, h.of_mem formed known, Option.getD_some]
  · rw [encode, h.of_not_mem known, encode_of_not_mem known, Option.getD_none]

theorem getElem?_concat_eq_some_iff {names : List Bytes} {name other : Bytes} {k : Nat} :
    (names ++ [name])[k]? = some other ↔
      names[k]? = some other ∨ k = names.length ∧ name = other := by
  rcases Nat.lt_trichotomy k names.length with old | rfl | past
  · simp [List.getElem?_append_left old, Nat.ne_of_lt old]
  · simp
  · have none : (names ++ [name])[k]? = none := by
      rw [List.getElem?_eq_none_iff, List.length_append]
      exact past
    simp [none, List.getElem?_eq_none (Nat.le_of_lt past), Nat.ne_of_gt past]

/-- One name more goes to the end of the names and into the index. -/
theorem Mirrors.insert (h : indexed.Mirrors table) {name : Bytes} (unknown : name ∉ table.names) :
    Mirrors ⟨indexed.names ++ [name], indexed.index.insert name (.ofIndex table.size)⟩
      ⟨table.names ++ [name]⟩ := by
  refine ⟨by rw [h.names], fun other symbol => ?_⟩
  simp only [Std.HashMap.getElem?_insert, beq_iff_eq, getElem?_concat_eq_some_iff]
  by_cases same : name = other
  · subst same
    simp only [if_true, Option.some.injEq]
    constructor
    · rintro rfl
      exact ⟨_, .inr ⟨rfl, trivial⟩, rfl⟩
    · rintro ⟨k, here | ⟨rfl, -⟩, rfl⟩
      · exact absurd (List.mem_of_getElem? here) unknown
      · rfl
  · simp only [same, if_false, h.inverse, and_false, or_false]

/-- A table with an index answers as one without, and the tables after it belong together. -/
theorem Mirrors.record_eq (h : indexed.Mirrors table) (formed : table.WellFormed) (name : Bytes) :
    (indexed.record name).map (·.1) = (table.record name).map (·.1) ∧
      (indexed.offer name).Mirrors (table.offer name) := by
  have offered := table.offered name
  have length : indexed.names.length = table.size := congrArg List.length h.names
  generalize table.record name = answer, table.offer name = after at offered
  unfold offer record
  cases offered with
  | known known =>
    rw [h.of_mem formed known]
    exact ⟨rfl, h⟩
  | full unknown full =>
    rw [h.of_not_mem unknown, length]
    simp only [if_pos full]
    exact ⟨rfl, h⟩
  | new unknown room =>
    rw [h.of_not_mem unknown, length]
    simp only [if_neg (Nat.not_le_of_lt room)]
    exact ⟨rfl, h.insert unknown⟩

theorem mirrors_history (calls : List Bytes) :
    (history calls).Mirrors (SymbolTable.history calls) := by
  have start : empty.Mirrors .empty := ⟨rfl, fun name symbol => by simp [empty, SymbolTable.empty]⟩
  have formed : SymbolTable.empty.WellFormed := ⟨List.nodup_nil, Nat.zero_le _⟩
  unfold history SymbolTable.history
  generalize empty = indexed, SymbolTable.empty = table at start formed
  induction calls generalizing indexed table with
  | nil => exact start
  | cons name calls ih => exact ih _ _ (start.record_eq formed name).2 (formed.offer name)

end Indexed

/-- Whatever names have been offered to an empty table, some of them again and some in vain, it holds
the distinct ones that it recorded, which are the first 254 distinct ones that were offered. The one
recorded after `k` others has the code `k + 2`, also when more names are offered later. All answers
follow from that, and a table that looks its names up in an index gives the same. -/
theorem interns_recorded (calls : List Bytes) :
    let table := history calls
    let names := (recorded empty calls).eraseDups
    table.Interns names ∧ names = calls.eraseDups.take capacity ∧
      (∀ more, ∀ name ∈ names, (history (calls ++ more)).encode name = table.encode name) ∧
      (Indexed.history calls).Mirrors table ∧ ∀ name,
        (Indexed.history calls).encode name = table.encode name ∧
        ((Indexed.history calls).record name).map (·.1) = (table.record name).map (·.1) := by
  intro table names
  have formed : table.WellFormed :=
    WellFormed.foldl_offer ⟨List.nodup_nil, Nat.zero_le _⟩ calls
  have held : table.names = names := names_foldl_offer rfl calls
  have first : table.names = calls.eraseDups.take capacity :=
    names_foldl_offer_eq_take rfl (Nat.zero_le _) calls
  have mirrors := Indexed.mirrors_history calls
  refine ⟨held ▸ formed.interns, held.symm.trans first, fun more name known => ?_, mirrors,
    fun name => ⟨mirrors.encode_eq formed name, (mirrors.record_eq formed name).1⟩⟩
  rw [history, List.foldl_append]
  exact encode_foldl_offer (held ▸ known) more

/-- The names `b`, `a` and `b` again, and then the empty name. -/
theorem interns_recorded_again :
    let calls : List Bytes := [[0x62], [0x61], [0x62]]
    let table := history calls
    table.size = 2 ∧ (table.encode [0x61]).code.toNat = 3 ∧ table.decode ⟨3⟩ = [0x61] ∧
      table.encode [] = .wildcard ∧ table.decode ⟨255⟩ = [] ∧
      (history (calls ++ [[]])).encode [0x61] = table.encode [0x61] := by
  intro calls table
  obtain ⟨interns, first, later, -⟩ := interns_recorded calls
  have names : (recorded empty calls).eraseDups = [[0x62], [0x61]] := first.trans (by decide)
  rw [names] at interns later
  have code := interns.code 1 [0x61] rfl
  have symbol : table.encode [0x61] = ⟨3⟩ := congrArg Symbol.mk (UInt8.toNat_inj.1 code)
  have back := interns.decode_encode [0x61] (by decide)
  rw [symbol] at back
  exact ⟨interns.size_eq, code, back, interns.unknown [] (by decide),
    interns.unassigned ⟨255⟩ (by decide), later [[]] [0x61] (by decide)⟩

end PathFold.SymbolTable
