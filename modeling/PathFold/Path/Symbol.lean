import PathFold.Bytes
import PathFold.Error
import PathFold.Text.Listing

/-! Symbols stand for property names in one byte. A table hands out codes in the order in which names
are first seen and never takes one back. Codes 0 and 1 are reserved: 0 for no symbol, and 1 for a
container without a name, which is also what a name the table does not hold is encoded to. -/

namespace PathFold

structure Symbol where
  code : UInt8
  deriving DecidableEq, Repr

namespace Symbol

def none : Symbol := ⟨0⟩

def wildcard : Symbol := ⟨1⟩

def isReserved (symbol : Symbol) : Bool := symbol.code < 2

/-- The symbol of the name that was recorded after `index` others. -/
def ofIndex (index : Nat) : Symbol := ⟨UInt8.ofNat (index + 2)⟩

/-- The codes of all 254 places fit into a byte. -/
theorem toNat_ofIndex {index : Nat} (h : index < 254) : (ofIndex index).code.toNat = index + 2 := by
  simp only [ofIndex, UInt8.toNat_ofNat']
  omega

def listing (symbol : Symbol) : String :=
  if symbol = none then "Symbol::NONE"
  else if symbol = wildcard then "Symbol::WILDCARD"
  else Text.listingCall "Symbol" (toString symbol.code.toNat)

end Symbol

/-- The recorded names in first-seen order. -/
structure SymbolTable where
  names : List Bytes
  deriving DecidableEq, Repr

namespace SymbolTable

def capacity : Nat := 254

def empty : SymbolTable := ⟨[]⟩

def size (table : SymbolTable) : Nat := table.names.length

def isEmpty (table : SymbolTable) : Bool := table.names.isEmpty

/-- The symbol of a recorded name, and the wildcard for any other. -/
def encode (table : SymbolTable) (name : Bytes) : Symbol :=
  match table.names.idxOf? name with
  | some index => .ofIndex index
  | none => .wildcard

/-- The symbol of a name, recorded now if it was not before. A full table still knows its names. -/
def record (table : SymbolTable) (name : Bytes) : Except Error (Symbol × SymbolTable) :=
  match table.names.idxOf? name with
  | some index => .ok (.ofIndex index, table)
  | none =>
    if capacity ≤ table.size then .error (.symbolCapacity capacity)
    else .ok (.ofIndex table.size, ⟨table.names ++ [name]⟩)

/-- The name of a symbol: `*` for the wildcard, and nothing for a code that stands for no name. -/
def decode (table : SymbolTable) (symbol : Symbol) : Bytes :=
  if symbol = .wildcard then [0x2A]
  else if symbol = .none then []
  else table.names[symbol.code.toNat - 2]?.getD []

/-- The name of a symbol as readable text. -/
def describe (table : SymbolTable) (symbol : Symbol) : String :=
  (table.decode symbol).toLossyText

/-- The recorded names with their symbols, in first-seen order. -/
def toList (table : SymbolTable) : List (Symbol × Bytes) :=
  table.names.zipIdx.map fun (name, index) => (.ofIndex index, name)

/-- The symbol of a place stands for the name at that place. -/
theorem decode_ofIndex (table : SymbolTable) {index : Nat} (h : index < capacity) :
    table.decode (.ofIndex index) = table.names[index]?.getD [] := by
  have code := Symbol.toNat_ofIndex h
  have other {symbol : Symbol} (low : symbol.code.toNat < 2) : Symbol.ofIndex index ≠ symbol := by
    rintro rfl
    omega
  rw [decode, if_neg (other (by decide)), if_neg (other (by decide)), code, Nat.add_sub_cancel]

theorem encode_of_not_mem {table : SymbolTable} {name : Bytes} (h : name ∉ table.names) :
    table.encode name = .wildcard := by
  rw [encode, List.idxOf?_eq_none_iff.2 h]

/-- A recorded name has the symbol of the place at which it stands. -/
theorem encode_of_mem {table : SymbolTable} {name : Bytes} (h : name ∈ table.names) :
    ∃ index, table.names[index]? = some name ∧ table.encode name = .ofIndex index := by
  cases found : table.names.idxOf? name with
  | none => exact absurd h (List.idxOf?_eq_none_iff.1 found)
  | some index =>
    obtain ⟨bound, same, _⟩ := List.findIdx?_eq_some_iff_getElem.1 found
    exact ⟨index, by simpa [bound] using same, by rw [encode, found]⟩

/-- Recording a known name changes nothing, also when the table is full. -/
theorem record_of_mem {table : SymbolTable} {name : Bytes} (h : name ∈ table.names) :
    table.record name = .ok (table.encode name, table) := by
  cases found : table.names.idxOf? name with
  | none => exact absurd h (List.idxOf?_eq_none_iff.1 found)
  | some index => rw [record, encode, found]

/-- A new name goes to the end, if there is room for it. -/
theorem record_of_not_mem {table : SymbolTable} {name : Bytes} (h : name ∉ table.names) :
    table.record name =
      if capacity ≤ table.size then .error (.symbolCapacity capacity)
      else .ok (.ofIndex table.size, ⟨table.names ++ [name]⟩) := by
  rw [record, List.idxOf?_eq_none_iff.2 h]

/-- Names recorded later leave the symbol of a recorded name as it is. -/
theorem encode_append {names more : List Bytes} {name : Bytes} (h : name ∈ names) :
    encode ⟨names ++ more⟩ name = encode ⟨names⟩ name := by
  unfold encode List.idxOf?
  rw [List.findIdx?_append]
  cases found : names.findIdx? (· == name) with
  | none => exact absurd h (List.idxOf?_eq_none_iff.1 found)
  | some index => rfl

/-- The symbol that recording gives is the one the name has from then on. -/
theorem encode_of_record {table after : SymbolTable} {name : Bytes} {symbol : Symbol}
    (h : table.record name = .ok (symbol, after)) : after.encode name = symbol := by
  by_cases known : name ∈ table.names
  · rw [record_of_mem known] at h
    cases h
    rfl
  · rw [record_of_not_mem known] at h
    split at h
    · cases h
    · cases h
      have absent := List.idxOf?_eq_none_iff.2 known
      unfold List.idxOf? at absent
      simp [encode, List.idxOf?, List.findIdx?_append, absent, size]

example : encode ⟨[[0x61], [0x62]]⟩ [0x62] = ⟨3⟩ := by decide
example : decode ⟨[[0x61], [0x62]]⟩ ⟨3⟩ = [0x62] := by decide
example : encode ⟨[[0x61]]⟩ [0x62] = .wildcard := by decide

end SymbolTable

end PathFold
