import PathFold.Bytes

/-! Extents: how far a class of bytes, or a comment, reaches from the front of some bytes. Every
extent is a count of bytes and never more than there are. -/

namespace PathFold.Json

/-- The insignificant bytes between lexemes: space, tab, line feed and carriage return. -/
def isBlank (b : UInt8) : Bool := b = 0x20 || b = 0x09 || b = 0x0A || b = 0x0D

def isDigit (b : UInt8) : Bool := 0x30 ≤ b && b ≤ 0x39

/-- Bytes of a string that neither end it nor start an escape. -/
def isPlain (b : UInt8) : Bool := b ≠ 0x22 && b ≠ 0x5C

/-- Bytes that a string may hold only in escaped form. -/
def isControl (b : UInt8) : Bool := b < 0x20

namespace Extent

def blanks (bytes : Bytes) : Nat := (bytes.takeWhile isBlank).length

def digits (bytes : Bytes) : Nat := (bytes.takeWhile isDigit).length

def plain (bytes : Bytes) : Nat := (bytes.takeWhile isPlain).length

/-- The body of a line comment, with the line feed that ends it if there is one. -/
def line : Bytes → Nat
  | [] => 0
  | b :: rest => if b = 0x0A then 1 else 1 + line rest

/-- The body of a block comment with its closing `*/`, if it is closed. -/
def block? : Bytes → Option Nat
  | [] => none
  | b :: rest =>
    if b = 0x2A ∧ rest.head? = some 0x2F then some 2 else (block? rest).map (1 + ·)

theorem takeWhile_length_le (p : UInt8 → Bool) (bytes : Bytes) :
    (bytes.takeWhile p).length ≤ bytes.length := by
  induction bytes with
  | nil => simp
  | cons b rest ih => by_cases h : p b <;> simp [h]; omega

theorem blanks_le (bytes : Bytes) : blanks bytes ≤ bytes.length := takeWhile_length_le _ _

theorem digits_le (bytes : Bytes) : digits bytes ≤ bytes.length := takeWhile_length_le _ _

theorem plain_le (bytes : Bytes) : plain bytes ≤ bytes.length := takeWhile_length_le _ _

theorem line_le (bytes : Bytes) : line bytes ≤ bytes.length := by
  induction bytes with
  | nil => simp [line]
  | cons b rest ih => by_cases h : b = 0x0A <;> simp [line, h]; omega

theorem block?_le {bytes : Bytes} {n : Nat} (h : block? bytes = some n) : n ≤ bytes.length := by
  induction bytes generalizing n with
  | nil => simp [block?] at h
  | cons b rest ih =>
    unfold block? at h
    split at h
    · rename_i hb
      cases rest with
      | nil => simp at hb
      | cons c rest => simp at h; simp; omega
    · obtain ⟨m, hm, rfl⟩ := Option.map_eq_some_iff.1 h
      have := ih hm
      simp; omega

/-- The bytes after a run of a class do not begin with a byte of the class. -/
theorem drop_takeWhile_length (p : UInt8 → Bool) (bytes : Bytes) :
    bytes.drop (bytes.takeWhile p).length = bytes.dropWhile p := by
  induction bytes with
  | nil => rfl
  | cons b rest ih => by_cases h : p b <;> simp [h, ih]

theorem take_takeWhile_length (p : UInt8 → Bool) (bytes : Bytes) :
    bytes.take (bytes.takeWhile p).length = bytes.takeWhile p := by
  induction bytes with
  | nil => rfl
  | cons b rest ih => by_cases h : p b <;> simp [h, ih]

end Extent

end PathFold.Json
