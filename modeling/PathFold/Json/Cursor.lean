import PathFold.Json.Extent

/-! A cursor over the bytes of a document. It may be moved past the end, where it sees nothing;
looking at one byte never fails, while taking a stretch of bytes from out of range gives `none`. -/

namespace PathFold.Json

/-- The bytes ahead are kept beside the position, so that looking ahead does not walk the input. -/
structure Cursor where
  input : Bytes
  pos : Nat
  rest : Bytes
  rest_eq : rest = input.drop pos

namespace Cursor

def start (input : Bytes) : Cursor := ⟨input, 0, input, rfl⟩

def advance (c : Cursor) (n : Nat) : Cursor :=
  ⟨c.input, c.pos + n, c.rest.drop n, by rw [c.rest_eq, List.drop_drop]⟩

@[ext] theorem ext {c d : Cursor} (input : c.input = d.input) (pos : c.pos = d.pos) : c = d := by
  obtain ⟨ci, cp, cr, hc⟩ := c
  obtain ⟨di, dp, dr, hd⟩ := d
  simp only at input pos
  subst input pos
  simp [hc, hd]

@[simp] theorem advance_input (c : Cursor) (n : Nat) : (c.advance n).input = c.input := rfl

@[simp] theorem advance_pos (c : Cursor) (n : Nat) : (c.advance n).pos = c.pos + n := rfl

@[simp] theorem advance_rest (c : Cursor) (n : Nat) : (c.advance n).rest = c.rest.drop n := rfl

@[simp] theorem advance_zero (c : Cursor) : c.advance 0 = c := ext rfl rfl

@[simp] theorem advance_advance (c : Cursor) (n m : Nat) :
    (c.advance n).advance m = c.advance (n + m) :=
  ext rfl (Nat.add_assoc ..)

theorem length_rest (c : Cursor) : c.rest.length = c.input.length - c.pos := by
  rw [c.rest_eq, List.length_drop]

def peek (c : Cursor) : Option UInt8 := c.rest.head?

theorem rest_of_peek {c : Cursor} {b : UInt8} (h : c.peek = some b) : c.rest = b :: c.rest.tail :=
  (List.head?_eq_some_iff.1 h).elim fun _ e => by rw [e, List.tail_cons]

def peekAt (c : Cursor) (n : Nat) : Option UInt8 := c.rest[n]?

theorem peekAt_eq (c : Cursor) (n : Nat) : c.peekAt n = c.input[c.pos + n]? := by
  simp [peekAt, c.rest_eq]

/-- The bytes ahead; none once the cursor is past the end. -/
def remaining? (c : Cursor) : Option Bytes :=
  if c.pos ≤ c.input.length then some c.rest else none

def slice? (c : Cursor) (first last : Nat) : Option Bytes :=
  if first ≤ last ∧ last ≤ c.input.length then some ((c.input.drop first).take (last - first))
  else none

def skipBlanks (c : Cursor) : Cursor := c.advance (Extent.blanks c.rest)

def startsWith? (c : Cursor) (bytes : Bytes) : Option Bool :=
  c.remaining?.map (bytes.isPrefixOf ·)

/-- The position of the next quote or backslash. -/
def findDelimiter? (c : Cursor) : Option (Option Nat) :=
  c.remaining?.map fun rest =>
    let n := Extent.plain rest
    if n < rest.length then some (c.pos + n) else none

/-- Past the body of a line comment. -/
def skipLine? (c : Cursor) : Option Cursor :=
  c.remaining?.map fun rest => c.advance (Extent.line rest)

/-- Past the body of a block comment, or at the end of an unclosed one; the flag tells which. -/
def skipBlock? (c : Cursor) : Option (Bool × Cursor) :=
  c.remaining?.map fun rest =>
    match Extent.block? rest with
    | some n => (true, c.advance n)
    | none => (false, c.advance rest.length)

/-- The digits at the cursor, counted and passed. -/
def skipDigits (c : Cursor) : Nat × Cursor :=
  let n := Extent.digits c.rest
  (n, c.advance n)

end Cursor

end PathFold.Json
