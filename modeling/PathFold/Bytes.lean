/-! Byte strings. A document, a raw token and a property name are all lists of bytes; only some of
them are UTF-8. Reading one as text either succeeds exactly on UTF-8 or, for diagnostics, puts a
replacement character where the bytes go wrong. -/

namespace PathFold

abbrev Bytes := List UInt8

namespace Bytes

/-- The UTF-8 form of a text. -/
def ofText (text : String) : Bytes := text.toByteArray.toList

/-- The text that these bytes are the UTF-8 form of. -/
def toText? (bytes : Bytes) : Option String := String.fromUTF8? bytes.toByteArray

/-- The character whose UTF-8 form stands at the front. -/
def headChar? (bytes : Bytes) : Option Char := (bytes.take 4).toByteArray.utf8DecodeChar? 0

/-- The bytes that may follow a given first byte of a UTF-8 form of two bytes or more. -/
def secondBytes (first : UInt8) : UInt8 × UInt8 :=
  if first = 0xE0 then (0xA0, 0xBF)
  else if first = 0xED then (0x80, 0x9F)
  else if first = 0xF0 then (0x90, 0xBF)
  else if first = 0xF4 then (0x80, 0x8F)
  else (0x80, 0xBF)

/-- How many bytes follow the first one in a UTF-8 form, where any can. -/
def followerCount (first : UInt8) : Nat :=
  if 0xC2 ≤ first ∧ first ≤ 0xDF then 1
  else if 0xE0 ≤ first ∧ first ≤ 0xEF then 2
  else if 0xF0 ≤ first ∧ first ≤ 0xF4 then 3
  else 0

/-- The length of the longest start of a UTF-8 form that begins with `first` and goes on in `rest`;
a byte that starts no form counts by itself. -/
def subpartLength (first : UInt8) (rest : Bytes) : Nat :=
  match rest with
  | [] => 1
  | second :: others =>
    let (low, high) := secondBytes first
    if followerCount first ≠ 0 ∧ low ≤ second ∧ second ≤ high then
      2 + ((others.take (followerCount first - 1)).takeWhile (fun b => 0x80 ≤ b ∧ b ≤ 0xBF)).length
    else 1

/-- Reading as text, with one U+FFFD for each longest stretch that starts a UTF-8 form and fails to
complete it. -/
def toLossyChars (bytes : Bytes) : List Char :=
  match bytes with
  | [] => []
  | first :: rest =>
    match headChar? (first :: rest) with
    | some c => c :: toLossyChars (rest.drop (c.utf8Size - 1))
    | none => '\uFFFD' :: toLossyChars (rest.drop (subpartLength first rest - 1))
termination_by bytes.length
decreasing_by all_goals simp only [List.length_drop, List.length_cons]; omega

def toLossyText (bytes : Bytes) : String := String.ofList (toLossyChars bytes)

example : toLossyText [0x61, 0xE2, 0x82, 0x62] = "a\uFFFDb" := by cbv
example : toLossyText [0xF5, 0x80] = "\uFFFD\uFFFD" := by cbv

end Bytes

end PathFold
