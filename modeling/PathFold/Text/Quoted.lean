import PathFold.Text.Extending
import PathFold.Text.Invisible
import PathFold.Text.Unassigned

/-! Quoted text for listings. Quotes and backslashes are escaped, and so is every character that a reader
could not see or tell apart from its neighbours; all others stand for themselves. -/

namespace PathFold.Text

/-- Characters that can be read wherever they stand. The first test answers for ASCII without a search. -/
def isPlain (c : Char) : Bool :=
  if c.val < 0x7F then 0x20 ≤ c.val
  else !(invisible.has c.toNat || unassigned.has c.toNat || extending.has c.toNat)

theorem isPlain_eq (c : Char) :
    isPlain c = !(invisible.has c.toNat || unassigned.has c.toNat || extending.has c.toNat) := by
  have ascii : ∀ n < 0x7F, decide (0x20 ≤ n) = !invisible.has n := by decide +kernel
  unfold isPlain
  split
  · next h =>
    have below : c.toNat < 0x7F := UInt32.lt_iff_toNat_lt.mp h
    rw [CodeRanges.not_has_of_lt 0x7F (by decide +kernel : unassigned.all _ = true) below,
      CodeRanges.not_has_of_lt 0x7F (by decide +kernel : extending.all _ = true) below,
      Bool.or_false, Bool.or_false]
    exact ascii c.toNat below
  · rfl

/-- The digits of a number in base sixteen, lower case, without padding. -/
def hex (n : Nat) : String := String.ofList (Nat.toDigits 16 n)

def quoteChar (c : Char) : String :=
  if c = '"' then "\\\""
  else if c = '\\' then "\\\\"
  else if c = '\n' then "\\n"
  else if c = '\t' then "\\t"
  else if c = '\r' then "\\r"
  else if c = '\x00' then "\\0"
  else if isPlain c then c.toString
  else "\\u\x7b" ++ hex c.toNat ++ "\x7d"

def quoted (text : String) : String :=
  "\"" ++ String.join (text.toList.map quoteChar) ++ "\""

example : quoted "a\"\x01" = "\"a\\\"\\u\x7b1\x7d\"" := by cbv

example : isPlain 'é' = true ∧ isPlain '\u0301' = false ∧ isPlain '\u200b' = false := by decide +kernel

end PathFold.Text
