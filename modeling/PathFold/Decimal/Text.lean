import PathFold.Decimal.Binary64
import PathFold.Json.Extent

/-! Numbers read from text as a whole: signed and unsigned 64-bit integers and 64-bit floats. Unlike a
numeral of a document, a plus sign and leading zeros are allowed here. -/

namespace PathFold.Decimal

open PathFold.Json (isDigit)

/-- Whether a minus leads, and what follows the sign. -/
def splitSign (text : Bytes) : Bool × Bytes :=
  match text with
  | [] => (false, [])
  | b :: rest =>
    if b = 0x2D then (true, rest)
    else if b = 0x2B then (false, rest)
    else (false, b :: rest)

/-- The number that some digits write in base ten. -/
def valueOf (digits : Bytes) : Nat := digits.foldl (fun n b => n * 10 + (b.toNat - 0x30)) 0

/-- One digit or more. -/
def natural? (text : Bytes) : Option Nat :=
  if text ≠ [] ∧ text.all isDigit then some (valueOf text) else none

/-- An integer from -2^63 up to 2^63 - 1. -/
def int64? (text : Bytes) : Option Int64 :=
  let (negative, digits) := splitSign text
  match natural? digits with
  | none => none
  | some n =>
    if negative then (if n ≤ 1 <<< 63 then some (Int64.ofInt (-n)) else none)
    else if n < 1 <<< 63 then some (Int64.ofInt n) else none

/-- An integer from 0 up to 2^64 - 1. A minus is refused, also before a zero. -/
def uint64? (text : Bytes) : Option UInt64 :=
  let (negative, digits) := splitSign text
  if negative then none
  else match natural? digits with
    | none => none
    | some n => if n < 1 <<< 64 then some (UInt64.ofNat n) else none

def lowerCase (b : UInt8) : UInt8 := if 0x41 ≤ b ∧ b ≤ 0x5A then b + 0x20 else b

/-- The exponent written at the front of the rest of a decimal: none at all is zero. -/
def exponent? (text : Bytes) : Option Int :=
  match text with
  | [] => some 0
  | b :: rest =>
    if b = 0x65 ∨ b = 0x45 then
      let (negative, digits) := splitSign rest
      (natural? digits).map fun n => if negative then -n else n
    else none

/-- The pattern of the float nearest to an unsigned decimal: digits with at most one point among them,
and an optional exponent. -/
def magnitude? (text : Bytes) : Option Nat :=
  let whole := text.takeWhile isDigit
  let afterWhole := text.drop whole.length
  let fraction := if afterWhole.head? = some 0x2E then (afterWhole.drop 1).takeWhile isDigit else []
  let afterFraction :=
    if afterWhole.head? = some 0x2E then afterWhole.drop (1 + fraction.length) else afterWhole
  if whole.isEmpty ∧ fraction.isEmpty then none
  else (exponent? afterFraction).map fun e =>
    let digits := (whole ++ fraction).dropWhile (· = 0x30)
    nearestBitsOfDecimal (valueOf digits) digits.length (e - fraction.length)

/-- The pattern of a named value: infinity under two names, or a value that is no number. -/
def named? (text : Bytes) : Option Nat :=
  let word := text.map lowerCase
  if word = Bytes.ofText "inf" ∨ word = Bytes.ofText "infinity" then some infinityBits
  else if word = Bytes.ofText "nan" then some (infinityBits + (1 <<< 51))
  else none

def float? (text : Bytes) : Option Float :=
  let (negative, body) := splitSign text
  ((named? body).orElse fun _ => magnitude? body).map fun bits =>
    Float.ofBits (UInt64.ofNat (if negative then bits + (1 <<< 63) else bits))

end PathFold.Decimal
