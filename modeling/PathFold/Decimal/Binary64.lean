/-! Rounding a ratio to a 64-bit binary float: the nearest one, and of two equally near the one whose
last bit is even. All arithmetic is exact, on natural numbers. A float is `m * 2 ^ e` with `m` below
`2 ^ 53` and `e` at least -1074, and the pattern of a positive float is `m + (e + 1074) * 2 ^ 52`
when `m` is at least `2 ^ 52` or `e` is -1074; a rounding that carries into the next power of two
comes out right in that sum. -/

namespace PathFold.Decimal

/-- The quotient rounded to the nearest whole number, a tie going to the even one. -/
def divNearestEven (num den : Nat) : Nat :=
  let q := num / den
  let r := num % den
  if 2 * r < den then q
  else if den < 2 * r then q + 1
  else q + q % 2

/-- The ratio `num / den` divided by `2 ^ e`, as a ratio again. -/
def divPow2 (num den : Nat) (e : Int) : Nat × Nat :=
  if 0 ≤ e then (num, den <<< e.toNat) else (num <<< (-e).toNat, den)

/-- The exponent at which a positive ratio has a significand of 53 bits, or the least there is. -/
def exponentOf (num den : Nat) : Int :=
  let guess : Int := (num.log2 : Int) - den.log2 - 52
  let (n, d) := divPow2 num den guess
  max (if n / d < 1 <<< 52 then guess - 1 else guess) (-1074)

/-- The pattern of positive infinity, which follows that of the greatest float. -/
def infinityBits : Nat := 0x7FF <<< 52

/-- The pattern of the float nearest to `num / den`. -/
def nearestBits (num den : Nat) : Nat :=
  if num = 0 then 0
  else
    let e := exponentOf num den
    let (n, d) := divPow2 num den e
    min infinityBits (divNearestEven n d + ((e + 1074).toNat <<< 52))

/-- Whether a decimal of this many significant digits and this exponent lies past all floats. -/
def isHuge (digits : Nat) (exponent : Int) : Bool := 310 < digits + exponent

/-- Whether such a decimal lies below half of the least float. -/
def isTiny (digits : Nat) (exponent : Int) : Bool := digits + exponent < -330

/-- The pattern of the float nearest to `significand * 10 ^ exponent`, the significand being written
with the given number of digits. -/
def nearestBitsOfDecimal (significand digits : Nat) (exponent : Int) : Nat :=
  if significand = 0 then 0
  else if isHuge digits exponent then infinityBits
  else if isTiny digits exponent then 0
  else if 0 ≤ exponent then nearestBits (significand * Nat.pow 10 exponent.toNat) 1
  else nearestBits significand (Nat.pow 10 (-exponent).toNat)

example : nearestBits 3 2 = 0x3FF8000000000000 := by decide +kernel
example : nearestBitsOfDecimal 1 1 (-1) = 0x3FB999999999999A := by decide +kernel
example : nearestBitsOfDecimal 5 1 (-324) = 1 := by decide +kernel
example : nearestBitsOfDecimal 17976931348623158 17 292 = 0x7FEFFFFFFFFFFFFF := by decide +kernel
example : nearestBitsOfDecimal 18 2 307 = infinityBits := by decide +kernel

end PathFold.Decimal
