import SeqPar.Number.Power

/-!
# Doubles as exact numbers

A finite double is a signed whole number times a power of two.  This module takes doubles apart
into those exact parts, rounds the parts to whole numbers, and goes back: the double nearest to a
ratio of two whole numbers.

## Main definitions

* `Binary`, `Binary.ofFloat?` — the exact parts of a finite double.
* `Binary.truncate`, `Binary.floor`, `Binary.ceil`, `Binary.roundEven` — its whole neighbours.
* `divRoundEven` — a quotient rounded to the nearest whole number, a tie to the even one.
* `nearest?`, `nearestInt?` — the double nearest to a ratio, to a whole number.
* `compareInt` — a double against a whole number, without rounding either.
-/

namespace SeqPar.Number

/-- The exact value `± significand · 2 ^ exponent` of a finite double. -/
structure Binary where
  /-- Whether the sign is minus; a zero has a sign too. -/
  negative : Bool
  /-- The whole number that is scaled. -/
  significand : Nat
  /-- The power of two it is scaled by. -/
  exponent : Int
  deriving DecidableEq, Repr

/-- The number of bits below the exponent field of a double. -/
def fractionBits : Nat := 52

/-- The exponent of the last place of the smallest doubles. -/
def leastExponent : Int := -1074

/-- The double that is not a number. -/
def nan : Float := Float.ofBits 0x7ff8000000000000

/-- The exact parts of a double; `none` for the infinities and for what is not a number. -/
def Binary.ofFloat? (x : Float) : Option Binary :=
  let bits := x.toBits.toNat
  let field := bits / powTwo fractionBits % powTwo 11
  let fraction := bits % powTwo fractionBits
  let negative := decide (powTwo 63 ≤ bits)
  if field = 2047 then none
  else if field = 0 then some ⟨negative, fraction, leastExponent⟩
  else some ⟨negative, fraction + powTwo fractionBits, leastExponent + (field - 1 : Nat)⟩

/-- The distance from zero as a ratio of two whole numbers. -/
def Binary.ratio (b : Binary) : Nat × Nat :=
  if 0 ≤ b.exponent then (b.significand * powTwo b.exponent.toNat, 1)
  else (b.significand, powTwo (-b.exponent).toNat)

/-- A whole number with the sign of `b`. -/
def Binary.signed (b : Binary) (n : Nat) : Int :=
  if b.negative then -(n : Int) else n

/-- The whole part: the nearest whole number toward zero. -/
def Binary.truncate (b : Binary) : Int :=
  b.signed (b.ratio.1 / b.ratio.2)

/-- Whether the value is a whole number. -/
def Binary.isWhole (b : Binary) : Bool :=
  b.ratio.1 % b.ratio.2 == 0

/-- The greatest whole number that is not above the value. -/
def Binary.floor (b : Binary) : Int :=
  if b.negative && !b.isWhole then b.truncate - 1 else b.truncate

/-- The least whole number that is not below the value. -/
def Binary.ceil (b : Binary) : Int :=
  if !b.negative && !b.isWhole then b.truncate + 1 else b.truncate

/-- A quotient rounded to the nearest whole number, a tie to the even one. -/
def divRoundEven (num den : Nat) : Nat :=
  let quotient := num / den
  let twice := 2 * (num % den)
  if twice < den then quotient
  else if den < twice then quotient + 1
  else if quotient % 2 = 0 then quotient else quotient + 1

/-- The nearest whole number, a tie to the even one. -/
def Binary.roundEven (b : Binary) : Int :=
  b.signed (divRoundEven b.ratio.1 b.ratio.2)

/-- The greatest `e` with `2 ^ e ≤ num / den`, for positive numbers. -/
def floorLog2 (num den : Nat) : Int :=
  let e : Int := (num.log2 : Int) - den.log2
  if 0 ≤ e then
    if num < den * powTwo e.toNat then e - 1 else e
  else
    if num * powTwo (-e).toNat < den then e - 1 else e

/-- The double nearest to `num / den`, a tie to the one with the even significand; `none` when it
lies beyond the greatest double. -/
def nearest? (num den : Nat) : Option Float :=
  if num = 0 then some (Float.ofBits 0)
  else
    let e := max (floorLog2 num den - fractionBits) leastExponent
    let significand :=
      if 0 ≤ e then divRoundEven num (den * powTwo e.toNat)
      else divRoundEven (num * powTwo (-e).toNat) den
    let bits := (e - leastExponent).toNat * powTwo fractionBits + significand
    if 2047 * powTwo fractionBits ≤ bits then none
    else some (Float.ofBits (UInt64.ofNat bits))

/-- The double nearest to a whole number; `none` when it lies beyond the greatest double. -/
def nearestInt? (n : Int) : Option Float :=
  (nearest? n.natAbs 1).map fun x => if n < 0 then -x else x

/-- The double nearest to the ratio of two whole numbers; `none` when it lies beyond the greatest
double. -/
def nearestRatio? (num den : Int) : Option Float :=
  (nearest? num.natAbs den.natAbs).map fun x =>
    if decide (num < 0) != decide (den < 0) then -x else x

/-- How a double compares with a whole number, without rounding either; `none` for what is not a
number. -/
def compareInt (x : Float) (n : Int) : Option Ordering :=
  match Binary.ofFloat? x with
  | some b =>
    let (num, den) := b.ratio
    some (compare (b.signed num) (n * den))
  | none =>
    if x.isNaN then none
    else some (if x < 0 then .lt else .gt)

end SeqPar.Number
