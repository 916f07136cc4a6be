import SeqPar.Number.Binary

/-!
# Shortest decimals

The shortest decimal of a double has the fewest digits among the decimals that read back as that
double, and of those it is the nearest.  The doubles' neighbours bound the reals that read back:
half a unit of the last place on each side, a quarter below a power of two, the ends included
when the significand is even.  For one, two, … digits the two neighbours of the value on that
decimal grid are tried, in exact arithmetic.

## Main definitions

* `Decimal` — a whole number times a power of ten.
* `shortest` — the shortest decimal of a positive double.
-/

namespace SeqPar.Number

/-- The number `digits · 10 ^ exponent`. -/
structure Decimal where
  /-- The digits, read as one number. -/
  digits : Nat
  /-- The power of ten they are scaled by. -/
  exponent : Int
  deriving DecidableEq, Repr

/-- The reals that read back as one double, and the double itself: the three numbers and the
denominator that they share. -/
structure ReadingInterval where
  /-- The lower end. -/
  low : Nat
  /-- The double. -/
  value : Nat
  /-- The upper end. -/
  high : Nat
  /-- The common denominator. -/
  den : Nat
  /-- Whether the ends belong to it. -/
  closed : Bool

/-- The interval of a double with the given significand and exponent. -/
def ReadingInterval.of (significand : Nat) (exponent : Int) : ReadingInterval :=
  let below :=
    if significand = powTwo fractionBits && leastExponent < exponent then 4 * significand - 1
    else 4 * significand - 2
  let e := exponent - 2
  let scale := if 0 ≤ e then powTwo e.toNat else 1
  { low := below * scale
    value := 4 * significand * scale
    high := (4 * significand + 2) * scale
    den := if 0 ≤ e then 1 else powTwo (-e).toNat
    closed := significand % 2 == 0 }

/-- The decimal as a ratio with denominator `den`, compared without division: both sides of
`digits · 10 ^ exponent` against `num / den`. -/
def Decimal.sides (d : Decimal) (num den : Nat) : Nat × Nat :=
  if 0 ≤ d.exponent then (d.digits * powTen d.exponent.toNat * den, num)
  else (d.digits * den, num * powTen (-d.exponent).toNat)

/-- Whether a decimal lies in the interval. -/
def ReadingInterval.contains (i : ReadingInterval) (d : Decimal) : Bool :=
  let (dLow, low) := d.sides i.low i.den
  let (dHigh, high) := d.sides i.high i.den
  if i.closed then decide (low ≤ dLow) && decide (dHigh ≤ high)
  else decide (low < dLow) && decide (dHigh < high)

/-- The least `k` with `num / den < 10 ^ k`, looked for from an estimate by binary digits that is
at most the answer and at most two below it. -/
def decimalLength (num den : Nat) : Int :=
  let estimate : Int := (floorLog2 num den * 30103).fdiv 100000
  let below (k : Int) : Bool :=
    if 0 ≤ k then decide (num < den * powTen k.toNat) else decide (num * powTen (-k).toNat < den)
  if below estimate then estimate
  else if below (estimate + 1) then estimate + 1
  else estimate + 2

/-- The two neighbours of the value on the grid of multiples of `10 ^ exponent`. -/
def ReadingInterval.neighbours (i : ReadingInterval) (exponent : Int) : Decimal × Decimal :=
  let below :=
    if 0 ≤ exponent then i.value / (i.den * powTen exponent.toNat)
    else i.value * powTen (-exponent).toNat / i.den
  (⟨below, exponent⟩, ⟨below + 1, exponent⟩)

/-- The nearer of two neighbours of the value; a tie goes to the even digit. -/
def ReadingInterval.nearer (i : ReadingInterval) (a b : Decimal) : Decimal :=
  let (aSide, value) := a.sides i.value i.den
  let (bSide, _) := b.sides i.value i.den
  let down := value - aSide
  let up := bSide - value
  if down < up then a
  else if up < down then b
  else if a.digits % 2 = 0 then a else b

/-- The first grid, from coarse to fine, with a neighbour of the value in the interval. -/
def ReadingInterval.search (i : ReadingInterval) (length : Int) : (fuel digits : Nat) → Decimal
  | 0, digits => (i.neighbours (length - digits)).1
  | fuel + 1, digits =>
    let (a, b) := i.neighbours (length - digits)
    match i.contains a, i.contains b with
    | true, true => i.nearer a b
    | true, false => a
    | false, true => b
    | false, false => i.search length fuel (digits + 1)

/-- The shortest decimal of a positive double. -/
def shortest (significand : Nat) (exponent : Int) : Decimal :=
  let i := ReadingInterval.of significand exponent
  i.search (decimalLength i.value i.den) 17 1

end SeqPar.Number
