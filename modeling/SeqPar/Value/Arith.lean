import SeqPar.Conversion
import SeqPar.Value.Order

/-!
# Arithmetic on values

Operands are numbers of either kind.  A text that spells a finite double counts as the whole part
of that double, a truth value as zero or one and every other value as zero; a double that is a
whole number counts as that number.  Whole numbers are of any size, and as soon as an operand is a
double the operation is one on doubles.

## Main definitions

* `numberOfText` — the number that a text counts as.
* `Value.operand` — the number that an operand counts as.
* `arithmetic` — the five operations, by the text of their operator.
* `Value.compared` — a value as a comparison sees it.
-/

namespace SeqPar

open SeqPar.Number

/-- A number as a value. -/
def Numeric.toValue : Numeric → Value
  | .int n => .int n
  | .float x => .float x

/-- The number that a text counts as: the whole part of the double that it spells.  A text that
spells no double counts as no number, and one that spells an infinity has no whole part. -/
def numberOfText (s : String) : Except Fault (Option Numeric) :=
  match readFloat? s with
  | none => return none
  | some x =>
    if x.isNaN then return some (.float x)
    else return some (.int (← wholePart x))

/-- A number with a whole double made a whole number. -/
def Numeric.simplify : Numeric → Numeric
  | .int n => .int n
  | .float x =>
    match Binary.ofFloat? x with
    | some b => if b.isWhole then .int b.truncate else .float x
    | none => .float x

/-- The double of a number. -/
def Numeric.toFloat : Numeric → Except Fault Float
  | .int n => floatOfInt n
  | .float x => return x

/-- The number that an operand counts as. -/
def Value.operand (v : Value) : Except Fault Numeric := do
  let number ← match v with
    | .text s =>
      match (← numberOfText s) with
      | some number => pure number
      | none => throw (.floatText (Text.quote s))
    | v => pure (v.numeric?.getD (.int 0))
  return number.simplify

/-- An operation on doubles unless both operands are whole numbers. -/
def Numeric.combine (whole : Int → Int → Int) (double : Float → Float → Float) :
    Numeric → Numeric → Except Fault Numeric
  | .int a, .int b => return .int (whole a b)
  | a, b => return .float (double (← a.toFloat) (← b.toFloat))

/-- Whether a number is zero. -/
def Numeric.isZero : Numeric → Bool
  | .int n => n == 0
  | .float x => x == 0

/-- The quotient of two numbers. -/
def Numeric.divide (a b : Numeric) : Except Fault Numeric := do
  if b.isZero then throw .divisionByZero
  else match a, b with
    | .int m, .int n =>
      match nearestRatio? m n with
      | some x => return .float x
      | none => throw .quotientTooLarge
    | a, b => return .float ((← a.toFloat) / (← b.toFloat))

/-- The remainder of two finite doubles, computed on whole numbers: it has the sign of the
first. -/
def remainderTowardZero (x y : Binary) : Option Float :=
  let (xNum, xDen) := x.ratio
  let (yNum, yDen) := y.ratio
  let r := xNum * yDen % (yNum * xDen)
  (nearest? r (xDen * yDen)).map fun z => if x.negative then -z else z

/-- The remainder of two doubles that belongs to the quotient rounded down: it has the sign of the
divisor. -/
def floatRemainder (x y : Float) : Float :=
  let towardZero :=
    match Binary.ofFloat? x, Binary.ofFloat? y with
    | some a, some b => (remainderTowardZero a b).getD x
    | some _, none => if y.isNaN then y else x
    | none, _ => nan
  if towardZero == 0 then (if y < 0 then -(Float.ofBits 0) else Float.ofBits 0)
  else if decide (y < 0) != decide (towardZero < 0) then towardZero + y
  else towardZero

/-- The remainder of two numbers, with the sign of the divisor. -/
def Numeric.modulo (a b : Numeric) : Except Fault Numeric := do
  if b.isZero then throw .moduloByZero
  else a.combine Int.fmod floatRemainder b

/-- The operation of an operator on two numbers. -/
def Numeric.operate (operator : String) (a b : Numeric) : Except Fault Numeric :=
  match operator with
  | "+" => a.combine (· + ·) (· + ·) b
  | "-" => a.combine (· - ·) (· - ·) b
  | "*" => a.combine (· * ·) (· * ·) b
  | "/" => a.divide b
  | "%" => a.modulo b
  | _ => throw (.unknownOperator operator)

/-- The operation of an operator on two values.  Every fault is one of the operation. -/
def arithmetic (operator : String) (left right : Value) : Except Fault Value :=
  let result : Except Fault Value := do
    let a ← left.operand
    let b ← right.operand
    return (← Numeric.operate operator a b).simplify.toValue
  result.mapError .inArithmetic

/-- A value as a comparison sees it: a text counts as the number that it spells, if it spells one,
and a whole double as a whole number. -/
def Value.compared (v : Value) : Except Fault Value := do
  let number ← match v with
    | .text s => numberOfText s
    | .float x => pure (some (Numeric.float x))
    | _ => pure none
  return match number with
    | some number => number.simplify.toValue
    | none => v

/-- The comparison of an operator on two values; an operator that is no comparison never holds. -/
def relational (operator : String) (left right : Value) : Except Fault Bool := do
  let a ← left.compared
  let b ← right.compared
  match operator with
  | "==" => return a.same b
  | "!=" => return !a.same b
  | "<" => a.compare .lt b
  | ">" => a.compare .gt b
  | "<=" => a.compare .le b
  | ">=" => a.compare .ge b
  | _ => return false

/-- The value that an assignment stores: a text that spells a number becomes the number. -/
def Value.stored : Value → Except Fault Value
  | .text s => do
    match (← numberOfText s) with
    | some number => return number.toValue
    | none => return .text s
  | v => return v

/-- A value times minus one: a number is negated and a sequence becomes empty. -/
def Value.negated : Value → Except Fault Value
  | .text _ => return .text ""
  | .list _ => return .list []
  | .tuple _ => return .tuple []
  | v =>
    match v.numeric? with
    | some (.int n) => return .int (-n)
    | some (.float x) => return .float (x * -1)
    | none => throw (.notMultiplied v.kindName)

/-- Whether a loop goes on after its condition has given a value: a text that spells a number
counts as that number. -/
def Value.continuesLoop : Value → Bool
  | .text s =>
    match readFloat? s with
    | some x => x != 0
    | none => !s.isEmpty
  | v => v.holds

end SeqPar
