import SeqPar.Conversion
import SeqPar.Text.Letter
import SeqPar.Text.Numeral
import SeqPar.Value.Order

/-!
# Functions on values

The built-in functions that need no machine: conversions, lengths, character classes and the
functions of mathematics.  Each takes the list of its arguments, so that the number of arguments
is checked here too.

## Main definitions

* `Value.toNumber`, `Value.length` — conversion to a number, the length of a value.
* `exponential`, `logarithm`, `squareRoot`, `sine`, `cosine`, `tangent`, `power` — real functions.
* `floorOf`, `ceilingOf`, `rounded`, `absolute` — rounding and absolute values.
-/

namespace SeqPar

open SeqPar.Number

/-! ### Conversions -/

/-- The number that a text spells: a whole number if it spells one, otherwise a double. -/
def spelledNumber? (s : String) : Option Numeric :=
  match readInt? s with
  | some n => some (.int n)
  | none => (readFloat? s).map .float

/-- The value that a line of input or a message stands for: the number that it spells, or the text
itself. -/
def decodeText (s : String) : Value :=
  match spelledNumber? s with
  | some (.int n) => .int n
  | some (.float x) => .float x
  | none => .text s

/-- How a message describes the type of a value. -/
def Value.typeText : Value → String
  | .token _ => "<class 'minipar.token.Token'>"
  | .node n =>
    match n.kindName? with
    | some kind => "<class 'minipar.ast." ++ kind ++ "'>"
    | none => "<class '" ++ n.kindName ++ "'>"
  | v => "<class '" ++ v.kindName ++ "'>"

/-- The number that a value is or spells. -/
def Value.toNumber : Value → Except Fault Value
  | .text s =>
    match spelledNumber? s with
    | some (.int n) => return .int n
    | some (.float x) => return .float x
    | none => throw (.notNumeric s)
  | v =>
    match v.numeric? with
    | some _ => return v
    | none => throw (.notConvertible v.typeText)

/-- The whole number that a value converts to: the whole part of a double, what a text spells. -/
def Value.toInt : Value → Except Fault Int
  | .text s => intOfText s
  | v =>
    match v.numeric? with
    | some (.int n) => return n
    | some (.float x) => wholePart x
    | none => throw (.notWholeConvertible v.kindName)

/-- The truth value of at most one argument. -/
def truthOf : List Value → Except Fault Value
  | [] => return .bool false
  | [v] => return .bool v.holds
  | vs => throw (.atMostOneArgument "bool" vs.length)

/-- Why a named argument of a conversion to text is refused, if it is. -/
def namedTextFault? (name : String) : Value → Option Fault
  | .text s => if s.contains '\x00' then some .nullCharacter else none
  | .nothing => some (.textArgument name "None")
  | v => some (.textArgument name v.kindName)

/-- Why a conversion to text with more than one argument fails: for the first of the further
arguments that is refused, or else because of the value itself. -/
def textArgumentsFault : List Value → Fault
  | [v, encoding] => decoding v [("encoding", encoding)]
  | [v, encoding, errors] => decoding v [("encoding", encoding), ("errors", errors)]
  | vs => .atMostArguments "str" 3 vs.length
where
  /-- Why a value is not decoded, given the named arguments. -/
  decoding (v : Value) (named : List (String × Value)) : Fault :=
    match named.findSome? fun (name, arg) => namedTextFault? name arg with
    | some fault => fault
    | none =>
      match v with
      | .text _ => .decodeText
      | v => .decodeValue v.kindName

/-! ### Lengths and characters -/

/-- The number of characters or elements of a value. -/
def Value.length : Value → Except Fault Nat
  | .text s => return s.length
  | .list items => return items.length
  | .tuple items => return items.length
  | .dict entries => return entries.length
  | v => throw (.noLength v.kindName)

/-- Whether a text is not empty and all of its characters are in a class. -/
def allInClass (p : Char → Bool) (s : String) : Bool :=
  !s.isEmpty && s.toList.all p

/-- The kind of the part of a value because of which it cannot be a key. -/
def Value.unhashable? : Value → Option String
  | .list _ => some "list"
  | .dict _ => some "dict"
  | .tuple items => unhashableIn items
  | .token _ => some "Token"
  | .node n =>
    match n with
    | .blank _ => none
    | .datum v => v.unhashable?
    | n => some n.kindName
  | _ => none
where
  /-- The first part of several values because of which they cannot be keys. -/
  unhashableIn : List Value → Option String
    | [] => none
    | v :: vs => v.unhashable?.orElse fun _ => unhashableIn vs

/-! ### Real functions -/

/-- The double of a real number. -/
def Value.toReal (v : Value) : Except Fault Float :=
  match v.numeric? with
  | some (.int n) => floatOfInt n
  | some (.float x) => return x
  | none => throw (.notReal v.kindName)

/-- The only argument of a function. -/
def onlyArgument (function : String) : List Value → Except Fault Value
  | [v] => return v
  | vs => throw (.oneArgument function vs.length)

/-- The value of a real function.  A result that is not a number for an argument that is one lies
outside the domain; an infinite result for a finite argument lies outside the range, or for a
bounded function outside the domain. -/
def realFunction (bounded : Bool) (f : Float → Float) (v : Value) : Except Fault Value := do
  let x ← v.toReal
  let y := f x
  if y.isNaN && !x.isNaN then throw .domain
  else if y.isInf && x.isFinite then throw (if bounded then .domain else .range)
  else return .float y

/-- The exponential function. -/
def exponential (args : List Value) : Except Fault Value := do
  realFunction false Float.exp (← onlyArgument "math.exp" args)

/-- The square root. -/
def squareRoot (args : List Value) : Except Fault Value := do
  realFunction true Float.sqrt (← onlyArgument "math.sqrt" args)

/-- The sine. -/
def sine (args : List Value) : Except Fault Value := do
  realFunction true Float.sin (← onlyArgument "math.sin" args)

/-- The cosine. -/
def cosine (args : List Value) : Except Fault Value := do
  realFunction true Float.cos (← onlyArgument "math.cos" args)

/-- The tangent. -/
def tangent (args : List Value) : Except Fault Value := do
  realFunction true Float.tan (← onlyArgument "math.tan" args)

/-- The natural logarithm of a whole number beyond the greatest double: the number is split into a
fraction between one half and one and a power of two. -/
def logOfLarge (n : Nat) : Float :=
  let bits := n.log2 + 1
  let fraction := (nearest? n (powTwo bits)).getD 1
  let (fraction, bits) := if fraction == 1 then (0.5, bits + 1) else (fraction, bits)
  Float.log fraction + Float.log 2 * Float.ofNat bits

/-- The natural logarithm of a value. -/
def naturalLog (v : Value) : Except Fault Float := do
  match v.numeric? with
  | some (.int n) =>
    if n ≤ 0 then throw .domain
    else match nearestInt? n with
      | some x => return Float.log x
      | none => return logOfLarge n.toNat
  | some (.float x) =>
    if x.isNaN then return x
    else if x ≤ 0 then throw .domain
    else return Float.log x
  | none => throw (.notReal v.kindName)

/-- The logarithm, natural or to a given base. -/
def logarithm : List Value → Except Fault Value
  | [v] => return .float (← naturalLog v)
  | [v, base] => do
    let num ← naturalLog v
    let den ← naturalLog base
    if den == 0 then throw .floatDivisionByZero
    else return .float (num / den)
  | _ => throw .logArguments

/-- A power of doubles. -/
def power : List Value → Except Fault Value
  | [v, w] => do
    let x ← v.toReal
    let y ← w.toReal
    let z := Float.pow x y
    if x.isFinite && y.isFinite && z.isNaN then throw .domain
    else if x.isFinite && y.isFinite && z.isInf then throw (if x == 0 then .domain else .range)
    else return .float z
  | vs => throw (.twoArguments "pow" vs.length)

/-! ### Rounding -/

/-- A value rounded to a whole number by a rule for doubles. -/
def toWhole (rule : Binary → Int) (otherwise : String → Fault) (v : Value) :
    Except Fault Value :=
  match v.numeric? with
  | some (.int n) => return .int n
  | some (.float x) =>
    match Binary.ofFloat? x with
    | some b => return .int (rule b)
    | none => throw (if x.isNaN then .wholeOfNotANumber else .wholeOfInfinity)
  | none => throw (otherwise v.kindName)

/-- The greatest whole number that is not above a value. -/
def floorOf (args : List Value) : Except Fault Value := do
  toWhole Binary.floor .notReal (← onlyArgument "math.floor" args)

/-- The least whole number that is not below a value. -/
def ceilingOf (args : List Value) : Except Fault Value := do
  toWhole Binary.ceil .notReal (← onlyArgument "math.ceil" args)

/-- The number of decimals beyond which rounding a double changes nothing. -/
def greatestDecimals : Int := 323

/-- The number of decimals below which rounding a double gives zero. -/
def leastDecimals : Int := -308

/-- A double rounded to a number of decimals, a tie to the even digit. -/
def roundFloat (x : Float) (decimals : Int) : Except Fault Float :=
  match Binary.ofFloat? x with
  | none => return x
  | some b =>
    if greatestDecimals < decimals then return x
    else if decimals < leastDecimals then return 0 * x
    else
      let (num, den) := b.ratio
      let magnitude :=
        if 0 ≤ decimals then
          let unit := powTen decimals.toNat
          nearest? (divRoundEven (num * unit) den) unit
        else
          let unit := powTen (-decimals).toNat
          nearest? (divRoundEven num (den * unit) * unit) 1
      match magnitude with
      | some y => return if b.negative then -y else y
      | none => throw .roundedTooLarge

/-- A whole number rounded to a number of decimals, a tie to the even digit. -/
def roundInt (n : Int) (decimals : Int) : Int :=
  if 0 ≤ decimals then n
  else
    let unit := powTen (-decimals).toNat
    let magnitude := divRoundEven n.natAbs unit * unit
    if n < 0 then -(magnitude : Int) else magnitude

/-- The whole number that counts decimals. -/
def Value.toDecimals (v : Value) : Except Fault Int :=
  match v.numeric? with
  | some (.int n) => return n
  | _ => throw (.notWhole v.kindName)

/-- A value rounded to the nearest whole number, or to a number of decimals. -/
def rounded : List Value → Except Fault Value
  | [] => throw .roundArgument
  | [v] | [v, .nothing] => toWhole Binary.roundEven .notRounded v
  | [v, w] =>
    match v.numeric? with
    | some (.int n) => return .int (roundInt n (← w.toDecimals))
    | some (.float x) => return .float (← roundFloat x (← w.toDecimals))
    | none => throw (.notRounded v.kindName)
  | vs => throw (.atMostArguments "round" 2 vs.length)

/-- The distance of a number from zero. -/
def absolute (args : List Value) : Except Fault Value := do
  let v ← onlyArgument "abs" args
  match v.numeric? with
  | some (.int n) => return .int n.natAbs
  | some (.float x) => return .float x.abs
  | none => throw (.noAbsolute v.kindName)

/-! ### Pauses -/

/-- The clock counts nanoseconds below this number, and from its negative on. -/
def clockLimit : Int := powTwo 63

/-- The number of nanoseconds in a second. -/
def nanosPerSecond : Nat := 1000000000

/-- The nanoseconds that the clock may show when a pause starts: ten years. -/
def longestUptime : Int := 10 * 365 * 24 * 60 * 60 * nanosPerSecond

/-- Whether the clock can count to a number of nanoseconds. -/
def fitsClock (n : Int) : Bool :=
  decide (-clockLimit ≤ n) && decide (n < clockLimit)

/-- Checks the length of a pause in nanoseconds, which the clock can count to.  A pause must not end
beyond the range of the clock. -/
def checkNanoseconds (n : Int) : Except Fault Unit :=
  if n < 0 then throw .negativePause
  else if clockLimit ≤ n + longestUptime then throw .pauseBeyondClock
  else return ()

/-- Checks the length of a pause in seconds.  A double is taken to the next whole number of
nanoseconds away from zero. -/
def checkPause (v : Value) : Except Fault Unit :=
  match v.numeric? with
  | some (.int n) =>
    let n := n * nanosPerSecond
    if fitsClock n then checkNanoseconds n else throw .pauseTooLong
  | some (.float x) =>
    match Binary.ofFloat? (x * Float.ofNat nanosPerSecond) with
    | some b =>
      let n := if b.negative then b.floor else b.ceil
      if fitsClock n then checkNanoseconds n else throw .pauseOutOfRange
    | none => throw (if x.isNaN then .pauseNotANumber else .pauseOutOfRange)
  | none => throw (.notWhole v.kindName)

end SeqPar
