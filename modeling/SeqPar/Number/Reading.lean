import SeqPar.Number.Written
import SeqPar.Text.Blank
import SeqPar.Text.Digit

/-!
# Reading numbers from texts

A text reads as a whole number when, without its outer blanks, it is an optional sign and digits
of any script, with single underscores allowed between digits.  It reads as a double when it has
a point or an exponent as well, or spells an infinity or no number.

## Main definitions

* `readInt` — a text read as a whole number, with a limit on its digits.
* `readInt?` — the whole number a text spells.
* `readFloat?` — the double nearest to the decimal that a text spells.
-/

namespace SeqPar.Number

open SeqPar.Text

/-- Whether a character may surround a number: a blank other than the information separators. -/
def isNumberBlank (c : Char) : Bool :=
  isBlank c && !(decide (0x1c ≤ c.toNat) && decide (c.toNat ≤ 0x1f))

/-- A text without the blanks around it that a number may have. -/
def trimNumber (cs : List Char) : List Char :=
  ((cs.dropWhile isNumberBlank).reverse.dropWhile isNumberBlank).reverse

/-- A sign in front of a number: whether it is minus, and what follows it. -/
def takeSign : List Char → Bool × List Char
  | '-' :: cs => (true, cs)
  | '+' :: cs => (false, cs)
  | cs => (false, cs)

/-- A run of digits with single underscores between them, read after a digit: the values of the
digits and what follows the run. -/
def takeDigitsAfter : List Char → List Nat × List Char
  | [] => ([], [])
  | '_' :: c :: cs =>
    match digitValue? c with
    | some d =>
      let (ds, rest) := takeDigitsAfter cs
      (d :: ds, rest)
    | none => ([], '_' :: c :: cs)
  | c :: cs =>
    match digitValue? c with
    | some d =>
      let (ds, rest) := takeDigitsAfter cs
      (d :: ds, rest)
    | none => ([], c :: cs)

/-- A run of digits with single underscores between them, from its first digit. -/
def takeDigits : List Char → List Nat × List Char
  | [] => ([], [])
  | c :: cs =>
    match digitValue? c with
    | some d =>
      let (ds, rest) := takeDigitsAfter cs
      (d :: ds, rest)
    | none => ([], c :: cs)

/-- The number that decimal digits stand for. -/
def ofDigits (ds : List Nat) : Nat :=
  ds.foldl (fun n d => 10 * n + d) 0

/-- What a text spells when it is read as a whole number. -/
inductive IntReading where
  /-- No whole number. -/
  | invalid
  /-- A whole number with this many digits, which are too many. -/
  | tooLong (digits : Nat)
  /-- This whole number. -/
  | value (n : Int)
  deriving DecidableEq, Repr

/-- Reads a text as a whole number.  A misplaced underscore is noticed before an excess of digits,
and any other misplaced character after it. -/
def readInt (s : String) : IntReading :=
  let (negative, body) := takeSign (trimNumber s.toList)
  match takeDigits body with
  | ([], _) => .invalid
  | (_, '_' :: _) => .invalid
  | (ds, rest) =>
    if intDigitLimit < ds.length then .tooLong ds.length
    else if rest.isEmpty then .value (if negative then -(ofDigits ds : Int) else ofDigits ds)
    else .invalid

/-- The whole number that a text spells. -/
def readInt? (s : String) : Option Int :=
  match readInt s with
  | .value n => some n
  | _ => none

/-- The double nearest to `n · 10 ^ e`, an infinity when it lies beyond the greatest double.  Far
outside the range of the doubles the answer is known from the number of digits alone. -/
def nearestDecimal (n : Nat) (digits : Nat) (e : Int) : Float :=
  let infinity := Float.ofBits 0x7ff0000000000000
  if n = 0 then Float.ofBits 0
  else if 400 < e + digits then infinity
  else if e + digits < -400 then Float.ofBits 0
  else
    let x := if 0 ≤ e then nearest? (n * powTen e.toNat) 1 else nearest? n (powTen (-e).toNat)
    x.getD infinity

/-- An exponent part: `e` or `E`, an optional sign and digits. -/
def takeExponent : List Char → Option (Int × List Char)
  | c :: cs =>
    if c == 'e' || c == 'E' then
      let (negative, body) := takeSign cs
      match takeDigits body with
      | ([], _) => none
      | (ds, rest) => some (if negative then -(ofDigits ds : Int) else ofDigits ds, rest)
    else some (0, c :: cs)
  | [] => some (0, [])

/-- A decimal without sign: digits, a point, digits and an exponent; digits on one side of the
point are enough. -/
def readDecimal? (cs : List Char) : Option Float :=
  let (whole, afterWhole) := takeDigits cs
  let (fraction, afterFraction) := match afterWhole with
    | '.' :: rest => takeDigits rest
    | rest => ([], rest)
  if whole.isEmpty && fraction.isEmpty then none
  else match takeExponent afterFraction with
    | some (e, []) =>
      let ds := (whole ++ fraction).dropWhile (· == 0)
      some (nearestDecimal (ofDigits ds) ds.length (e - fraction.length))
    | _ => none

/-- The small letter of an ASCII capital. -/
def lowerAscii (cs : List Char) : List Char :=
  cs.map Char.toLower

/-- An unsigned double: a decimal, or a word for an infinity or for no number. -/
def readUnsigned? (cs : List Char) : Option Float :=
  let word := lowerAscii cs
  if word == "inf".toList || word == "infinity".toList then
    some (Float.ofBits 0x7ff0000000000000)
  else if word == "nan".toList then some nan
  else readDecimal? cs

/-- The double that a text spells. -/
def readFloat? (s : String) : Option Float :=
  let (negative, body) := takeSign (trimNumber s.toList)
  (readUnsigned? body).map fun x => if negative then -x else x

end SeqPar.Number
