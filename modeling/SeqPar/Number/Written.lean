import SeqPar.Number.Shortest

/-!
# Written numbers

The texts of whole numbers and of doubles.  A double is written with the digits of its shortest
decimal: positionally when its leading digit stands for a power of ten between `10 ^ -4` and
`10 ^ 15`, with an exponent otherwise.

## Main definitions

* `FloatStyle`, `plainFloats` — the decisions of the format.
* `writeInt`, `writeFloat` — the texts.
* `intDigitLimit` — the number of digits above which a whole number has no text.
-/

namespace SeqPar.Number

/-- The longest whole number, in digits, that is read from or turned into text. -/
def intDigitLimit : Nat := 4300

/-- The number of decimal digits of a whole number. -/
def digitCount (n : Int) : Nat :=
  (Nat.toDigits 10 n.natAbs).length

/-- Whether a whole number has too many digits to be turned into text. -/
def exceedsDigitLimit (n : Int) : Bool :=
  decide (powTen intDigitLimit ≤ n.natAbs)

/-- A whole number in decimal digits. -/
def writeInt (n : Int) : String :=
  let digits := String.ofList (Nat.toDigits 10 n.natAbs)
  if n < 0 then "-" ++ digits else digits

/-- How doubles are written. -/
structure FloatStyle where
  /-- The least power of ten whose multiples are written positionally. -/
  leastPositional : Int
  /-- The greatest power of ten whose multiples are written positionally. -/
  greatestPositional : Int
  /-- The least number of digits of an exponent. -/
  exponentWidth : Nat
  /-- What stands for the infinity. -/
  infinity : String
  /-- What stands for no number. -/
  notANumber : String

/-- Positional from `10 ^ -4` to `10 ^ 15`, exponents with a sign and two digits or more. -/
def plainFloats : FloatStyle :=
  { leastPositional := -4
    greatestPositional := 15
    exponentWidth := 2
    infinity := "inf"
    notANumber := "nan" }

/-- The digits of a number without the zeros at its end, and the number of those zeros. -/
def trimZeros : (fuel : Nat) → Nat → Nat × Nat
  | 0, n => (n, 0)
  | fuel + 1, n =>
    if n ≠ 0 && n % 10 == 0 then
      let (digits, zeros) := trimZeros fuel (n / 10)
      (digits, zeros + 1)
    else (n, 0)

/-- The text of a positive decimal. -/
def FloatStyle.writeDecimal (style : FloatStyle) (d : Decimal) : List Char :=
  let (significant, zeros) := trimZeros 20 d.digits
  let digits := Nat.toDigits 10 significant
  let last : Int := d.exponent + zeros
  let lead : Int := last + digits.length - 1
  if style.leastPositional ≤ lead && lead ≤ style.greatestPositional then
    if 0 ≤ last then digits ++ List.replicate last.toNat '0' ++ ['.', '0']
    else if 0 ≤ lead then
      digits.take (lead.toNat + 1) ++ '.' :: digits.drop (lead.toNat + 1)
    else '0' :: '.' :: List.replicate (-lead - 1).toNat '0' ++ digits
  else
    let power := Nat.toDigits 10 lead.natAbs
    let fraction := match digits.drop 1 with
      | [] => []
      | rest => '.' :: rest
    digits.take 1 ++ fraction ++ 'e' :: (if lead < 0 then '-' else '+') ::
      List.replicate (style.exponentWidth - power.length) '0' ++ power

/-- The text of a double. -/
def FloatStyle.write (style : FloatStyle) (x : Float) : String :=
  match Binary.ofFloat? x with
  | none =>
    if x.isNaN then style.notANumber
    else if x < 0 then "-" ++ style.infinity else style.infinity
  | some b =>
    let sign := if b.negative then ['-'] else []
    if b.significand = 0 then String.ofList (sign ++ ['0', '.', '0'])
    else String.ofList (sign ++ style.writeDecimal (shortest b.significand b.exponent))

/-- The text of a double, by its shortest decimal. -/
def writeFloat (x : Float) : String :=
  plainFloats.write x

end SeqPar.Number
