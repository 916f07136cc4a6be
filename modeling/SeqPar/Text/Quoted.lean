import SeqPar.Text.Printable

/-!
# Quoted texts

The quoted form of a text stands between two quotes: apostrophes, unless the text holds an
apostrophe and no double quote.  The quote in use and the backslash are escaped by a backslash,
line feed, carriage return and tab by a letter, and every other character that is not printable
by its code point in hexadecimal.

## Main definitions

* `escapeChar` — the form of one character inside quotes.
* `quote` — the quoted form of a text.
-/

namespace SeqPar.Text

/-- The lowest `width` hexadecimal digits of a number, highest digit first. -/
def hexDigits : (width : Nat) → Nat → List Char
  | 0, _ => []
  | width + 1, n => hexDigits width (n / 16) ++ [Nat.digitChar (n % 16)]

/-- The form of one character between the quotes `mark`. -/
def escapeChar (mark c : Char) : List Char :=
  if c == mark || c == '\\' then ['\\', c]
  else if c == '\n' then ['\\', 'n']
  else if c == '\r' then ['\\', 'r']
  else if c == '\t' then ['\\', 't']
  else if isPrintable c then [c]
  else if c.toNat < 0x100 then '\\' :: 'x' :: hexDigits 2 c.toNat
  else if c.toNat < 0x10000 then '\\' :: 'u' :: hexDigits 4 c.toNat
  else '\\' :: 'U' :: hexDigits 8 c.toNat

/-- The quote that a text is written between. -/
def quoteMark (cs : List Char) : Char :=
  if cs.contains '\'' && !cs.contains '"' then '"' else '\''

/-- The quoted form of a text. -/
def quote (s : String) : String :=
  let mark := quoteMark s.toList
  String.ofList (mark :: s.toList.flatMap (escapeChar mark) ++ [mark])

end SeqPar.Text
