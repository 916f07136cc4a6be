import SeqPar.Fault
import SeqPar.Number.Reading
import SeqPar.Text.Quoted

/-!
# Conversions between numbers and texts

Reading a number from a text and taking the whole part of a double, with the fault that says why
the conversion fails.

## Main definitions

* `intOfText` — the whole number that a text spells.
* `wholePart` — the whole part of a double.
* `floatOfInt` — the double nearest to a whole number.
-/

namespace SeqPar

open SeqPar.Number SeqPar.Text

/-- The greatest number of characters of a rejected text that a message shows. -/
def shownIntText : Nat := 200

/-- The whole number that a text spells. -/
def intOfText (s : String) : Except Fault Int :=
  match readInt s with
  | .value n => .ok n
  | .tooLong digits => .error (.longIntText digits)
  | .invalid => .error (.intText (String.ofList ((quote s).toList.take shownIntText)))

/-- The whole part of a double. -/
def wholePart (x : Float) : Except Fault Int :=
  match Binary.ofFloat? x with
  | some b => .ok b.truncate
  | none => .error (if x.isNaN then .wholeOfNotANumber else .wholeOfInfinity)

/-- Whether a double is a whole number. -/
def isWhole (x : Float) : Bool :=
  match Binary.ofFloat? x with
  | some b => b.isWhole
  | none => false

/-- The double nearest to a whole number. -/
def floatOfInt (n : Int) : Except Fault Float :=
  match nearestInt? n with
  | some x => .ok x
  | none => .error .wholeTooLarge

end SeqPar
