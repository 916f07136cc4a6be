/-!
# Sets of characters given by ranges

The character classes of the Unicode standard are unions of ranges of code points.  A class is
stored as the ascending list of its ranges, and membership is looked up in that list.

## Main definitions

* `Ranges`, `Ranges.contains` — a class of characters and the membership test.
-/

namespace SeqPar.Text

/-- A set of characters: inclusive ranges of code points, in ascending order. -/
abbrev Ranges := List (Nat × Nat)

/-- Whether a code point lies in one of the ranges.  The ranges ascend, so the search ends at the
first range that starts above the code point. -/
def Ranges.containsCode : Ranges → Nat → Bool
  | [], _ => false
  | (low, high) :: rest, code =>
    if code < low then false
    else if code ≤ high then true
    else containsCode rest code

/-- Whether a character lies in one of the ranges. -/
def Ranges.contains (table : Ranges) (c : Char) : Bool :=
  table.containsCode c.toNat

end SeqPar.Text
