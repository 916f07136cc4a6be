/-!
# Parts of a text

Looking for a part of a text, cutting a text at every occurrence of a character and putting
another part in place of every occurrence of one.

## Main definitions

* `holds` — whether a text has a given part.
* `splitAt` — the pieces of a text between the occurrences of a character.
* `substitute` — a text with every occurrence of a part replaced, from the left.
-/

namespace SeqPar.Text

/-- Whether `part` occurs in a text. -/
def holds (part : List Char) : List Char → Bool
  | [] => part.isEmpty
  | c :: cs => part.isPrefixOf (c :: cs) || holds part cs

/-- Whether `part` occurs in a string. -/
def holdsPart (part text : String) : Bool :=
  holds part.toList text.toList

/-- The pieces of a text between the occurrences of `mark`; there is one more piece than there are
occurrences. -/
def splitAt (mark : Char) : List Char → List (List Char)
  | [] => [[]]
  | c :: cs =>
    if c == mark then [] :: splitAt mark cs
    else match splitAt mark cs with
      | [] => [[c]]
      | piece :: rest => (c :: piece) :: rest

/-- The pieces with `mark` between each two of them. -/
def join (mark : List Char) : List (List Char) → List Char
  | [] => []
  | [piece] => piece
  | piece :: rest => piece ++ mark ++ join mark rest

/-- A text with `new` in place of every occurrence of the part `old`, taken from the left without
overlap.  The characters of an occurrence still to be passed over are counted by `skip`. -/
def substituteFrom (old new : List Char) : (skip : Nat) → List Char → List Char
  | _, [] => []
  | skip + 1, _ :: cs => substituteFrom old new skip cs
  | 0, c :: cs =>
    if old.isPrefixOf (c :: cs) then new ++ substituteFrom old new (old.length - 1) cs
    else c :: substituteFrom old new 0 cs

/-- A text with `new` in place of every occurrence of the non-empty part `old`. -/
def substitute (old new : List Char) (cs : List Char) : List Char :=
  substituteFrom old new 0 cs

end SeqPar.Text
