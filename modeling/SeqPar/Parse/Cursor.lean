import SeqPar.Fault
import SeqPar.Token.Basic

/-!
# Reading along a list of tokens

A parser reads tokens from left to right with one token of lookahead.  Past the last token the
lookahead is the end of the input, however often it is passed over.

A parser that fails leaves its cursor where the failure was noticed, so that the caller can go on
from there.

## Main definitions

* `Cursor` — a place in a list of tokens.
* `StopSet` — the tags at which a search stops.
* `Parser` — computations that move a cursor and may fail.
* `peek`, `advance`, `accept`, `skipTo`, `recover` — the parsers that all others are made of.
-/

namespace SeqPar

/-- A place in a list of tokens. -/
structure Cursor where
  /-- The tokens that are still ahead, the lookahead first. -/
  ahead : List Located
  /-- The line of the token that was passed last. -/
  passed : Int
  deriving DecidableEq, Repr, Inhabited

/-- The lookahead. -/
def Cursor.look (c : Cursor) : Token :=
  match c.ahead with
  | [] => .endOfInput
  | t :: _ => t.token

/-- The line of the lookahead; at the end of the input, the line of the last token. -/
def Cursor.line (c : Cursor) : Int :=
  match c.ahead with
  | [] => c.passed
  | t :: _ => t.line

/-- The place after the lookahead. -/
def Cursor.advance (c : Cursor) : Cursor :=
  match c.ahead with
  | [] => c
  | t :: rest => ⟨rest, t.line⟩

/-- The tokens ahead from the first one with a tag that stops the search. -/
def Cursor.skipFrom (stop : Tag → Bool) (passed : Int) : List Located → Cursor
  | [] => ⟨[], passed⟩
  | t :: rest => if stop t.token.tag then ⟨t :: rest, passed⟩ else skipFrom stop t.line rest

/-- The next place whose lookahead has a tag that stops the search, or the end of the input. -/
def Cursor.skipTo (stop : Tag → Bool) (c : Cursor) : Cursor :=
  Cursor.skipFrom stop c.passed c.ahead

/-- Tags that stop a search.  The end of the input is one of them, so that every search comes to an
end. -/
structure StopSet where
  tags : List Tag
  endOfInput_mem : .endOfInput ∈ tags

/-- The start of a list of tokens, which must not be empty. -/
def Cursor.start? : List Located → Option Cursor
  | [] => none
  | t :: rest => some ⟨t :: rest, t.line⟩

/-- Why a parser stops without a result. -/
inductive Halt where
  /-- The tokens do not form what the parser reads. -/
  | fault (cause : Fault)
  /-- The bound on the depth of the parser was reached. -/
  | outOfFuel
  deriving DecidableEq, Repr, Inhabited

/-- Computations that move a cursor and may fail. -/
abbrev Parser := EStateM Halt Cursor

namespace Parser

/-- The lookahead. -/
def peek : Parser Token :=
  return (← get).look

/-- The tag of the lookahead. -/
def peekTag : Parser Tag :=
  return (← get).look.tag

/-- The text of the lookahead. -/
def peekText : Parser String :=
  return (← get).look.text

/-- Passes over the lookahead. -/
def advance : Parser Unit :=
  modify Cursor.advance

/-- Passes over the lookahead if it has the given tag. -/
def accept (tag : Tag) : Parser Unit := do
  if (← peekTag) = tag then advance

/-- Passes over the lookahead and gives its text, if it has the given tag; gives its text in any
case. -/
def textThen (tag : Tag) : Parser String := do
  let text ← peekText
  accept tag
  return text

/-- Goes on to the next token with one of the given tags. -/
def skipTo (stops : StopSet) : Parser Unit :=
  modify (Cursor.skipTo stops.tags.contains)

/-- Fails with the fault that belongs to the line of the lookahead. -/
def failAt {α : Type} (fault : Int → Fault) : Parser α := do
  throw (.fault (fault (← get).line))

/-- Fails with a fault. -/
def fail {α : Type} (fault : Fault) : Parser α :=
  throw (.fault fault)

/-- Stops because the bound on the depth was reached. -/
def outOfFuel {α : Type} : Parser α :=
  throw .outOfFuel

/-- Goes on with `handler` from the place where `p` failed with a fault. -/
def recover {α : Type} (p handler : Parser α) : Parser α := fun c =>
  match p c with
  | .error (.fault _) c' => handler c'
  | result => result

end Parser

end SeqPar
