import SeqPar.Token.Lexeme

/-!
# Scanning

Scanning cuts a source text into pieces: lexemes, and stray characters that no lexical rule
matches.  The pieces in order are the whole text.  The tokens among them, each with its line, are
what the parser reads.  The lines are counted while the scanner walks along the pieces: the line feeds
of a lexeme behind it, those of stray characters in front of the lexeme that follows them.

## Main definitions

* `Piece`, `pieces` — a source text cut into pieces.
* `Scanner`, `Scanner.pass` — the counters of the scanner, and what a piece does to them.
* `locate` — the tokens among the pieces, with their lines.
* `Scan`, `scan` — the result of scanning a source text.
-/

namespace SeqPar

open Lexeme (Kind lexeme?)

/-- A piece of a source text. -/
structure Piece where
  /-- What the piece is; `none` for a stray character. -/
  kind : Option Kind
  /-- The characters of the piece. -/
  text : List Char
  deriving DecidableEq, Repr

/-- The tag of a piece that is a token. -/
def Piece.tag? (p : Piece) : Option Tag :=
  match p.kind with
  | some (.token tag) => some tag
  | _ => none

/-- The number of line feeds in a text. -/
def lineFeeds (cs : List Char) : Nat :=
  cs.count '\n'

/-- A text cut into pieces, given the character before it. -/
def pieces (before : Option Char) : List Char → List Piece
  | [] => []
  | c :: cs =>
    match lexeme? before (c :: cs) with
    | none => ⟨none, [c]⟩ :: pieces (some c) cs
    | some (kind, length) =>
      let text := c :: cs.take (length - 1)
      ⟨some kind, text⟩ :: pieces text.getLast? (cs.drop (length - 1))
termination_by cs => cs.length
decreasing_by all_goals (simp only [List.length_cons, List.length_drop]; omega)

/-- The counters of a scanner that walks along the pieces of a text. -/
structure Scanner where
  /-- The line of the last lexeme's end. -/
  line : Nat
  /-- The number of line feeds among the stray characters behind the last lexeme. -/
  skipped : Nat
  /-- The position right after the last piece. -/
  offset : Nat
  /-- The position right after the last token. -/
  position : Nat
  deriving DecidableEq, Repr

namespace Scanner

/-- The scanner in front of a text. -/
def start : Scanner :=
  { line := 1, skipped := 0, offset := 0, position := 0 }

/-- The line of a lexeme that starts here. -/
def here (s : Scanner) : Nat :=
  s.line + s.skipped

/-- The scanner behind the next piece.  Stray characters are not counted before a lexeme follows. -/
def pass (s : Scanner) (p : Piece) : Scanner :=
  let offset := s.offset + p.text.length
  if p.kind.isNone then { s with skipped := s.skipped + lineFeeds p.text, offset := offset }
  else
    { line := s.here + lineFeeds p.text
      skipped := 0
      offset := offset
      position := if p.tag?.isSome then offset else s.position }

end Scanner

/-- The tokens among pieces, with the lines that the scanner has counted. -/
def locate (s : Scanner) : List Piece → List Located
  | [] => []
  | p :: ps =>
    match p.tag? with
    | some tag => ⟨⟨tag, String.ofList p.text⟩, s.here⟩ :: locate (s.pass p) ps
    | none => locate (s.pass p) ps

/-- The result of scanning a source text. -/
structure Scan where
  /-- The tokens with their lines. -/
  tokens : List Located
  /-- The line counter at the end of the text. -/
  line : Nat
  /-- The position right after the last token. -/
  position : Nat
  deriving DecidableEq, Repr

/-- Scans a source text. -/
def scan (source : String) : Scan :=
  let ps := pieces none source.toList
  let stop := ps.foldl Scanner.pass .start
  { tokens := locate .start ps
    line := stop.line
    position := stop.position }

/-- The tokens of a source text, with their lines. -/
def tokens (source : String) : List Located :=
  (scan source).tokens

end SeqPar
