import SeqPar.Text.Blank
import SeqPar.Text.Digit
import SeqPar.Text.Numeral
import SeqPar.Token.Basic

/-!
# Lexemes

A lexeme is a piece of text that one lexical rule matches.  A rule looks at the character before
the piece and at the text from the piece on, and answers with the length of the match.  The rules
are tried in a fixed order and the first that matches wins, however long the matches of later
rules would be: `output_total` starts with the lexeme `output`, and an identifier starts with none
of the words that need no word boundary.  The words of the last rules are identifiers too, and those
come first.

## Main definitions

* `Kind` — what a lexeme is: a token, or layout that carries no meaning.
* `Rule` and its builders `word`, `symbol`, `identifier`, `digits`, `quoted`, `blanks`,
  `lineComment`, `blockComment`.
* `rules`, `lateRules` — the rules in their order.
* `lexeme?` — the lexeme that a text starts with.
-/

namespace SeqPar.Lexeme

open SeqPar.Text

/-- What a lexeme is. -/
inductive Kind where
  /-- A token with the given tag. -/
  | token (tag : Tag)
  /-- Blanks or a comment. -/
  | layout
  deriving DecidableEq, Repr

/-- A lexical rule: from the character before a text and the text, the length of the lexeme that
the text starts with. -/
abbrev Rule := Option Char → List Char → Option Nat

/-- Whether a possible character is a word character. -/
def isWordAt (c : Option Char) : Bool :=
  c.any isWordChar

/-- The given characters, whatever stands around them. -/
def symbol (s : String) : Rule := fun _ cs =>
  if s.toList.isPrefixOf cs then some s.length else none

/-- The given word, with no word character before or after it. -/
def word (s : String) : Rule := fun before cs =>
  if s.toList.isPrefixOf cs && !isWordAt before && !isWordAt (cs.drop s.length).head? then
    some s.length
  else none

/-- The first of two rules that matches. -/
def either (first second : Rule) : Rule := fun before cs =>
  (first before cs).orElse fun _ => second before cs

/-- A non-empty run of characters of one class. -/
def run (p : Char → Bool) : Rule := fun _ cs =>
  match cs.takeWhile p with
  | [] => none
  | taken => some taken.length

/-- Whether an identifier may start with a character: an ASCII letter or the underscore. -/
def isIdentStart (c : Char) : Bool :=
  c.isAlpha || c == '_'

/-- Whether an identifier may go on with a character: an ASCII letter, an ASCII digit or the
underscore. -/
def isIdentChar (c : Char) : Bool :=
  c.isAlphanum || c == '_'

/-- An identifier, up to the first character that cannot belong to it. -/
def identifier : Rule := fun _ cs =>
  match cs with
  | [] => none
  | c :: rest => if isIdentStart c then some (1 + (rest.takeWhile isIdentChar).length) else none

/-- A run of decimal digits of any script. -/
def digits : Rule := run isDigit

/-- A run of blanks. -/
def blanks : Rule := run isBlank

/-- A text between two double quotes; the first quote after the opening one closes it. -/
def quoted : Rule := fun _ cs =>
  match cs with
  | '"' :: rest =>
    let body := rest.takeWhile (· != '"')
    if body.length < rest.length then some (body.length + 2) else none
  | _ => none

/-- A comment from `#` up to the end of the line. -/
def lineComment : Rule := fun _ cs =>
  match cs with
  | '#' :: rest => some (1 + (rest.takeWhile (· != '\n')).length)
  | _ => none

/-- The number of characters up to and with the first `*/` of a text. -/
def toClosing : List Char → Option Nat
  | '*' :: '/' :: _ => some 2
  | _ :: cs => (toClosing cs).map (· + 1)
  | [] => none

/-- A comment from `/*` up to the first `*/` after it. -/
def blockComment : Rule := fun _ cs =>
  match cs with
  | '/' :: '*' :: rest => (toClosing rest).map (· + 2)
  | _ => none

/-- The lexical rules, in the order in which they are tried. -/
def rules : List (Kind × Rule) :=
  [(.token .stringType, word "string"),
    (.token .intType, word "int"),
    (.token .boolType, word "bool"),
    (.token .seq, symbol "SEQ"),
    (.token .par, symbol "PAR"),
    (.token .clientChannel, symbol "c_channel"),
    (.token .serverChannel, symbol "s_channel"),
    (.token .function, word "function"),
    (.token .ifWord, symbol "if"),
    (.token .elseWord, symbol "else"),
    (.token .whileWord, symbol "while"),
    (.token .send, symbol "send"),
    (.token .receive, symbol "receive"),
    (.token .output, symbol "output"),
    (.token .returnWord, word "return"),
    (.token .bool, either (word "true") (word "false")),
    (.token .ident, identifier),
    (.token .number, digits),
    (.token .string, quoted),
    (.token .eq, symbol "=="),
    (.token .neq, symbol "!="),
    (.token .lte, symbol "<="),
    (.token .gte, symbol ">="),
    (.token .lt, symbol "<"),
    (.token .gt, symbol ">"),
    (.token .and, symbol "&&"),
    (.token .or, symbol "||"),
    (.token .not, symbol "!"),
    (.token .assign, symbol "="),
    (.token .plus, symbol "+"),
    (.token .minus, symbol "-"),
    (.token .times, symbol "*"),
    (.layout, blockComment),
    (.token .divide, symbol "/"),
    (.token .lparen, symbol "("),
    (.token .rparen, symbol ")"),
    (.token .lbrace, symbol "\x7b"),
    (.token .rbrace, symbol "\x7d"),
    (.token .comma, symbol ","),
    (.token .semicolon, symbol ";"),
    (.layout, blanks),
    (.layout, lineComment)]

/-- The lexical rules that are tried after all others. -/
def lateRules : List (Kind × Rule) :=
  [(.token (.other "INPUT"), symbol "input"),
    (.token (.other "BREAK"), symbol "break"),
    (.token (.other "CONTINUE"), symbol "continue")]

/-- The kind and the length of the match of the first of some rules that matches. -/
def firstMatch (ps : List (Kind × Rule)) (before : Option Char) (cs : List Char) :
    Option (Kind × Nat) :=
  ps.findSome? fun (kind, rule) => (rule before cs).map (kind, ·)

/-- The kind and the length of the lexeme that a text starts with, given the character before the
text. -/
def lexeme? (before : Option Char) (cs : List Char) : Option (Kind × Nat) :=
  firstMatch (rules ++ lateRules) before cs

end SeqPar.Lexeme
