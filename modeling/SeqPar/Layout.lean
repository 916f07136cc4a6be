import SeqPar.Text.Blank
import SeqPar.Text.Parts

/-!
# Standard layout

Sources may leave out semicolons and braces.  Before it is scanned, a source is brought into a
standard layout, text by text:

1. line breaks become line feeds;
2. a source that is nothing but the word that opens a block gets a brace, and a source that starts
   with a block gets the brace that closes it;
3. lines with several assignments are split, one line for each;
4. assignments without semicolon get one;
5. functions that end in a `return` keep only that, in braces, and other functions, conditionals
   and loops with a single statement get braces around it.

The rules of step 5 look for a phrase anywhere in the text, also inside words, comments and
strings.  They take the phrases from the left, without overlap, and a phrase that is left as it is
still covers its text.

## Main definitions

* `Layout.standardise` — the whole transformation.
* `Layout.replaceMatches` — putting texts in place of the phrases that a matcher finds.
* `Layout.functionHead?`, `Layout.guardHead?` — how the phrases start.
-/

namespace SeqPar.Layout

open SeqPar.Text

/-! ### Opening and closing the first block -/

/-- The word that marks a block whose keyword is not final yet. -/
def blockMark : List Char := "BLOCK".toList

/-- A source that is only the word that opens a block gets its opening brace.  A parallel block is
marked until the end of the transformation. -/
def openBlock (cs : List Char) : List Char :=
  if "SEQ".toList.isPrefixOf cs && (cs.drop 3).all isBlank then "SEQ \x7b\n".toList
  else if "PAR".toList.isPrefixOf cs && (cs.drop 3).all isBlank then "BLOCK PAR \x7b\n".toList
  else cs

/-- Whether a source starts with a block in braces. -/
def startsWithBlock (cs : List Char) : Bool :=
  "BLOCK SEQ \x7b".toList.isPrefixOf cs || "BLOCK PAR \x7b".toList.isPrefixOf cs ||
    ("SEQ".toList.isPrefixOf cs && ['\x7b'].isPrefixOf (trimLeft (cs.drop 3)))

/-- A source that starts with a block in braces and does not end with a closing brace gets one. -/
def closeBlock (cs : List Char) : List Char :=
  if startsWithBlock cs && (trimRight cs).getLast? != some '\x7d' then
    trimRight cs ++ ['\n', '\x7d']
  else cs

/-! ### Lines -/

/-- The lines of a text. -/
def lines (cs : List Char) : List (List Char) :=
  splitAt '\n' cs

/-- The text of lines. -/
def unlines (ls : List (List Char)) : List Char :=
  join ['\n'] ls

/-- Whether a line is a comment. -/
def isComment (line : List Char) : Bool :=
  (trim line).head? == some '#'

/-- One part of a line between semicolons as a line of its own: an assignment is trimmed and
indented by as many spaces as it had blanks, and a blank part is left out. -/
def partLine (part : List Char) : List (List Char) :=
  if part.contains '=' then
    [List.replicate (part.length - (trimLeft part).length) ' ' ++ trim part ++ [';']]
  else if (trim part).isEmpty then []
  else [part ++ [';']]

/-- A line with an assignment and a semicolon is split at its semicolons. -/
def splitLine (line : List Char) : List (List Char) :=
  if line.contains '=' && line.contains ';' && !isComment line then
    (splitAt ';' line).flatMap partLine
  else [line]

/-- Splits the lines with several assignments. -/
def splitAssignments (cs : List Char) : List Char :=
  unlines ((lines cs).flatMap splitLine)

/-- A line with a semicolon at its end. -/
def terminated (line : List Char) : List Char :=
  if line.getLast? == some ';' then line else line ++ [';']

/-- Whether a line holds one of the words that start a conditional, a loop or a function. -/
def hasKeyword (line : List Char) : Bool :=
  ["if".toList, "while".toList, "function".toList].any (words line).contains

/-- A line that is an assignment without semicolon and without braces gets a semicolon. -/
def terminateLine (line : List Char) : List Char :=
  let trimmed := trim line
  if trimmed.isEmpty || isComment line || blockMark.isPrefixOf trimmed then line
  else if line.contains ';' || line.contains '\x7b' || line.contains '\x7d' then line
  else if line.contains '=' && !hasKeyword line then line ++ [';']
  else line

/-- Adds the semicolons that assignments lack. -/
def terminateAssignments (cs : List Char) : List Char :=
  unlines ((lines cs).map terminateLine)

/-! ### Single-neuron programs -/

/-- Whether a source is a program that trains a single neuron; those are laid out by
`tidyTraining`. -/
def isTraining (cs : List Char) : Bool :=
  holds "function activation(x)".toList cs && holds "input_val".toList cs &&
    holds "learning_rate".toList cs

/-- The lines of a training program, trimmed.  Assignments outside functions, loops and
conditionals, calls of `output` and `return` statements end with a semicolon.  Whether a line
stands inside one of those is decided by the lines so far: from a line that starts one to a line
that is a closing brace. -/
def tidyLines (inside : Bool) : List (List Char) → List (List Char)
  | [] => []
  | raw :: rest =>
    let line := trim raw
    if line.isEmpty || line.head? == some '#' then line :: tidyLines inside rest
    else if ["function".toList, "while".toList, "if".toList].any (·.isPrefixOf line) then
      line :: tidyLines true rest
    else if line == ['\x7d'] then line :: tidyLines false rest
    else if line.contains '=' && !inside then terminated line :: tidyLines inside rest
    else if "output(".toList.isPrefixOf line || "return".toList.isPrefixOf line then
      terminated line :: tidyLines inside rest
    else line :: tidyLines inside rest

/-- The layout of a training program. -/
def tidyTraining (cs : List Char) : List Char :=
  unlines (tidyLines false (lines cs))

/-! ### Phrases -/

/-- A matcher: from a text, what is put in place of the phrase that the text starts with, and the
length of that phrase. -/
abbrev Matcher := List Char → Option (List Char × Nat)

/-- A text with the phrases that a matcher finds replaced, from the left and without overlap.
The characters of a phrase still to be passed over are counted by `skip`. -/
def replaceFrom (m : Matcher) : (skip : Nat) → List Char → List Char
  | _, [] => []
  | skip + 1, _ :: cs => replaceFrom m skip cs
  | 0, c :: cs =>
    match m (c :: cs) with
    | some (replacement, length) => replacement ++ replaceFrom m (length - 1) cs
    | none => c :: replaceFrom m 0 cs

/-- A text with the phrases that a matcher finds replaced. -/
def replaceMatches (m : Matcher) (cs : List Char) : List Char :=
  replaceFrom m 0 cs

/-- The rest of a text after a word that it starts with. -/
def after? (word cs : List Char) : Option (List Char) :=
  if word.isPrefixOf cs then some (cs.drop word.length) else none

/-- A text in parentheses, up to the first closing one: the text inside and what follows. -/
def parenthesised? (cs : List Char) : Option (List Char × List Char) :=
  match cs with
  | '(' :: rest =>
    match rest.dropWhile (· != ')') with
    | [] => none
    | _ :: tail => some (rest.takeWhile (· != ')'), tail)
  | _ => none

/-- Whether a character may stand in the name of a function. -/
def isNameChar (c : Char) : Bool :=
  c.isAlphanum || c == '_'

/-- The head of a function, from the word `function` to the closing parenthesis: the name, the
parameters and what follows. -/
def functionHead? (cs : List Char) : Option (List Char × List Char × List Char) := do
  let afterWord ← after? "function".toList cs
  let named := trimLeft afterWord
  if named.length == afterWord.length then none
  let name := named.takeWhile isNameChar
  if name.isEmpty then none
  let (params, rest) ← parenthesised? (trimLeft (named.dropWhile isNameChar))
  return (name, params, rest)

/-- The head of a conditional or loop, from its word to the closing parenthesis: the condition,
which is not empty, and what follows. -/
def guardHead? (word cs : List Char) : Option (List Char × List Char) := do
  let afterWord ← after? word cs
  let (condition, rest) ← parenthesised? (trimLeft afterWord)
  if condition.isEmpty then none
  return (condition, rest)

/-- The first statement after a head, which does not start with an opening brace: one character
and then everything up to the first semicolon, and what follows. -/
def firstStatement? (cs : List Char) : Option (List Char × List Char) :=
  match cs with
  | [] => none
  | c :: rest =>
    if c == '\x7b' then none
    else match rest.dropWhile (· != ';') with
      | [] => none
      | semicolon :: tail => some (c :: rest.takeWhile (· != ';') ++ [semicolon], tail)

/-- A head and a statement in braces. -/
def braced (head statement : List Char) : List Char :=
  head ++ " \x7b\n    ".toList ++ statement ++ ['\n', '\x7d']

/-- The result after a `return`: everything up to the first semicolon, which is not empty, and
what follows the semicolon. -/
def returnResult? (cs : List Char) : Option (List Char × List Char) :=
  match cs.takeWhile (· != ';'), cs.dropWhile (· != ';') with
  | [], _ => none
  | _, [] => none
  | result, _ :: tail => some (result, tail)

/-- The first `return` with a result that comes before an opening brace: the result and what
follows its semicolon. -/
def firstReturn? : List Char → Option (List Char × List Char)
  | [] => none
  | c :: cs =>
    match (after? "return ".toList (c :: cs)).bind returnResult? with
    | some found => some found
    | none => if c == '\x7b' then none else firstReturn? cs

/-- A text after blanks and the given character, or the text itself when they do not come next. -/
def skipOptional (mark : Char) (cs : List Char) : List Char :=
  match trimLeft cs with
  | c :: rest => if c == mark then rest else cs
  | [] => cs

/-- A function that ends in a `return` becomes a function of that `return` alone. -/
def returningFunction : Matcher := fun cs => do
  let (name, params, rest) ← functionHead? cs
  let (result, tail) ← firstReturn? (skipOptional '\x7b' rest)
  let head := "function ".toList ++ name ++ '(' :: params ++ [')']
  return (braced head ("return ".toList ++ result ++ [';']),
    cs.length - (skipOptional '\x7d' tail).length)

/-- The statement after a head gets braces; with an opening brace in it everything stays as it
is. -/
def bracedStatement (cs head rest : List Char) : Option (List Char × Nat) := do
  let (statement, tail) ← firstStatement? rest
  let length := cs.length - tail.length
  if (trim statement).contains '\x7b' then return (cs.take length, length)
  else return (braced head (trim statement), length)

/-- A function with a single statement. -/
def plainFunction : Matcher := fun cs => do
  let (name, params, rest) ← functionHead? cs
  bracedStatement cs ("function ".toList ++ name ++ '(' :: params ++ [')']) rest

/-- A conditional or loop with a single statement. -/
def guarded (word : List Char) : Matcher := fun cs => do
  let (condition, rest) ← guardHead? word cs
  bracedStatement cs (word ++ ' ' :: '(' :: condition ++ [')']) rest

/-! ### The whole transformation -/

/-- The keywords of marked blocks become final. -/
def unmarkBlocks (cs : List Char) : List Char :=
  substitute "BLOCK PAR \x7b".toList "PAR \x7b".toList
    (substitute "BLOCK SEQ \x7b".toList "SEQ \x7b".toList cs)

/-- Adds semicolons and splits lines; braces come later. -/
def standardiseLines (cs : List Char) : List Char :=
  let split := splitAssignments cs
  if isTraining split then tidyTraining split else terminateAssignments split

/-- Adds the braces that functions, conditionals and loops lack. -/
def addBraces (cs : List Char) : List Char :=
  replaceMatches (guarded "while".toList) (replaceMatches (guarded "if".toList)
    (replaceMatches plainFunction (replaceMatches returningFunction cs)))

/-- A source in standard layout. -/
def standardiseChars (cs : List Char) : List Char :=
  let unbroken := substitute ['\r', '\n'] ['\n'] cs
  unmarkBlocks (addBraces (standardiseLines (closeBlock (openBlock unbroken))))

/-- A source in standard layout. -/
def standardise (source : String) : String :=
  String.ofList (standardiseChars source.toList)

end SeqPar.Layout
