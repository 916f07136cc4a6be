import SeqPar.Check
import SeqPar.Layout
import SeqPar.Machine.Run
import SeqPar.Options
import SeqPar.Parse.Phrase
import SeqPar.Token.Scan

/-!
# The command line

What the command does with a source file.  The source is brought into standard layout; then its
tokens are listed, its tree is shown, or it is run.  A source that is recognised by its file name or
its words is not run: its showcase is.

## Main definitions

* `universalBreaks` — the line breaks of a source file.
* `unreadable` — why a source file that does not exist cannot be read.
* `checkedProgram`, `runSource` — checking and running a source.
* `interpret` — what the command does with the text of a source file.
-/

namespace SeqPar

/-- The file that a verbose run writes: its name and its text. -/
def Options.tempFile? (o : Options) (name source : String) : Option (String × String) :=
  if o.verbose then some (Options.tempName name, Layout.standardise source) else none

/-- A text with every line break as a line feed. -/
def universalBreaks (text : String) : String :=
  String.ofList (Text.substitute ['\r'] ['\n']
    (Text.substitute ['\r', '\n'] ['\n'] text.toList))

/-- The parts of a path between slashes. -/
def pathParts (path : String) : List String :=
  (Text.splitAt '/' path.toList).map String.ofList

/-- Whether a part of a path leads to a directory whatever files there are. -/
def isDots (part : String) : Bool :=
  part == "" || part == "." || part == ".."

/-- Whether a path leads to a directory whatever files there are. -/
def isDirectoryPath (path : String) : Bool :=
  !path.isEmpty && (pathParts path).all isDots

/-- The greatest number of bytes of the name of a file. -/
def fileNameLimit : Nat := 255

/-- The greatest number of bytes of a path. -/
def pathLimit : Nat := 4095

/-- Whether a path is too long, or the first part of it that names a file is. -/
def isOverlongPath (path : String) : Bool :=
  decide (pathLimit < path.utf8ByteSize) ||
    ((pathParts path).find? fun part => !isDots part).any
      fun part => decide (fileNameLimit < part.utf8ByteSize)

/-- Why a source file that does not exist cannot be read. -/
def unreadable (path : String) : Fault :=
  if path.contains '\x00' then .nullByte
  else if isOverlongPath path then .fileNameTooLong (Text.quote path)
  else if isDirectoryPath path then .fileIsDirectory (Text.quote path)
  else .fileNotFound (Text.quote path)

open Exec

/-- The result of a parser; running out of fuel is a signal of its own. -/
def ofParse {α : Type} : Except Halt α → Exec α
  | .ok a => pure a
  | .error (.fault cause) => fail cause
  | .error .outOfFuel => throw .exhausted

/-- The checked program of a source text. -/
def checkedProgram (source : String) : Exec Node := do
  let stmts ← ofParse (programOf (tokens source))
  let _ ← ofExcept (Node.program stmts).check
  return .program stmts

/-- Lists the tokens of a source text. -/
def listTokens (source : String) : Exec Unit := do
  writeLine "\n==== Tokenization ===="
  (tokens source).forM fun t =>
    writeLine (t.token.render ++ " | line: " ++ toString t.line)

/-- Shows a source text before and after it is brought into standard layout. -/
def showSource (name source standard : String) : Exec Unit := do
  writeLine "==== Original Code ===="
  writeLine source
  writeLine "\n==== Processed Code ===="
  writeLine standard
  writeLine ("\nSaved processed code to " ++ Options.tempName name)

/-- Checks and runs a source text; a fault is written. -/
def runSource (run : Runner) (o : Options) (source : String) : Exec Unit :=
  recover
    (do
      let program ← checkedProgram source
      runOrShow run o.raw program)
    (fun cause => do
      writeLine ("Error: " ++ cause.message)
      if o.verbose then writeLine "Check the processed file for syntax issues.")

/-- What the command does with the text of a source file. -/
def interpret (run : Runner) (o : Options) (name source : String) : Exec Unit := do
  let standard := Layout.standardise source
  if o.verbose then showSource name source standard
  if o.listTokens then listTokens standard
  else if o.showTree then
    writeLine (← checkedProgram standard).render
  else
    match if o.raw then none else detectSource name source with
    | some showcase => showcase.run
    | none => runSource run o standard

end SeqPar
