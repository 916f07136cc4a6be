import SeqPar.CommandLine

/-!
# The program

Reads the source file that the command line names and the whole standard input, runs the
interpreter, and writes what it wrote.
-/

open SeqPar

/-- How a run ends: the exit code, and a message when it ends with a failure. -/
def SeqPar.Signal.ending : Signal → UInt32 × Option String
  | .fault cause => (1, some cause.message)
  | .returned _ => (1, none)
  | .interrupted => (130, none)
  | .exit code => (code.toUInt32, none)
  | .exhausted => (1, some "the program nests its calls too deeply")

/-- Runs the interpreter on a source file. -/
def main (args : List String) : IO UInt32 := do
  match Options.parse args with
  | .error code => return code.toUInt32
  | .ok (options, name) =>
    let source := universalBreaks (← IO.FS.readFile name)
    let input ← (← IO.getStdin).readToEnd
    match options.tempFile? name source with
    | some (temp, text) => IO.FS.writeFile temp text
    | none => pure ()
    let machine := Machine.initial input false none []
    match interpret (exec depthLimit) options name source machine with
    | .ok _ m =>
      IO.print m.output
      return 0
    | .error signal m =>
      IO.print m.output
      let (code, message) := signal.ending
      match message with
      | some text => IO.eprintln text
      | none => pure ()
      return code
