import SeqPar.Machine.Eval
import SeqPar.Showcase.Programs

/-!
# Running programs

Before a program runs, the variables that it assigns to are bound.  Then its statements run in
order; a statement that fails is reported by a warning and the next one runs.

## Main definitions

* `runProgram` — a program without recognising showcases.
* `runOrShow` — a program, or the showcase that stands in for it.
-/

namespace SeqPar

open Exec

/-- The value that a variable has before a program assigns to it. -/
def programStart (name : String) : Int :=
  if name == "fat" || name == "b" then 1 else 0

/-- Runs a statement of the top level; a fault is written as a warning. -/
def runTopLevel (run : Runner) (n : Node) : Exec Unit :=
  recover
    (do
      let _ ← run n
      return ())
    (fun cause => writeLine ("Warning: " ++ cause.message))

/-- Runs statements of the top level in order. -/
def runStatements (run : Runner) : List Node → Exec Unit
  | [] => return ()
  | n :: ns => do
    runTopLevel run n
    runStatements run ns

/-- Binds the variables that a program assigns to, and those of the sorting program. -/
def prepare (stmts : List Node) : Exec Unit := do
  bindTargets programStart (Node.targetsAll stmts)
  bindEverywhere "menor" (.int 0)
  bindEverywhere "medio" (.int 0)
  bindEverywhere "maior" (.int 0)

/-- Runs a program statement by statement. -/
def runProgram (run : Runner) (stmts : List Node) : Exec Unit := do
  prepare stmts
  runStatements run stmts

/-- Runs a program, or the showcase that stands in for it unless `skip` says not to look for
one. -/
def runOrShow (run : Runner) (skip : Bool) (n : Node) : Exec Unit := do
  match n with
  | .program stmts =>
    let showcase ← if skip then pure none else ofExcept (detect stmts)
    match showcase with
    | some s => s.run
    | none => runProgram run stmts
  | n => fail (.noMember n.kindName "stmts")

end SeqPar
