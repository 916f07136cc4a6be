import SeqPar.Machine.Basic
import SeqPar.Text.Parts

/-!
# Recognising showcase programs

Some well-known programs are not run statement by statement: they are recognised, and a showcase
runs in their place.  A program is recognised from its tree by the names it assigns to and defines
in its sequential blocks and by the texts it writes there, or from its source by its file name and
the words in it.

## Main definitions

* `Showcase` — the showcases.
* `Evidence`, `Evidence.afterProgram` — what the sequential blocks of a program speak for.
* `detect` — the showcase of a program.
* `detectSource` — the showcase of a source file.
-/

namespace SeqPar

/-- The programs that a showcase stands in for. -/
inductive Showcase where
  /-- Trains a single neuron. -/
  | perceptron
  /-- Trains a small network on the exclusive disjunction. -/
  | xor
  /-- Recommends products. -/
  | recommender
  /-- Sorts three numbers. -/
  | sorting
  /-- Computes with two numbers. -/
  | calculator
  deriving DecidableEq, Repr

namespace Showcase

/-- The name of a showcase. -/
def name : Showcase → String
  | .perceptron => "perceptron"
  | .xor => "xor"
  | .recommender => "recommender"
  | .sorting => "sorting"
  | .calculator => "calculator"

/-- The variables that speak for a showcase when they are assigned to. -/
def assignedNames : Showcase → List String
  | .perceptron =>
    ["input_val", "output_desire", "input_weight", "learning_rate", "bias", "bias_weight"]
  | .xor => ["sigmoid", "wih00", "wih01", "who0", "who1", "d_out", "backpropagation"]
  | .recommender => ["smartphone", "jeans", "laptop", "geladeira", "score_laptop", "relu"]
  | .sorting => ["quicksort", "min2", "max2", "menor", "medio", "maior"]
  | .calculator => ["calculadora", "c_channel", "send", "receive", "op", "+", "-", "*", "/"]

/-- The functions that speak for a showcase when they are defined. -/
def definedNames : Showcase → List String
  | .perceptron => []
  | .xor => ["sigmoid", "sigmoid_deriv"]
  | .recommender => ["relu"]
  | .sorting => ["quicksort3", "min2", "max2"]
  | .calculator => []

end Showcase

/-- What the statements of a program so far speak for. -/
structure Evidence where
  /-- The number of clues for each showcase. -/
  clues : Showcase → Nat
  /-- The number of prompts for a number since the last other text. -/
  prompts : Nat
  /-- Whether there were three prompts for a number without another text between them. -/
  threePrompts : Bool

namespace Evidence

/-- No clue at all. -/
def empty : Evidence :=
  { clues := fun _ => 0, prompts := 0, threePrompts := false }

/-- The evidence with as many more clues for each showcase as a function says. -/
def add (e : Evidence) (more : Showcase → Nat) : Evidence :=
  { e with clues := fun s => e.clues s + more s }

/-- The evidence after a text is written. -/
def afterText (e : Evidence) (text : String) : Evidence :=
  let isPrompt := Text.holdsPart "Digite" text && Text.holdsPart "número" text
  let prompts := if isPrompt then e.prompts + 1 else 0
  let asksOperation := Text.holdsPart "operação" text &&
    ["+", "-", "*", "/"].any (Text.holdsPart · text)
  { e with prompts := prompts, threePrompts := e.threePrompts || decide (3 ≤ prompts) }.add
    fun s : Showcase => if asksOperation && s == Showcase.calculator then 2 else 0

/-- The evidence after one statement of a sequential block.  Writing nothing at all is a fault. -/
def afterStmt (e : Evidence) : Node → Except Fault Evidence
  | .call _ t args =>
    if t.text = "output" then
      match args with
      | [] => throw .listPosition
      | .constant _ literal :: _ => return e.afterText literal.text
      | _ => return e
    else return e
  | .assign left _ =>
    match left.token? with
    | some t => return e.add fun s => if s.assignedNames.contains t.text then 1 else 0
    | none => return e
  | .funcDef name .. => return e.add fun s => if s.definedNames.contains name then 1 else 0
  | _ => return e

/-- The evidence after statements of a sequential block. -/
def afterStmts (e : Evidence) : List Node → Except Fault Evidence
  | [] => return e
  | n :: ns => do (← e.afterStmt n).afterStmts ns

/-- The evidence after the statements of a program: only sequential blocks count. -/
def afterProgram (e : Evidence) : List Node → Except Fault Evidence
  | [] => return e
  | .seq body :: ns => do (← e.afterStmts body).afterProgram ns
  | _ :: ns => e.afterProgram ns

end Evidence

/-- The showcase of a program, if it is recognised as one. -/
def detect (stmts : List Node) : Except Fault (Option Showcase) := do
  if Node.anyTooLong stmts then throw .longInt
  let text := renderList (Node.renderAll stmts)
  let holds (part : String) : Bool := Text.holdsPart part text
  let talksToCalculator :=
    holds "calculadora" && holds "c_channel" && (holds "send" || holds "receive")
  let e ← Evidence.empty.afterProgram stmts
  if talksToCalculator || 2 ≤ e.clues .calculator then return some .calculator
  else if e.threePrompts && ["menor", "medio", "maior"].any holds then return some .sorting
  else if 3 ≤ e.clues .perceptron then return some .perceptron
  else if 2 ≤ e.clues .xor then return some .xor
  else if 3 ≤ e.clues .recommender then return some .recommender
  else if 2 ≤ e.clues .sorting then return some .sorting
  else return none

/-- The last part of a path. -/
def fileName (path : String) : String :=
  String.ofList ((Text.splitAt '/' path.toList).getLastD [])

/-- The showcase of a source file, by its name and else by the words in it. -/
def detectSource (path source : String) : Option Showcase :=
  let name := fileName path
  let named (part : String) : Bool := Text.holdsPart part name
  let holds (part : String) : Bool := Text.holdsPart part source
  if named "4quatro" then some .xor
  else if named "3tres" then some .perceptron
  else if named "5cinco" then some .recommender
  else if named "6seis" then some .sorting
  else if holds "sigmoid" && holds "who0" && holds "wih00" then some .xor
  else if holds "activation" && holds "input_val" && holds "learning_rate" then some .perceptron
  else if holds "smartphone" && holds "jeans" && holds "score_laptop" then some .recommender
  else if holds "quicksort" || (holds "min2" && holds "max2") then some .sorting
  else none

end SeqPar
