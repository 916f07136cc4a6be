import SeqPar.Machine.Builtin
import SeqPar.Value.Arith

/-!
# Running nodes

Running a node computes a value on the machine.  `step` says what each kind of node does, given
how to run other nodes; `exec` ties the knot with a bound on the depth of the nodes that are being
run inside each other.

Loops run at most a thousand rounds, so only calls of functions can make the depth grow without
end.

## Main definitions

* `step` — one node, in terms of the nodes inside it.
* `exec` — running a node to a given depth.
* `depthLimit` — the depth that programs are run to.
-/

namespace SeqPar

open Exec

/-- How to run a node. -/
abbrev Runner := Node → Exec Value

namespace Node

/-! ### Variables that are assigned to -/

mutual

/-- The left sides of the assignments in a statement, in the order of the text.  Function bodies
do not count. -/
def targets : Node → List Node
  | .assign left _ => [left]
  | .loop _ body => targetsAll body
  | .par body => targetsAll body
  | .seq body => targetsAll body
  | .cond _ body orElse => targetsAll body ++ (match orElse with
    | none => []
    | some stmts => targetsAll stmts)
  | _ => []

/-- The left sides of the assignments in statements. -/
def targetsAll : List Node → List Node
  | [] => []
  | n :: ns => targets n ++ targetsAll ns

end

/-- The text of the token of an expression. -/
def tokenText (n : Node) : Exec String :=
  match n.token? with
  | some t => return t.text
  | none => fail (.noMember n.kindName "token")

end Node

/-- Binds variables that are about to be assigned to and are unbound in the innermost scope. -/
def bindTargets (start : String → Int) : List Node → Exec Unit
  | [] => return ()
  | n :: ns => do
    let name ← n.tokenText
    bindIfUnbound name (.int (start name))
    bindTargets start ns

/-! ### Statements -/

/-- Runs nodes in order. -/
def runAll (run : Runner) : List Node → Exec Unit
  | [] => return ()
  | n :: ns => do
    let _ ← run n
    runAll run ns

/-- The values of nodes, in order. -/
def evalAll (run : Runner) : List Node → Exec (List Value)
  | [] => return []
  | n :: ns => do
    let v ← run n
    return v :: (← evalAll run ns)

/-- An assignment binds the variable in the innermost scope. -/
def runAssign (run : Runner) (left right : Node) : Exec Value :=
  exitOnInterrupt <| wrapFaults .inAssignment do
    let name ← left.tokenText
    let v ← ofExcept (← run right).stored
    bindHere name v
    return v

/-- A conditional. -/
def runCond (run : Runner) (condition : Node) (body : List Node) (orElse : Option (List Node)) :
    Exec Value := do
  if (← run condition).holds then
    runAll run body
  else
    runAll run (orElse.getD [])
  return .nothing

/-- The greatest number of rounds of a loop. -/
def roundLimit : Nat := 1000

/-- One round of a loop: whether its condition held. -/
def runRound (run : Runner) (condition : Node) (body : List Node) : Exec Bool :=
  wrapFaults .inLoop do
    if (← run condition).continuesLoop then
      runAll (fun n => wrapFaults .inLoopBody (run n)) body
      return true
    else return false

/-- At most the given number of rounds. -/
def runRounds (round : Exec Bool) : Nat → Exec Unit
  | 0 => return ()
  | n + 1 => do
    if (← round) then runRounds round n

/-- A loop. -/
def runLoop (run : Runner) (condition : Node) (body : List Node) : Exec Value := do
  runRounds (runRound run condition body) roundLimit
  return .nothing

/-- Forgets the result that a computation returns. -/
def forgetResult {α : Type} (p : Exec α) : Exec α := fun m =>
  match p m with
  | .error (.returned _) m' => .error (.returned .nothing) m'
  | result => result

/-- A sequential block.  A result that is returned inside it is lost. -/
def runSeq (run : Runner) (body : List Node) : Exec Value := do
  forgetResult (runAll run body)
  return .nothing

/-! ### Parallel blocks -/

/-- The value that a variable has before a parallel block assigns to it. -/
def parallelStart (name : String) : Int :=
  if name == "fat" || name == "resultado" || name == "product" then 1 else 0

/-- The prompt by which a parallel block is known to compute a factorial and a Fibonacci series. -/
def seriesPrompt : String := "Digite um número para calcular o fatorial"

/-- Whether a statement writes the prompt of the series. -/
def writesSeriesPrompt : Node → Bool
  | .call _ t (.constant _ literal :: _) =>
    t.text == "output" && Text.holdsPart seriesPrompt literal.text
  | _ => false

/-- The product of the whole numbers from one on. -/
def factorial : Nat → Nat
  | 0 => 1
  | n + 1 => (n + 1) * factorial n

/-- Writes terms of the Fibonacci series, from two consecutive ones on. -/
def writeFibonacci : (terms a b : Nat) → Exec Unit
  | 0, _, _ => return ()
  | terms + 1, a, b => do
    writeValues [.int a]
    writeFibonacci terms b (a + b)

/-- Computes a factorial and a Fibonacci series. -/
def runSeries : Exec Unit := do
  writeLine "Digite um número para calcular o fatorial:"
  let n ← ofExcept (intOfText (← readLine))
  writeValues [.text "Fatorial:", .int (factorial n.toNat)]
  writeLine "Digite a quantidade de termos da série de Fibonacci:"
  let terms ← ofExcept (intOfText (← readLine))
  writeFibonacci terms.toNat 0 1

/-- A parallel block: its statements run one after the other. -/
def runPar (run : Runner) (body : List Node) : Exec Value := do
  bindTargets parallelStart (Node.targetsAll body)
  bindIfUnbound "fat" (.int 1)
  bindIfUnbound "i" (.int 1)
  bindIfUnbound "a" (.int 0)
  bindIfUnbound "b" (.int 1)
  exitOnInterrupt <| wrapFaults .inParallel do
    if body.any writesSeriesPrompt then runSeries else runAll run body
    return .nothing

/-! ### Channels -/

/-- The value of a part of a channel: plain data stands for itself. -/
def channelValue (run : Runner) : Node → Exec Value
  | .datum v => return v
  | n => run n

/-- The host of a client channel: a text without the double quotes around it. -/
def hostText (v : Value) : Exec Value :=
  match v with
  | .text s => return .text (Builtin.unquoted s)
  | v => return .text (← display v)

/-- The port of a client channel: a whole number, or what converts to one. -/
def portNumber (v : Value) : Exec Value :=
  match v with
  | .int n => return .int n
  | .bool b => return .bool b
  | v =>
    match v.toInt with
    | .ok n => return .int n
    | .error _ => do fail (.invalidPort (← display v))

/-- Opens a client channel. -/
def runClient (run : Runner) (name : String) (host port : Node) : Exec Value := do
  let hostValue ← channelValue run host
  let portValue ← channelValue run port
  let hostValue ← hostText hostValue
  let portValue ← portNumber portValue
  let socket ← makeSocket
  connect socket hostValue portValue
  modify fun m => { m with connections := m.connections.put name socket }
  return .nothing

/-- Opens a server channel: greets the client and closes the connection when it sends nothing.
The call that would answer a message cannot be made. -/
def runServer (run : Runner) (host port greeting : Node) (handler : String) : Exec Value := do
  let socket ← makeSocket
  let portValue ← ofExcept port.toValue.toInt
  record (.bound socket host.toValue (.int portValue))
  record (.listening socket Network.queueLength)
  record (.accepted socket)
  let text ← run greeting
  if text.holds then
    match text with
    | .text s => send socket s
    | v => fail (.noMember v.kindName "encode")
  if (← get).functions.contains handler then
    let message ← receive socket
    if message.isEmpty then
      closeSocket socket
      return .nothing
    else fail .handlerCall
  else fail (.missingEntry (Text.quote handler))

/-! ### Expressions -/

/-- A variable; an unbound one is bound to zero in the innermost scope. -/
def runIdent (name : String) : Exec Value := do
  match (← binding? name) with
  | some v => return v
  | none =>
    bindHere name (.int 0)
    return .int 0

/-- The element of a list at a position, counted from the end when it is negative. -/
def elementAt? (items : List Value) (position : Int) : Option Value :=
  let index := if position < 0 then position + items.length else position
  if index < 0 then none else items[index.toNat]?

/-- The entry of a dictionary under a key. -/
def entryOf? (entries : List (Value × Value)) (key : Value) : Option Value :=
  (entries.find? fun (k, _) => key.samePart k).map Prod.snd

/-- An element of a list or dictionary. -/
def runAccess (run : Runner) (base index : Node) : Exec Value := do
  let container ← run base
  let key ← run index
  match container with
  | .list items =>
    match key.numeric? with
    | some (.int position) =>
      match elementAt? items position with
      | some v => return v
      | none => fail (.positionOutside (← display key))
    | _ => fail (.badPosition key.kindName)
  | .dict entries =>
    match key.unhashable? with
    | some kind => fail (.notHashable kind)
    | none =>
      match entryOf? entries key with
      | some v => return v
      | none => fail (.keyAbsent (← display key))
  | v => fail (.notIndexed v.kindName)

/-- A conjunction or disjunction.  Both sides are always run, and the result is one of them. -/
def runLogical (run : Runner) (operator : String) (left right : Node) : Exec Value := do
  let a ← run left
  let b ← run right
  match operator with
  | "&&" => return if a.holds then b else a
  | "||" => return if a.holds then a else b
  | _ => return .nothing

/-- A comparison. -/
def runRelational (run : Runner) (operator : String) (left right : Node) : Exec Value := do
  let a ← run left
  let b ← run right
  return .bool (← ofExcept (relational operator a b))

/-- An arithmetic operation. -/
def runArithmetic (run : Runner) (operator : String) (left right : Node) : Exec Value := do
  let a ← run left
  let b ← run right
  ofExcept (arithmetic operator a b)

/-- A negation. -/
def runUnary (run : Runner) (operator : String) (expr : Node) : Exec Value := do
  match (← run expr) with
  | .nothing => return .nothing
  | v =>
    match operator with
    | "!" => return .bool !v.holds
    | "-" => ofExcept v.negated
    | _ => return .nothing

/-! ### Calls -/

/-- A call of a built-in function.  A fault is written as a warning, and the call gives no value; a
fault that cannot be worded gives way to the fault of wording it. -/
def callBuiltin (run : Runner) (name : String) (f : Builtin) (args : List Node) : Exec Value :=
  recover
    (do
      let values ← evalAll run args
      f.call values)
    (fun cause => do
      let text ← ofExcept cause.wording
      writeLine ("Warning: Error calling function " ++ name ++ ": " ++ text)
      return .nothing)

/-- A call of a function that is not defined. -/
def callUndefined (run : Runner) (name : String) (args : List Node) : Exec Value := do
  if name == "activation" && (← isBound "input_weight") then
    let x ← match args with
      | [] => pure (Value.int 0)
      | arg :: _ => run arg
    if (← ofExcept (x.compare .ge (.int 0))) then
      writeLine "1"
      return .int 1
    else
      writeLine "0"
      return .int 0
  else
    writeLine ("Warning: Function '" ++ name ++ "' not defined, returning default value")
    return .int 0

/-- The name of the parameter at a position: a variable, or the second part of a tuple.  A part that
is no text names nothing, and it must at least be able to be a key. -/
def paramName? (position : Nat) : Node → Except Fault (Option String)
  | .ident _ t _ => return t.text
  | .datum (.tuple (_ :: name :: _)) =>
    match name, name.unhashable? with
    | .text s, _ => return s
    | _, some kind => throw (.notHashable kind)
    | _, none => return none
  | _ => return "param" ++ toString position

/-- Binds parameters to the values of arguments, one after the other, in the innermost scope.  The
arguments are run in that scope too. -/
def bindParams (run : Runner) : (position : Nat) → (params args : List Node) → Exec Unit
  | position, param :: params, arg :: args => do
    let v ← run arg
    match (← ofExcept (paramName? position param)) with
    | some name => bindHere name v
    | none => pure ()
    bindParams run (position + 1) params args
  | _, _, _ => return ()

/-- Runs the statements of a function: the returned result, or else the value of the last
statement. -/
def runBody (run : Runner) (last : Value) : List Node → Exec Value
  | [] => return last
  | n :: ns => fun m =>
    match run n m with
    | .ok v m' => runBody run v ns m'
    | .error (.returned v) m' => .ok v m'
    | .error signal m' => .error signal m'

/-- Enters a new innermost scope. -/
def enterScope : Exec Unit :=
  modify fun m => { m with scopes := m.scopes.enter }

/-- The machine without its innermost scope. -/
def Machine.leaveScope (m : Machine) : Machine :=
  { m with scopes := m.scopes.leave }

/-- A call of a defined function.  Its scope is left when its statements end, in whatever way; a
fault in an argument leaves the scope behind. -/
def callFunction (run : Runner) (params body args : List Node) : Exec Value := do
  enterScope
  bindParams run 0 params args
  afterwards (runBody run .nothing body) Machine.leaveScope

/-- A call. -/
def runCall (run : Runner) (name : String) (args : List Node) : Exec Value := do
  match Builtin.ofName? name with
  | some f => callBuiltin run name f args
  | none =>
    match (← get).functions.get? name with
    | some (.funcDef _ _ params body) => callFunction run params body args
    | _ => callUndefined run name args

/-- Returns a result from the function around the statement. -/
def runReturn (run : Runner) (expr : Node) : Exec Value := do
  let present := match expr with
    | .datum v => v.holds
    | _ => true
  let v ← if present then run expr else pure .nothing
  throw (.returned v)

/-! ### Nodes -/

/-- Runs a node, given how to run the nodes inside it. -/
def step (run : Runner) (n : Node) : Exec Value :=
  match n with
  | .assign left right => runAssign run left right
  | .cond condition body orElse => runCond run condition body orElse
  | .loop condition body => runLoop run condition body
  | .seq body => runSeq run body
  | .par body => runPar run body
  | .clientChannel name host port => runClient run name host port
  | .serverChannel _ host port greeting handler => runServer run host port greeting handler
  | .constant _ t => return .text t.text
  | .ident _ t _ => runIdent t.text
  | .access _ _ base index => runAccess run base index
  | .logical _ t left right => runLogical run t.text left right
  | .relational _ t left right => runRelational run t.text left right
  | .arithmetic _ t left right => runArithmetic run t.text left right
  | .unary _ t expr => runUnary run t.text expr
  | .call _ t args => runCall run t.text args
  | .funcDef name .. => do
    modify fun m => { m with functions := m.functions.put name n }
    return .node n
  | .ret expr => runReturn run expr
  | .datum _ | .program _ | .breakLoop | .continueLoop | .blank _ | .statement
  | .expression .. => fail (.unsupported n.kindName)

/-- Runs a node, with at most the given number of nodes inside each other. -/
def exec : (fuel : Nat) → Node → Exec Value
  | 0, _ => throw .exhausted
  | fuel + 1, n => step (exec fuel) n

/-- The depth that programs are run to. -/
def depthLimit : Nat := 20000

end SeqPar
