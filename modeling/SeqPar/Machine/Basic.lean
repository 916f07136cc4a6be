import SeqPar.Machine.Network
import SeqPar.Node.Render
import SeqPar.Fault
import SeqPar.Table
import SeqPar.Text.Parts

/-!
# The machine

A running program reads and writes variables in a chain of scopes, defines functions, opens
channels, reads lines and writes text.  All of that is the state of the machine.

A computation on the machine ends with a value or with a **signal**: a fault, a returned result, an
interruption by the user, the end of the program, or the end of the fuel.  The state at that point
is kept in every case: nothing that was done is undone.

## Main definitions

* `Machine` — the state.
* `Signal` — how a computation ends without a value.
* `Exec` — computations on the machine.
* `wrapFaults`, `exitOnInterrupt`, `afterwards` — what statements do with the signals of their
  parts.
* `write`, `readLine` and the operations on variables and sockets.
-/

namespace SeqPar

/-- The state of a running program. -/
structure Machine where
  /-- The variables, by scope. -/
  scopes : Scopes Value
  /-- The functions that were defined. -/
  functions : Table Node
  /-- The sockets of the channels that were opened. -/
  connections : Table Nat
  /-- The lines that are still to be read. -/
  input : List String
  /-- The user interrupts the program when no line is left to be read. -/
  inputInterrupts : Bool
  /-- The text that was written. -/
  output : String
  /-- The number of calls of `output` up to the one that the user interrupts. -/
  outputsLeft : Option Nat
  /-- The sockets. -/
  network : Network

/-- The lines of a text; a line feed ends a line. -/
def inputLines (text : String) : List String :=
  let pieces := Text.splitAt '\n' text.toList
  let ended := if pieces.getLast? == some [] then pieces.dropLast else pieces
  ended.map String.ofList

namespace Machine

/-- A machine that has run nothing, with its input and the script of its network. -/
def initial (input : String) (interrupts : Bool) (cut : Option Nat) (script : List Peer) :
    Machine :=
  { scopes := .empty
    functions := .empty
    connections := .empty
    input := inputLines input
    inputInterrupts := interrupts
    output := ""
    outputsLeft := cut
    network := .ofScript script }

instance : Inhabited Machine := ⟨initial "" false none []⟩

end Machine

/-- How a computation ends without a value. -/
inductive Signal where
  /-- With a fault. -/
  | fault (cause : Fault)
  /-- With the result of the function around it. -/
  | returned (result : Value)
  /-- By an interruption. -/
  | interrupted
  /-- By the end of the program, with an exit code. -/
  | exit (code : Nat)
  /-- By the bound on the depth of computations. -/
  | exhausted

instance : Inhabited Signal := ⟨.exhausted⟩

/-- The fault that a signal is for a statement around it: a returned result is one too, but an
interruption and the ends of the program and of the fuel are not. -/
def Signal.cause? : Signal → Option Fault
  | .fault cause => some cause
  | .returned _ => some .strayReturn
  | _ => none

/-- Computations on the machine. -/
abbrev Exec := EStateM Signal Machine

namespace Exec

variable {α : Type}

/-! ### Signals -/

/-- Ends with a fault. -/
def fail (fault : Fault) : Exec α :=
  throw (.fault fault)

/-- The value of a computation that needs no machine. -/
def ofExcept : Except Fault α → Exec α
  | .ok a => pure a
  | .error fault => fail fault

/-- Goes on with `handler` when a computation ends with a fault or a returned result. -/
def recover (p : Exec α) (handler : Fault → Exec α) : Exec α := fun m =>
  match p m with
  | .error signal m' =>
    match signal.cause? with
    | some cause => handler cause m'
    | none => .error signal m'
  | result => result

/-- Wraps the faults of a computation; a returned result becomes a fault. -/
def wrapFaults (wrap : Fault → Fault) (p : Exec α) : Exec α :=
  recover p fun cause => fail (wrap cause)

/-- Ends the program when a computation is interrupted. -/
def exitOnInterrupt (p : Exec α) : Exec α := fun m =>
  match p m with
  | .error .interrupted m' => .error (.exit 0) m'
  | result => result

/-- Changes the machine after a computation, however it ends. -/
def afterwards (p : Exec α) (change : Machine → Machine) : Exec α := fun m =>
  match p m with
  | .ok a m' => .ok a (change m')
  | .error signal m' => .error signal (change m')

/-! ### Input and output -/

/-- Writes a text. -/
def write (text : String) : Exec Unit :=
  modify fun m => { m with output := m.output ++ text }

/-- Writes a line. -/
def writeLine (text : String) : Exec Unit :=
  write (text ++ "\n")

/-- The display form of a value, which a whole number that is too long does not have. -/
def display (v : Value) : Exec String :=
  if v.tooLong then fail .longInt else pure v.display

/-- Writes values with spaces between them, and a line feed.  When a value has no display form,
what stands before it is written all the same. -/
def writeValues : List Value → Exec Unit
  | [] => write "\n"
  | [v] => do
    write (← display v)
    write "\n"
  | v :: vs => do
    write (← display v)
    write " "
    writeValues vs

/-- Reads a line. -/
def readLine : Exec String := do
  let m ← get
  match m.input with
  | line :: rest =>
    set { m with input := rest }
    return line
  | [] => if m.inputInterrupts then throw .interrupted else fail .endOfInput

/-- Notes that a call of `output` has written its text; the user may interrupt it there. -/
def outputDone : Exec Unit := do
  let m ← get
  match m.outputsLeft with
  | none => return ()
  | some n =>
    set { m with outputsLeft := some (n - 1) }
    if n = 1 then throw .interrupted

/-! ### Variables -/

/-- The value of a variable in the innermost scope. -/
def binding? (name : String) : Exec (Option Value) :=
  return (← get).scopes.top.get? name

/-- Whether a variable is bound in the innermost scope. -/
def isBound (name : String) : Exec Bool :=
  return (← binding? name).isSome

/-- Binds a variable in the innermost scope. -/
def bindHere (name : String) (v : Value) : Exec Unit :=
  modify fun m => { m with scopes := m.scopes.put name v }

/-- Binds a variable in every scope. -/
def bindEverywhere (name : String) (v : Value) : Exec Unit :=
  modify fun m => { m with scopes := m.scopes.putEverywhere name v }

/-- Binds a variable in every scope, unless it is bound in the innermost one. -/
def bindIfUnbound (name : String) (v : Value) : Exec Unit := do
  unless (← isBound name) do bindEverywhere name v

/-- The value of a variable; an unbound variable is bound to zero in every scope. -/
def valueOf (name : String) : Exec Value := do
  match (← binding? name) with
  | some v => return v
  | none =>
    bindEverywhere name (.int 0)
    return .int 0

/-! ### Sockets -/

/-- Makes a socket. -/
def makeSocket : Exec Nat := do
  let m ← get
  let (socket, network) := m.network.make
  set { m with network := network }
  return socket

/-- Logs an operation on a socket. -/
def record (event : SocketEvent) : Exec Unit :=
  modify fun m => { m with network := m.network.record event }

/-- Connects a socket to a host and port. -/
def connect (socket : Nat) (host port : Value) : Exec Unit := do
  record (.connected socket host port)
  if ((← get).network.peer socket).refuses then fail .connectionRefused

/-- Fails when a socket is of no more use. -/
def checkOpen (socket : Nat) : Exec Unit := do
  if (← get).network.isShut socket then fail .socketClosed

/-- Sends a text on a socket. -/
def send (socket : Nat) (text : String) : Exec Unit := do
  checkOpen socket
  record (.sent socket text)

/-- Receives the next text of a socket; the empty text when there is none. -/
def receive (socket : Nat) : Exec String := do
  checkOpen socket
  let m ← get
  let (bytes, network) := m.network.receive socket
  set { m with network := network }
  match bytes with
  | some bytes => ofExcept (textOfBytes bytes)
  | none =>
    if (network.peer socket).interrupts then throw .interrupted else return ""

/-- Closes a socket. -/
def closeSocket (socket : Nat) : Exec Unit :=
  modify fun m => { m with network := m.network.close socket }

end Exec

end SeqPar
