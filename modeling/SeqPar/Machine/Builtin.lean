import SeqPar.Machine.Basic
import SeqPar.Value.Functions

/-!
# Built-in functions

The functions that every program can call.  Their names cannot be taken by the functions of a
program: a call of a built-in name always calls the built-in function.

## Main definitions

* `Builtin`, `Builtin.ofName?` — the built-in functions and their names.
* `Builtin.call` — what they do with their arguments.
-/

namespace SeqPar

/-- The built-in functions; the two constants are among them, but they cannot be called. -/
inductive Builtin where
  /-- Writes its arguments. -/
  | print
  /-- Reads a line. -/
  | input
  /-- Writes its arguments, texts without the quotes around them. -/
  | output
  /-- Converts to a number. -/
  | toNumber
  /-- Converts to a text. -/
  | toString
  /-- Converts to a truth value. -/
  | toBool
  /-- Waits. -/
  | sleep
  /-- Sends a message on a channel and receives the answer. -/
  | send
  /-- Receives a message from a channel. -/
  | receive
  /-- Closes a channel. -/
  | close
  /-- Counts characters or elements. -/
  | len
  /-- Tells whether a text consists of letters. -/
  | isAlpha
  /-- Tells whether a text consists of numerals. -/
  | isNum
  /-- The exponential function. -/
  | exp
  /-- The logarithm. -/
  | log
  /-- The square root. -/
  | sqrt
  /-- The sine. -/
  | sin
  /-- The cosine. -/
  | cos
  /-- The tangent. -/
  | tan
  /-- Rounds down. -/
  | floor
  /-- Rounds up. -/
  | ceil
  /-- Rounds to the nearest number. -/
  | round
  /-- Raises to a power. -/
  | pow
  /-- The absolute value. -/
  | abs
  /-- The ratio of a circle's circumference to its diameter. -/
  | pi
  /-- The base of the natural logarithm. -/
  | e
  deriving DecidableEq, Repr

namespace Builtin

/-- The names of the built-in functions. -/
def table : List (String × Builtin) :=
  [("print", .print), ("input", .input), ("output", .output), ("to_number", .toNumber),
    ("to_string", .toString), ("to_bool", .toBool), ("sleep", .sleep), ("send", .send),
    ("receive", .receive), ("close", .close), ("len", .len), ("isalpha", .isAlpha),
    ("isnum", .isNum), ("exp", .exp), ("log", .log), ("sqrt", .sqrt), ("sin", .sin),
    ("cos", .cos), ("tan", .tan), ("floor", .floor), ("ceil", .ceil), ("round", .round),
    ("pow", .pow), ("abs", .abs), ("pi", .pi), ("e", .e)]

/-- The built-in function of a name. -/
def ofName? (name : String) : Option Builtin :=
  table.lookup name

open Exec

/-- The only argument of a function with one parameter of the given name.  The messages count one
more argument than there are. -/
def single (function parameter : String) : List Value → Exec Value
  | [v] => pure v
  | [] => fail (.missingArguments function [parameter])
  | vs => fail (.surplusArguments function 2 (vs.length + 1))

/-- A text between double quotes without them; the lone quote becomes empty. -/
def unquoted (s : String) : String :=
  let cs := s.toList
  if cs.head? == some '"' && cs.getLast? == some '"' then String.ofList (cs.drop 1).dropLast
  else s

/-- A value as `output` writes it: a text without the double quotes around it. -/
def shown : Value → Value
  | .text s => .text (unquoted s)
  | v => v

/-- The channel that a value names. -/
def channel (name : Value) : Exec (Option Nat) := do
  match name.unhashable? with
  | some kind => fail (.notHashable kind)
  | none =>
    match name with
    | .text s => return (← get).connections.get? s
    | _ => return none

/-- The channel that a value names, which must have been opened. -/
def openChannel (name : Value) : Exec Nat := do
  match (← channel name) with
  | some socket => return socket
  | none => fail (if name.tooLong then .missingLongEntry name.render else .missingEntry name.render)

/-- Sends a message on a channel and receives the answer. -/
def sendMessage (name message : Value) : Exec Value := do
  let socket ← openChannel name
  match message with
  | .text s =>
    Exec.send socket s
    return .text (← Exec.receive socket)
  | v => fail (.noMember v.kindName "encode")

/-- Calls a built-in function. -/
def call (f : Builtin) (args : List Value) : Exec Value := do
  match f with
  | .print =>
    writeValues args
    return .nothing
  | .input =>
    match args with
    | [] => exitOnInterrupt do return decodeText (← readLine)
    | vs => fail (.surplusArguments "Executor.__post_init__.<locals>.smart_input" 0 vs.length)
  | .output =>
    exitOnInterrupt do
      writeValues (args.map shown)
      outputDone
      return .nothing
  | .toNumber => ofExcept (← single "Executor.to_number" "value" args).toNumber
  | .toString =>
    match args with
    | [] => return .text ""
    | [v] => return .text (← display v)
    | vs => fail (textArgumentsFault vs)
  | .toBool => ofExcept (truthOf args)
  | .sleep =>
    ofExcept (checkPause (← ofExcept (onlyArgument "time.sleep" args)))
    return .nothing
  | .send =>
    match args with
    | [name, message] => sendMessage name message
    | [] => fail (.missingArguments "Executor.send" ["conn_name", "data"])
    | [_] => fail (.missingArguments "Executor.send" ["data"])
    | vs => fail (.surplusArguments "Executor.send" 3 (vs.length + 1))
  | .receive =>
    let name ← single "Executor.receive" "conn_name" args
    match (← channel name) with
    | some socket => return decodeText (← Exec.receive socket)
    | none => fail (.unknownChannel (← display name))
  | .close =>
    let socket ← openChannel (← single "Executor.close" "conn_name" args)
    closeSocket socket
    return .nothing
  | .len =>
    let v ← ofExcept (onlyArgument "len" args)
    return .int (← ofExcept v.length)
  | .isAlpha =>
    let v ← single "Executor.isalpha" "value" args
    return .bool (allInClass Text.isLetter (← display v))
  | .isNum =>
    let v ← single "Executor.isnum" "value" args
    return .bool (allInClass Text.isNumeral (← display v))
  | .exp => ofExcept (exponential args)
  | .log => ofExcept (logarithm args)
  | .sqrt => ofExcept (squareRoot args)
  | .sin => ofExcept (sine args)
  | .cos => ofExcept (cosine args)
  | .tan => ofExcept (tangent args)
  | .floor => ofExcept (floorOf args)
  | .ceil => ofExcept (ceilingOf args)
  | .round => ofExcept (rounded args)
  | .pow => ofExcept (power args)
  | .abs => ofExcept (absolute args)
  | .pi | .e => fail .notCallable

end Builtin

end SeqPar
