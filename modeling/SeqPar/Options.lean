import SeqPar.Text.Digit

/-!
# The options of the command line

The command takes the name of one source file and options: list the tokens, show the tree, be
verbose, or run the program as it is.

An option may be abbreviated when only one is meant, and one-letter options may be written together
behind one dash, or behind an option with one dash and an equals sign.  All arguments are understood
before the first of them takes effect, so that a command line with an ambiguous argument is refused
even if another argument asks for help.

## Main definitions

* `Options` — the options.
* `Options.Meaning`, `Options.meaningOf` — what one argument means.
* `Options.parse` — the options of a command line.
-/

namespace SeqPar

/-- The options of a command line. -/
structure Options where
  /-- List the tokens. -/
  listTokens : Bool
  /-- Show the tree. -/
  showTree : Bool
  /-- Show the source before and after it is brought into standard layout. -/
  verbose : Bool
  /-- Do not look for a showcase. -/
  raw : Bool
  deriving DecidableEq, Repr

namespace Options

/-- No options at all. -/
def allOff : Options :=
  { listTokens := false, showTree := false, verbose := false, raw := false }

/-- What an option asks for. -/
inductive Switch where
  /-- List the tokens. -/
  | tokens
  /-- Show the tree. -/
  | tree
  /-- Be verbose. -/
  | verbose
  /-- Run as it is. -/
  | raw
  /-- Explain the command. -/
  | help
  deriving DecidableEq, Repr

/-- The spellings of the options. -/
def spellings : List (String × Switch) :=
  [("-h", .help), ("--help", .help), ("-tok", .tokens), ("-ast", .tree), ("-v", .verbose),
    ("--verbose", .verbose), ("-r", .raw), ("--raw", .raw)]

/-- The exit code of a command line that is not understood. -/
def usageExit : Nat := 2

/-- The options with switches turned on in order; asking for help ends the command. -/
def turnOn (o : Options) : List Switch → Except Nat Options
  | [] => return o
  | .tokens :: rest => { o with listTokens := true }.turnOn rest
  | .tree :: rest => { o with showTree := true }.turnOn rest
  | .verbose :: rest => { o with verbose := true }.turnOn rest
  | .raw :: rest => { o with raw := true }.turnOn rest
  | .help :: _ => throw 0

/-! ### One argument -/

/-- What an argument means. -/
inductive Meaning where
  /-- It names a file. -/
  | name
  /-- It turns on switches. -/
  | switches (on : List Switch)
  /-- It is no option. -/
  | unknown
  /-- It is an option with something behind it that the option does not take. -/
  | misused
  /-- It may be more than one option. -/
  | ambiguous
  deriving DecidableEq, Repr

/-- The switches of one-letter options that are written together. -/
def letters? : List Char → Option (List Switch)
  | [] => some []
  | c :: cs => do
    let switch ← spellings.lookup (String.ofList ['-', c])
    return switch :: (← letters? cs)

/-- The meaning of an option with one-letter options behind it. -/
def grouped (switch : Switch) (behind : List Char) : Meaning :=
  match letters? behind with
  | some on => .switches (switch :: on)
  | none => .misused

/-- The switches whose spelling starts with the given characters. -/
def abbreviated (start : List Char) : List Switch :=
  (spellings.filter fun (s, _) => start.isPrefixOf s.toList).map Prod.snd

/-- Whether an argument starts with two dashes. -/
def isLong (arg : List Char) : Bool :=
  ['-', '-'].isPrefixOf arg

/-- What an argument can be that starts with a dash and is no option in full: one choice for each
option that it may be. -/
def choices (arg : List Char) : List Meaning :=
  if isLong arg then
    let meaning (s : Switch) : Meaning := if arg.contains '=' then .misused else .switches [s]
    (abbreviated (arg.takeWhile (· != '='))).map meaning
  else
    let group := match spellings.lookup (String.ofList (arg.take 2)) with
      | some switch => [grouped switch (arg.drop 2)]
      | none => []
    group ++ (abbreviated arg).map fun s => .switches [s]

/-- A text without the line feed at its end, if it has one. -/
def withoutLineFeed (cs : List Char) : List Char :=
  if cs.getLast? == some '\n' then cs.dropLast else cs

/-- Whether an argument is a negative number, which is no option.  A line feed may end it. -/
def isNegativeNumber (arg : List Char) : Bool :=
  match withoutLineFeed arg with
  | '-' :: body =>
    let whole := body.takeWhile Text.isDigit
    match body.dropWhile Text.isDigit with
    | [] => !whole.isEmpty
    | '.' :: fraction => !fraction.isEmpty && fraction.all Text.isDigit
    | _ => false
  | _ => false

/-- The meaning of an option with a value behind an equals sign.  No option takes a value, but behind
a single dash the value is read as one-letter options. -/
def valued (switch : Switch) (long : Bool) (value : List Char) : Meaning :=
  if long || value.isEmpty then .misused else grouped switch value

/-- The option in front of the first equals sign of an argument, if it is one in full. -/
def valuedSwitch? (arg : List Char) : Option Switch :=
  if arg.contains '=' then spellings.lookup (String.ofList (arg.takeWhile (· != '=')))
  else none

/-- The meaning of an argument that starts with a dash and something behind it, but is no option in
full. -/
def meaningOfDashed (arg : List Char) : Meaning :=
  match valuedSwitch? arg with
  | some switch => valued switch (isLong arg) ((arg.dropWhile (· != '=')).drop 1)
  | none =>
    match choices arg with
    | [] => if isNegativeNumber arg || arg.contains ' ' then .name else .unknown
    | [meaning] => meaning
    | _ => .ambiguous

/-- The meaning of an argument. -/
def meaningOf (arg : String) : Meaning :=
  match spellings.lookup arg with
  | some switch => .switches [switch]
  | none =>
    match arg.toList with
    | '-' :: c :: cs => meaningOfDashed ('-' :: c :: cs)
    | _ => .name

/-! ### All arguments -/

/-- What has been taken from a command line. -/
structure Taken where
  /-- The options that are on. -/
  options : Options
  /-- The names of files. -/
  names : List String
  /-- Whether there was something that is no option. -/
  leftover : Bool
  deriving DecidableEq, Repr

/-- Takes arguments in order. -/
def takeAll (t : Taken) : List String → Except Nat Taken
  | [] => return t
  | arg :: args =>
    match meaningOf arg with
    | .name => takeAll { t with names := t.names ++ [arg] } args
    | .switches on => do
      let options ← t.options.turnOn on
      takeAll { t with options := options } args
    | .unknown => takeAll { t with leftover := true } args
    | .misused | .ambiguous => throw usageExit

/-- The options of a command line and the name of the source file, or the exit code of a command
line that is not understood or asks for help.  All arguments behind `--` are names. -/
def parse (args : List String) : Except Nat (Options × String) := do
  let before := args.takeWhile (· != "--")
  if (before.map meaningOf).contains .ambiguous then throw usageExit
  let t ← takeAll { options := allOff, names := [], leftover := false } before
  match t.names ++ (args.drop (before.length + 1)), t.leftover with
  | [name], false => return (t.options, name)
  | _, _ => throw usageExit

/-- The name of the file that verbose runs write. -/
def tempName (name : String) : String :=
  name ++ ".temp"

end Options

end SeqPar
