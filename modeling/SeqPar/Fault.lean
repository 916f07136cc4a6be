import SeqPar.Number.Written

/-!
# Faults

A fault is the cause of a failure: while a program is read, checked or run.  The wording of every
fault is in one function, `Fault.message`, and `Fault.kind` sorts the faults.

Running a statement inside an assignment, a loop, a parallel block or an arithmetic operation
wraps the fault of that statement in one that says where it happened.

## Main definitions

* `Fault`, `Fault.message` — the causes and their wording.
* `FaultKind`, `Fault.kind` — what kind of failure a cause is.
* `syntaxText`, `semanticText`, `executionText` — the wording that the language's own three kinds
  of failure share.
-/

namespace SeqPar

/-- The kinds of failure. -/
inductive FaultKind where
  /-- A program that cannot be read. -/
  | syntactic
  /-- A program that breaks the rules on types. -/
  | semantic
  /-- A program that fails while it runs. -/
  | execution
  /-- A source without tokens. -/
  | noTokens
  /-- A member that a value does not have. -/
  | missingMember
  /-- A value of a kind that an operation does not take. -/
  | wrongType
  /-- A value that an operation does not take although it takes its kind. -/
  | wrongValue
  /-- A number outside the range of a result. -/
  | overflow
  /-- A division of a double by zero. -/
  | zeroDivision
  /-- A position outside a list. -/
  | outOfBounds
  /-- A key that a table does not have. -/
  | missingKey
  /-- A read past the end of the input. -/
  | endOfInput
  /-- A connection that the other side refuses. -/
  | refused
  /-- Bytes that stand for no text. -/
  | undecodable
  /-- A file that does not exist. -/
  | missingFile
  /-- A directory in the place of a file. -/
  | directory
  /-- Another failure of the system. -/
  | system
  deriving DecidableEq, Repr

/-- The cause of a failure. -/
inductive Fault where
  /-- The source has no token. -/
  | noTokens
  /-- A block was expected. -/
  | expectedBlock (line : Int) (found : String)
  /-- No statement starts with this token. -/
  | invalidStatement (line : Int) (found : String)
  /-- The host of a client channel was expected. -/
  | expectedHost (line : Int)
  /-- The port of a client channel was expected. -/
  | expectedPort (line : Int)
  /-- The name of a declared variable was expected. -/
  | expectedName (line : Int)
  /-- The colon of a declaration was expected. -/
  | expectedColon (line : Int)
  /-- No declaration starts with this token. -/
  | invalidDeclaration (line : Int)
  /-- A condition starts with a negation. -/
  | negatedCondition
  /-- The two sides of an assignment have different types. -/
  | assignmentTypes
  /-- The condition of a conditional is not a truth value. -/
  | conditionalType
  /-- The condition of a loop is not a truth value. -/
  | loopType
  /-- A node of this kind cannot be run. -/
  | unsupported (kind : String)
  /-- A result was returned where none is taken. -/
  | strayReturn
  /-- A fault in an assignment. -/
  | inAssignment (cause : Fault)
  /-- A fault in the body of a loop. -/
  | inLoopBody (cause : Fault)
  /-- A fault in a loop. -/
  | inLoop (cause : Fault)
  /-- A fault in a parallel block. -/
  | inParallel (cause : Fault)
  /-- A fault in an arithmetic operation. -/
  | inArithmetic (cause : Fault)
  /-- A division by zero. -/
  | divisionByZero
  /-- A remainder of a division by zero. -/
  | moduloByZero
  /-- An arithmetic operator that does not exist. -/
  | unknownOperator (operator : String)
  /-- The port of a client channel is not a whole number. -/
  | invalidPort (shown : String)
  /-- The position of an element lies outside its list. -/
  | positionOutside (shown : String)
  /-- The key of an element is not in its dictionary. -/
  | keyAbsent (shown : String)
  /-- An element of something without elements. -/
  | notIndexed (kind : String)
  /-- A text that spells no number. -/
  | notNumeric (shown : String)
  /-- A value that is no number and no text. -/
  | notConvertible (shown : String)
  /-- A channel that was never opened. -/
  | unknownChannel (shown : String)
  /-- A value of this kind does not have this member. -/
  | noMember (kind member : String)
  /-- Values of these kinds are not ordered. -/
  | notOrdered (operator left right : String)
  /-- A value of this kind cannot be multiplied. -/
  | notMultiplied (kind : String)
  /-- A value of this kind is not a real number. -/
  | notReal (kind : String)
  /-- A value of this kind has no absolute value. -/
  | noAbsolute (kind : String)
  /-- A value of this kind cannot be rounded. -/
  | notRounded (kind : String)
  /-- A value of this kind has no length. -/
  | noLength (kind : String)
  /-- A value of this kind is not a whole number. -/
  | notWhole (kind : String)
  /-- A value of this kind does not convert to a whole number. -/
  | notWholeConvertible (kind : String)
  /-- A number was called as if it were a function. -/
  | notCallable
  /-- A value of this kind cannot be a key. -/
  | notHashable (kind : String)
  /-- A value of this kind is no position in a list. -/
  | badPosition (kind : String)
  /-- Parameters that got no argument. -/
  | missingArguments (function : String) (parameters : List String)
  /-- More arguments than parameters; both numbers as the message counts them. -/
  | surplusArguments (function : String) (taken given : Nat)
  /-- A function of exactly one argument got another number of them. -/
  | oneArgument (function : String) (given : Nat)
  /-- A function of two arguments got another number of them. -/
  | twoArguments (function : String) (given : Nat)
  /-- A function of at most this many arguments got more. -/
  | atMostArguments (function : String) (limit given : Nat)
  /-- The truth value of more than one argument. -/
  | atMostOneArgument (function : String) (given : Nat)
  /-- A logarithm of no or of more than two arguments. -/
  | logArguments
  /-- Rounding without a number. -/
  | roundArgument
  /-- The named argument of a conversion to text is not a text. -/
  | textArgument (name kind : String)
  /-- The named argument of a conversion to text holds a null character. -/
  | nullCharacter
  /-- A text is not decoded. -/
  | decodeText
  /-- A value of this kind is not decoded. -/
  | decodeValue (kind : String)
  /-- The call of a server's handler cannot be made. -/
  | handlerCall
  /-- The quoted text spells no double. -/
  | floatText (quoted : String)
  /-- The quoted text spells no whole number. -/
  | intText (quoted : String)
  /-- The text spells a whole number with too many digits. -/
  | longIntText (digits : Nat)
  /-- A whole number with too many digits to be turned into text. -/
  | longInt
  /-- What is not a number has no whole part. -/
  | wholeOfNotANumber
  /-- An infinity has no whole part. -/
  | wholeOfInfinity
  /-- A whole number beyond the greatest double. -/
  | wholeTooLarge
  /-- A quotient of whole numbers beyond the greatest double. -/
  | quotientTooLarge
  /-- A rounded double beyond the greatest double. -/
  | roundedTooLarge
  /-- An argument outside the domain of a function. -/
  | domain
  /-- A result outside the range of a function. -/
  | range
  /-- A quotient of doubles by zero. -/
  | floatDivisionByZero
  /-- A pause of negative length. -/
  | negativePause
  /-- A pause whose length is not a number. -/
  | pauseNotANumber
  /-- A pause of a whole number of seconds that is too long. -/
  | pauseTooLong
  /-- A pause that is too long by far. -/
  | pauseOutOfRange
  /-- A pause that ends beyond the range of the clock. -/
  | pauseBeyondClock
  /-- A position outside a list. -/
  | listPosition
  /-- A table does not have this key. -/
  | missingEntry (quoted : String)
  /-- A table does not have this key, which holds a whole number with too many digits to be turned
  into text. -/
  | missingLongEntry (quoted : String)
  /-- The input is at its end. -/
  | endOfInput
  /-- The other side refuses the connection. -/
  | connectionRefused
  /-- The socket was closed. -/
  | socketClosed
  /-- The bytes from the first to the last of these positions stand for no character; the first of
  them and what is wrong. -/
  | undecodable (byte first last : Nat) (reason : String)
  /-- There is no file of this name. -/
  | fileNotFound (quoted : String)
  /-- A directory has this name. -/
  | fileIsDirectory (quoted : String)
  /-- No file can have a name as long as this. -/
  | fileNameTooLong (quoted : String)
  /-- The name of a file holds a null character. -/
  | nullByte
  deriving DecidableEq, Repr, Inhabited

/-- The wording of a failure to read a program. -/
def syntaxText (line : Int) (text : String) : String :=
  "Erro de Sintaxe (linha " ++ Number.writeInt line ++ "): " ++ text

/-- The wording of a failure to check a program. -/
def semanticText (text : String) : String :=
  "Erro de Semântica: " ++ text

/-- The wording of a failure to run a program. -/
def executionText (text : String) : String :=
  "Erro em Tempo de Execução: " ++ text

/-- A kind in quotes. -/
def inQuotes (kind : String) : String :=
  "'" ++ kind ++ "'"

/-- The names of parameters as a message lists them. -/
def listed : List String → String
  | [] => ""
  | [a] => inQuotes a
  | [a, b] => inQuotes a ++ " and " ++ inQuotes b
  | a :: rest => inQuotes a ++ ", " ++ listed rest

/-- The wording of a fault. -/
def Fault.message : Fault → String
  | .noTokens => ""
  | .expectedBlock line found =>
    syntaxText line ("Esperado 'SEQ' ou 'PAR', encontrado " ++ found)
  | .invalidStatement line found => syntaxText line ("Instrução inválida: " ++ found)
  | .expectedHost line => syntaxText line "Esperado STRING, NUMBER ou ID para localhost"
  | .expectedPort line => syntaxText line "Esperado STRING, NUMBER ou ID para port"
  | .expectedName line =>
    syntaxText line "Esperado identificador após tipo na declaração de variável"
  | .expectedColon line =>
    syntaxText line "Esperado ':' após identificador na declaração de variável"
  | .invalidDeclaration line => syntaxText line "Declaração de variável inválida"
  | .negatedCondition => "module 'minipar.ast' has no attribute 'Not'"
  | .assignmentTypes => semanticText "Tipos incompatíveis na atribuição."
  | .conditionalType => semanticText "Condição do 'if' deve ser do tipo BOOL."
  | .loopType => semanticText "Condição do 'while' deve ser do tipo BOOL."
  | .unsupported kind => executionText ("Nó não suportado: " ++ kind)
  | .strayReturn => ""
  | .inAssignment cause => executionText ("Erro na atribuição: " ++ cause.message)
  | .inLoopBody cause => executionText ("Erro na execução do corpo do loop: " ++ cause.message)
  | .inLoop cause => executionText ("Erro no loop while: " ++ cause.message)
  | .inParallel cause => executionText ("Erro na execução paralela: " ++ cause.message)
  | .inArithmetic cause => executionText ("Erro na operação aritmética: " ++ cause.message)
  | .divisionByZero => executionText "Divisão por zero"
  | .moduloByZero => executionText "Módulo por zero"
  | .unknownOperator operator => executionText ("Operador aritmético inválido: " ++ operator)
  | .invalidPort shown => executionText ("Porta inválida: " ++ shown)
  | .positionOutside shown => executionText ("Índice fora do intervalo: " ++ shown)
  | .keyAbsent shown => executionText ("Chave '" ++ shown ++ "' não encontrada.")
  | .notIndexed kind => executionText ("Tipo inválido para acesso: " ++ kind)
  | .notNumeric shown =>
    executionText ("Não foi possível converter '" ++ shown ++ "' para número.")
  | .notConvertible shown => executionText ("Tipo inválido para operação aritmética: " ++ shown)
  | .unknownChannel shown => executionText ("Canal '" ++ shown ++ "' não encontrado.")
  | .noMember kind member => inQuotes kind ++ " object has no attribute " ++ inQuotes member
  | .notOrdered operator left right =>
    inQuotes operator ++ " not supported between instances of " ++ inQuotes left ++ " and " ++
      inQuotes right
  | .notMultiplied kind =>
    "unsupported operand type(s) for *: " ++ inQuotes kind ++ " and 'int'"
  | .notReal kind => "must be real number, not " ++ kind
  | .noAbsolute kind => "bad operand type for abs(): " ++ inQuotes kind
  | .notRounded kind => "type " ++ kind ++ " doesn't define __round__ method"
  | .noLength kind => "object of type " ++ inQuotes kind ++ " has no len()"
  | .notWhole kind => inQuotes kind ++ " object cannot be interpreted as an integer"
  | .notWholeConvertible kind =>
    "int() argument must be a string, a bytes-like object or a real number, not " ++
      inQuotes kind
  | .notCallable => "'float' object is not callable"
  | .notHashable kind => "unhashable type: " ++ inQuotes kind
  | .badPosition kind => "list indices must be integers or slices, not " ++ kind
  | .missingArguments function parameters =>
    function ++ "() missing " ++ toString parameters.length ++ " required positional argument" ++
      (if parameters.length = 1 then "" else "s") ++ ": " ++ listed parameters
  | .surplusArguments function taken given =>
    function ++ "() takes " ++ toString taken ++ " positional argument" ++
      (if taken = 1 then "" else "s") ++ " but " ++ toString given ++
      (if given = 1 then " was given" else " were given")
  | .oneArgument function given =>
    function ++ "() takes exactly one argument (" ++ toString given ++ " given)"
  | .twoArguments function given =>
    function ++ " expected 2 arguments, got " ++ toString given
  | .atMostArguments function limit given =>
    function ++ "() takes at most " ++ toString limit ++ " arguments (" ++ toString given ++
      " given)"
  | .atMostOneArgument function given =>
    function ++ " expected at most 1 argument, got " ++ toString given
  | .logArguments => "math.log requires 1 to 2 arguments"
  | .roundArgument => "round() missing required argument 'number' (pos 1)"
  | .textArgument name kind =>
    "str() argument " ++ inQuotes name ++ " must be str, not " ++ kind
  | .nullCharacter => "embedded null character"
  | .decodeText => "decoding str is not supported"
  | .decodeValue kind => "decoding to str: need a bytes-like object, " ++ kind ++ " found"
  | .handlerCall => "Call.__init__() got an unexpected keyword argument 'id'"
  | .floatText quoted => "could not convert string to float: " ++ quoted
  | .intText quoted => "invalid literal for int() with base 10: " ++ quoted
  | .longIntText digits =>
    "Exceeds the limit (4300 digits) for integer string conversion: value has " ++
      toString digits ++ " digits; use sys.set_int_max_str_digits() to increase the limit"
  | .longInt =>
    "Exceeds the limit (4300 digits) for integer string conversion; " ++
      "use sys.set_int_max_str_digits() to increase the limit"
  | .wholeOfNotANumber => "cannot convert float NaN to integer"
  | .wholeOfInfinity => "cannot convert float infinity to integer"
  | .wholeTooLarge => "int too large to convert to float"
  | .quotientTooLarge => "integer division result too large for a float"
  | .roundedTooLarge => "rounded value too large to represent"
  | .domain => "math domain error"
  | .range => "math range error"
  | .floatDivisionByZero => "float division by zero"
  | .negativePause => "sleep length must be non-negative"
  | .pauseNotANumber => "Invalid value NaN (not a number)"
  | .pauseTooLong => "timestamp too large to convert to C _PyTime_t"
  | .pauseOutOfRange => "timestamp out of range for platform time_t"
  | .pauseBeyondClock => "[Errno 22] Invalid argument"
  | .listPosition => "list index out of range"
  | .missingEntry quoted | .missingLongEntry quoted => quoted
  | .endOfInput => "EOF when reading a line"
  | .connectionRefused => "[Errno 111] Connection refused"
  | .socketClosed => "[Errno 9] Bad file descriptor"
  | .undecodable byte first last reason =>
    "'utf-8' codec can't decode " ++
      (if first = last then
        "byte 0x" ++ String.ofList (Nat.toDigits 16 byte) ++ " in position " ++ toString first
      else "bytes in position " ++ toString first ++ "-" ++ toString last) ++ ": " ++ reason
  | .fileNotFound quoted => "[Errno 2] No such file or directory: " ++ quoted
  | .fileIsDirectory quoted => "[Errno 21] Is a directory: " ++ quoted
  | .fileNameTooLong quoted => "[Errno 36] File name too long: " ++ quoted
  | .nullByte => "embedded null byte"

/-- The wording of a fault in a message that the program writes.  A key that is too long to be turned
into text cannot be worded, which is a fault of its own. -/
def Fault.wording : Fault → Except Fault String
  | .missingLongEntry _ => .error .longInt
  | fault => .ok fault.message

/-- What kind of failure a fault is. -/
def Fault.kind : Fault → FaultKind
  | .noTokens => .noTokens
  | .expectedBlock .. | .invalidStatement .. | .expectedHost _ | .expectedPort _
  | .expectedName _ | .expectedColon _ | .invalidDeclaration _ => .syntactic
  | .assignmentTypes | .conditionalType | .loopType => .semantic
  | .unsupported _ | .inAssignment _ | .inLoopBody _ | .inLoop _ | .inParallel _
  | .inArithmetic _ | .divisionByZero | .moduloByZero | .unknownOperator _ | .invalidPort _
  | .positionOutside _ | .keyAbsent _ | .notIndexed _ | .notNumeric _ | .notConvertible _
  | .unknownChannel _ | .strayReturn => .execution
  | .negatedCondition | .noMember .. => .missingMember
  | .notOrdered .. | .notMultiplied _ | .notReal _ | .noAbsolute _ | .notRounded _ | .noLength _
  | .notWhole _ | .notWholeConvertible _ | .notCallable | .notHashable _ | .badPosition _
  | .missingArguments .. | .surplusArguments .. | .oneArgument .. | .twoArguments ..
  | .atMostArguments .. | .atMostOneArgument .. | .logArguments | .roundArgument
  | .textArgument .. | .decodeText | .decodeValue _ | .handlerCall => .wrongType
  | .floatText _ | .intText _ | .longIntText _ | .longInt | .wholeOfNotANumber | .domain
  | .negativePause | .pauseNotANumber | .nullCharacter | .nullByte => .wrongValue
  | .wholeOfInfinity | .wholeTooLarge | .quotientTooLarge | .roundedTooLarge | .range
  | .pauseTooLong | .pauseOutOfRange => .overflow
  | .floatDivisionByZero => .zeroDivision
  | .listPosition => .outOfBounds
  | .missingEntry _ | .missingLongEntry _ => .missingKey
  | .endOfInput => .endOfInput
  | .connectionRefused => .refused
  | .undecodable .. => .undecodable
  | .fileNotFound _ => .missingFile
  | .fileIsDirectory _ => .directory
  | .fileNameTooLong _ | .pauseBeyondClock | .socketClosed => .system

end SeqPar
