import SeqPar.Conversion
import SeqPar.Node.Basic
import SeqPar.Parse.Cursor

/-!
# The grammar

Recursive descent over the tokens of a program.  Reading expressions never fails: a token that
starts no expression is passed over and stands for the number zero.  Reading statements may fail;
blocks without braces, function bodies, the branches of conditionals, the bodies of loops and the
top level recover by going on at the end of the statement.

The parsers call each other, so each takes a bound on the depth of the calls.  Every call between
two parsers takes one from the bound and no cycle of calls leaves the cursor where it was;
`fuelFor` gives a bound that grows with the number of tokens.

## Main definitions

* `expr`, `exprBool` — expressions and conditions.
* `stmt`, `stmts` — statements.
* `topLevel` — the statements of a program.
* `program` — a whole program.
-/

namespace SeqPar.Parser

/-- The literal that stands for a missing expression. -/
def zeroLiteral : Node :=
  .constant (some "NUMBER") ⟨.number, "0"⟩

/-- A variable of the given name. -/
def reference (name : String) : Node :=
  .ident none ⟨.ident, name⟩ false

/-- The declaration of a variable of the given name and type. -/
def declared (type : Option String) (name : String) : Node :=
  .ident type ⟨.ident, name⟩ true

/-! ### Expressions -/

mutual

/-- A sum: terms with `+` or `-` between them, grouped from the left. -/
def expr : Nat → Parser Node
  | 0 => outOfFuel
  | n + 1 => do
    let left ← term n
    exprAfter n left

/-- The rest of a sum after its terms so far. -/
def exprAfter : Nat → Node → Parser Node
  | 0, _ => outOfFuel
  | n + 1, left => do
    let op ← peek
    match op.tag with
    | .plus | .minus =>
      advance
      let right ← term n
      exprAfter n (.arithmetic none op left right)
    | _ => return left

/-- A product: factors with `*` or `/` between them, grouped from the left. -/
def term : Nat → Parser Node
  | 0 => outOfFuel
  | n + 1 => do
    let left ← factor n
    termAfter n left

/-- The rest of a product after its factors so far. -/
def termAfter : Nat → Node → Parser Node
  | 0, _ => outOfFuel
  | n + 1, left => do
    let op ← peek
    match op.tag with
    | .times | .divide =>
      advance
      let right ← factor n
      termAfter n (.arithmetic none op left right)
    | _ => return left

/-- A negation, an expression in parentheses, a call, a variable or a literal.  A number right
before a `/` takes the slash with it, and the number after the slash becomes its decimals. -/
def factor : Nat → Parser Node
  | 0 => outOfFuel
  | n + 1 => do
    let first ← peek
    match first.tag with
    | .not =>
      advance
      let operand ← factor n
      return .unary (some "BOOL") first operand
    | .minus =>
      advance
      let operand ← factor n
      return .unary (some "NUMBER") first operand
    | .lparen =>
      advance
      let inner ← expr n
      accept .rparen
      return inner
    | .ident | .receive | .send | .output | .other "INPUT" =>
      advance
      if (← peekTag) = .lparen then
        let args ← argList n
        return .call none first args
      else return .ident none first false
    | .number =>
      advance
      if (← peekTag) = .divide then
        advance
        let next ← peek
        if next.tag = .number then
          advance
          return .constant (some "NUMBER") ⟨.number, first.text ++ "." ++ next.text⟩
        else return .constant (some "NUMBER") first
      else return .constant (some "NUMBER") first
    | .string =>
      advance
      return .constant (some "STRING") first
    | .bool =>
      advance
      return .constant (some "BOOL") first
    | _ =>
      advance
      return zeroLiteral

/-- The arguments of a call, in parentheses and with commas between them. -/
def argList : Nat → Parser (List Node)
  | 0 => outOfFuel
  | n + 1 => do
    accept .lparen
    if (← peekTag) = .rparen then
      accept .rparen
      return []
    else
      let first ← expr n
      let args ← argsAfter n [first]
      accept .rparen
      return args

/-- The rest of the arguments after those so far. -/
def argsAfter : Nat → List Node → Parser (List Node)
  | 0, _ => outOfFuel
  | n + 1, args => do
    if (← peekTag) = .comma then
      advance
      let next ← expr n
      argsAfter n (args ++ [next])
    else return args

end

/-- Whether a tag is that of a comparison. -/
def isComparison : Tag → Bool
  | .eq | .neq | .lt | .gt | .lte | .gte => true
  | _ => false

/-- Whether a tag is that of a conjunction or disjunction. -/
def isConnective : Tag → Bool
  | .and | .or => true
  | _ => false

mutual

/-- A condition: a sum or a comparison of two, and after a connective another condition.  A
condition that starts with a negation is read to its end and then rejected. -/
def exprBool : Nat → Parser Node
  | 0 => outOfFuel
  | n + 1 => do
    if (← peekTag) = .not then
      advance
      let _ ← exprBool n
      fail .negatedCondition
    else
      let left ← expr n
      let op ← peek
      if isComparison op.tag then
        advance
        let right ← expr n
        connected n (.relational (some "BOOL") op left right)
      else connected n left

/-- The rest of a condition after a connective, if there is one. -/
def connected : Nat → Node → Parser Node
  | 0, _ => outOfFuel
  | n + 1, left => do
    let op ← peek
    if isConnective op.tag then
      advance
      let right ← exprBool n
      connected n (.logical (some "BOOL") op left right)
    else return left

end

/-! ### Simple statements -/

/-- Passes over a semicolon, if there is one. -/
def optionalSemicolon : Parser Unit :=
  accept .semicolon

/-- The text of a host or port, which is a literal or a name. -/
def channelPart (fault : Int → Fault) : Parser Node := do
  let t ← peek
  match t.tag with
  | .string | .number | .ident =>
    advance
    return .datum (.text t.text)
  | _ => failAt fault

/-- The right side of a declaration, if there is one, after the declared variable. -/
def initialised (fuel : Nat) (left : Node) : Parser Node := do
  if (← peekTag) = .assign then
    advance
    let right ← expr fuel
    return .assign left right
  else return left

/-- The declaration of a client channel or of a variable. -/
def varDecl (fuel : Nat) : Parser Node := do
  let first ← peek
  match first.tag with
  | .clientChannel =>
    advance
    let name ← textThen .ident
    let host ← channelPart .expectedHost
    let port ← channelPart .expectedPort
    return .clientChannel name host port
  | .stringType | .intType | .boolType =>
    advance
    if (← peekTag) = .ident then
      let name ← textThen .ident
      initialised fuel (declared (some first.text) name)
    else failAt .expectedName
  | .ident =>
    advance
    if (← peekTag) = .other ":" then
      advance
      let type ← peekText
      advance
      initialised fuel (declared (some type) first.text)
    else failAt .expectedColon
  | _ => failAt .invalidDeclaration

/-- The declaration of a server channel. -/
def serverDecl : Parser Node := do
  accept .serverChannel
  let name ← textThen .ident
  accept .lbrace
  let handler ← textThen .ident
  accept .comma
  let greeting ← textThen .ident
  accept .comma
  let host ← peek
  accept (if host.tag = .string then .string else .ident)
  accept .comma
  let port ← textThen .number
  accept .rbrace
  match intOfText port with
  | .ok n =>
    return .serverChannel name (.datum (.text host.text)) (.datum (.int n))
      (reference greeting) handler
  | .error fault => fail fault

/-- An assignment, a call or a mere variable. -/
def assignOrCall (fuel : Nat) : Parser Node := do
  let name ← textThen .ident
  match (← peekTag) with
  | .assign =>
    advance
    let right ← do
      if (← peekTag) = .other "INPUT" then
        advance
        if (← peekTag) = .lparen then
          let args ← argList fuel
          pure (Node.call none ⟨.other "INPUT", "input"⟩ args)
        else pure (Node.ident none ⟨.other "INPUT", "input"⟩ false)
      else expr fuel
    optionalSemicolon
    return .assign (reference name) right
  | .lparen =>
    let args ← argList fuel
    optionalSemicolon
    return .call none ⟨.ident, name⟩ args
  | _ =>
    optionalSemicolon
    return reference name

/-- A `send` statement: the message and the name of the channel. -/
def sendStmt (fuel : Nat) : Parser Node := do
  accept .send
  accept .lparen
  let message ← expr fuel
  accept .comma
  let channel ← textThen .ident
  accept .rparen
  return .call none ⟨.other "send", "send"⟩ [message, .datum (.text channel)]

/-- A `receive` statement: the variable and the name of the channel. -/
def receiveStmt : Parser Node := do
  let name ← textThen .ident
  accept .assign
  accept .receive
  accept .lparen
  let channel ← textThen .ident
  accept .rparen
  return .assign (reference name) (.datum (.text channel))

/-- An `output` statement. -/
def outputStmt (fuel : Nat) : Parser Node := do
  accept .output
  accept .lparen
  let shown ← expr fuel
  accept .rparen
  optionalSemicolon
  return .call none ⟨.other "output", "output"⟩ [shown]

/-- A `return` statement; without a result when a semicolon follows. -/
def returnStmt (fuel : Nat) : Parser Node := do
  accept .returnWord
  let result ← if (← peekTag) = .semicolon then pure (Node.datum .nothing) else expr fuel
  optionalSemicolon
  return .ret result

/-- An isolated `input`, with or without arguments. -/
def inputStmt (fuel : Nat) : Parser Node := do
  let first ← peek
  advance
  let node ← do
    if (← peekTag) = .lparen then
      let args ← argList fuel
      pure (Node.call none first args)
    else pure (Node.ident none first false)
  optionalSemicolon
  return node

/-- An isolated number. -/
def numberStmt : Parser Node := do
  let first ← peek
  advance
  optionalSemicolon
  return .constant (some "NUMBER") first

/-- The rest of the parameters of a function after those so far. -/
def paramsAfter : Nat → List Node → Parser (List Node)
  | 0, _ => outOfFuel
  | n + 1, params => do
    if (← peekTag) = .comma then
      advance
      let name ← textThen .ident
      paramsAfter n (params ++ [declared none name])
    else return params

/-- The parameters of a function, after the opening parenthesis. -/
def params (fuel : Nat) : Parser (List Node) := do
  if (← peekTag) = .rparen then return []
  else
    let name ← textThen .ident
    paramsAfter fuel [declared none name]

/-- A parameter with its type. -/
def typedParam : Parser Node := do
  let type ← peekText
  advance
  let name ← textThen .ident
  return declared (some type) name

/-- The rest of the typed parameters after those so far. -/
def typedParamsAfter : Nat → List Node → Parser (List Node)
  | 0, _ => outOfFuel
  | n + 1, params => do
    if (← peekTag) = .comma then
      advance
      let next ← typedParam
      typedParamsAfter n (params ++ [next])
    else return params

/-- Parameters with their types. -/
def typedParams (fuel : Nat) : Parser (List Node) := do
  let first ← typedParam
  typedParamsAfter fuel [first]

/-- A condition, in parentheses or not. -/
def condition (fuel : Nat) : Parser Node := do
  if (← peekTag) = .lparen then
    advance
    let c ← exprBool fuel
    accept .rparen
    return c
  else exprBool fuel

/-! ### Statements -/

/-- The tags that end a block without braces. -/
def blockEnds : List Tag := [.seq, .par, .endOfInput, .rbrace]

/-- Where a block without braces goes on after a statement that cannot be read. -/
def lenientStops : StopSet :=
  ⟨[.semicolon, .endOfInput, .seq, .par, .rbrace], by decide⟩

/-- Where a conditional goes on after a first branch that cannot be read. -/
def thenStops : StopSet :=
  ⟨[.elseWord, .semicolon, .endOfInput, .rbrace], by decide⟩

/-- Where a second branch, a loop or a function goes on after what cannot be read. -/
def bodyStops : StopSet :=
  ⟨[.semicolon, .endOfInput, .rbrace], by decide⟩

/-- Where the top level goes on after a statement that cannot be read or may not stand there. -/
def statementStops : StopSet :=
  ⟨[.semicolon, .endOfInput], by decide⟩

mutual

/-- A statement. -/
def stmt : Nat → Parser Node
  | 0 => outOfFuel
  | n + 1 => do
    let first ← peek
    match first.tag with
    | .stringType | .intType | .boolType | .clientChannel => varDecl n
    | .ident => assignOrCall n
    | .ifWord => ifStmt n
    | .whileWord => whileStmt n
    | .send => sendStmt n
    | .receive => receiveStmt
    | .output =>
      let node ← outputStmt n
      optionalSemicolon
      return node
    | .function => funcDecl n
    | .seq => seqBlock n
    | .par => parBlock n
    | .other "INPUT" => inputStmt n
    | .returnWord => returnStmt n
    | .elseWord =>
      advance
      match (← peekTag) with
      | .seq | .par => stmt n
      | _ =>
        let node ← stmt n
        optionalSemicolon
        return node
    | .number => numberStmt
    | _ => failAt (Fault.invalidStatement · first.text)

/-- The statements of a block up to its end; semicolons between them are passed over. -/
def stmts : Nat → List Node → Parser (List Node)
  | 0, _ => outOfFuel
  | n + 1, done => do
    let tag ← peekTag
    if blockEnds.contains tag then return done
    else if tag = .semicolon then
      advance
      stmts n done
    else
      let next ← stmt n
      stmts n (done ++ [next])

/-- The statements of a sequential block without braces.  A statement that cannot be read is left
out. -/
def lenientStmts : Nat → List Node → Parser (List Node)
  | 0, _ => outOfFuel
  | n + 1, done => do
    let tag ← peekTag
    if blockEnds.contains tag then return done
    else if tag = .semicolon then
      advance
      lenientStmts n done
    else
      let done ← recover (do return done ++ [← stmt n]) (do
        skipTo lenientStops
        optionalSemicolon
        return done)
      lenientStmts n done

/-- A sequential block. -/
def seqBlock : Nat → Parser Node
  | 0 => outOfFuel
  | n + 1 => do
    accept .seq
    if (← peekTag) = .lbrace then
      advance
      let body ← stmts n []
      accept .rbrace
      return .seq body
    else
      let body ← lenientStmts n []
      return .seq body

/-- A parallel block. -/
def parBlock : Nat → Parser Node
  | 0 => outOfFuel
  | n + 1 => do
    accept .par
    if (← peekTag) = .lbrace then
      advance
      let body ← stmts n []
      accept .rbrace
      return .par body
    else
      let body ← stmts n []
      return .par body

/-- The body of a conditional or loop: a block, statements in braces or a single statement. -/
def body : Nat → Parser (List Node)
  | 0 => outOfFuel
  | n + 1 => do
    match (← peekTag) with
    | .lbrace =>
      advance
      let inner ← stmts n []
      accept .rbrace
      return inner
    | _ => return [← stmt n]

/-- A conditional.  A branch that cannot be read is left empty. -/
def ifStmt : Nat → Parser Node
  | 0 => outOfFuel
  | n + 1 => do
    accept .ifWord
    let c ← condition n
    let thenBody ← recover (body n) (do
      skipTo thenStops
      return [])
    if (← peekTag) = .elseWord then
      advance
      let elseBody ← recover (body n) (do
        skipTo bodyStops
        return [])
      return .cond c thenBody (some elseBody)
    else return .cond c thenBody (some [])

/-- A loop.  A body that cannot be read is left empty. -/
def whileStmt : Nat → Parser Node
  | 0 => outOfFuel
  | n + 1 => do
    accept .whileWord
    let c ← condition n
    let inner ← recover (body n) (do
      skipTo bodyStops
      optionalSemicolon
      return [])
    return .loop c inner

/-- The statements of a function in braces.  A statement that cannot be read is left out. -/
def funcStmts : Nat → List Node → Parser (List Node)
  | 0, _ => outOfFuel
  | n + 1, done => do
    match (← peekTag) with
    | .rbrace | .endOfInput => return done
    | .semicolon =>
      advance
      funcStmts n done
    | _ =>
      let done ← recover (do return done ++ [← stmt n]) (do
        skipTo bodyStops
        optionalSemicolon
        return done)
      funcStmts n done

/-- A function definition. -/
def funcDecl : Nat → Parser Node
  | 0 => outOfFuel
  | n + 1 => do
    accept .function
    let name ← textThen .ident
    accept .lparen
    let ps ← params n
    accept .rparen
    if (← peekTag) = .lbrace then
      advance
      let inner ← funcStmts n []
      accept .rbrace
      return .funcDef name none ps inner
    else
      let inner ← stmt n
      return .funcDef name none ps [inner]

end

/-- A block. -/
def block (fuel : Nat) : Parser Node := do
  let first ← peek
  match first.tag with
  | .seq => seqBlock fuel
  | .par => parBlock fuel
  | _ => failAt (Fault.expectedBlock · first.text)

/-! ### Programs -/

/-- Whether a statement may stand at the top level, blocks apart. -/
def startsTopLevel : Tag → Bool
  | .ident | .function | .output | .clientChannel | .serverChannel | .stringType | .intType
  | .boolType => true
  | _ => false

/-- Goes on after the next semicolon. -/
def skipStatement : Parser Unit := do
  skipTo statementStops
  optionalSemicolon

/-- The statements of a program.  Outside blocks, what cannot be read or may not stand there is
left out, up to the next semicolon. -/
def topLevelAfter : Nat → List Node → Parser (List Node)
  | 0, _ => outOfFuel
  | n + 1, done => do
    match (← peekTag) with
    | .endOfInput => return done
    | .semicolon =>
      advance
      topLevelAfter n done
    | .seq | .par =>
      let next ← block n
      topLevelAfter n (done ++ [next])
    | tag =>
      let done ←
        if startsTopLevel tag then
          recover (do return done ++ [← stmt n]) (do
            skipStatement
            return done)
        else do
          skipStatement
          pure done
      topLevelAfter n done

/-- The statements of a program. -/
def topLevel (fuel : Nat) : Parser (List Node) :=
  topLevelAfter fuel []

/-- A whole program. -/
def program (fuel : Nat) : Parser Node := do
  return .program (← topLevel fuel)

/-- A bound on the depth of the parsers for a number of tokens. -/
def fuelFor (tokens : Nat) : Nat :=
  16 * (tokens + 2)

/-- Runs a parser on a list of tokens: its result or the reason why there is none, and the place
where it stopped.  There is nothing to run on without tokens. -/
def runOn {α : Type} (p : Nat → Parser α) (tokens : List Located) :
    Except Fault (EStateM.Result Halt Cursor α) :=
  match Cursor.start? tokens with
  | none => .error .noTokens
  | some c => .ok (p (fuelFor tokens.length) c)

end SeqPar.Parser
