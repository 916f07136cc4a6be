import SeqPar.Parse.Grammar

/-!
# Phrases

The phrases of the grammar that can be read on their own, each from the start of a list of tokens.

## Main definitions

* `Phrase`, `Phrase.parser` — the phrases and their parsers.
* `programOf` — the program that a list of tokens forms.
-/

namespace SeqPar

/-- A phrase of the grammar. -/
inductive Phrase where
  /-- A whole program. -/
  | program
  /-- The statements of a program. -/
  | topLevel
  /-- A block. -/
  | block
  /-- A sequential block. -/
  | seqBlock
  /-- A parallel block. -/
  | parBlock
  /-- The statements of a block. -/
  | stmts
  /-- A statement. -/
  | stmt
  /-- A declaration of a variable or client channel. -/
  | varDecl
  /-- A declaration of a server channel. -/
  | serverDecl
  /-- An assignment, call or variable. -/
  | assignOrCall
  /-- A conditional. -/
  | ifStmt
  /-- A loop. -/
  | whileStmt
  /-- A `send` statement. -/
  | sendStmt
  /-- A `receive` statement. -/
  | receiveStmt
  /-- An `output` statement. -/
  | outputStmt
  /-- A function definition. -/
  | funcDecl
  /-- Typed parameters. -/
  | typedParams
  /-- A typed parameter. -/
  | typedParam
  /-- Arguments in parentheses. -/
  | argList
  /-- A sum. -/
  | expr
  /-- A product. -/
  | term
  /-- A factor. -/
  | factor
  /-- A condition. -/
  | exprBool
  /-- A `return` statement. -/
  | returnStmt
  deriving DecidableEq, Repr

/-- Nodes as a list value. -/
def Value.ofNodes (nodes : List Node) : Value :=
  .list (nodes.map Node.toValue)

/-- The parser of a phrase. -/
def Phrase.parser (phrase : Phrase) (fuel : Nat) : Parser Value :=
  match phrase with
  | .program => Node.toValue <$> Parser.program fuel
  | .topLevel => Value.ofNodes <$> Parser.topLevel fuel
  | .block => Node.toValue <$> Parser.block fuel
  | .seqBlock => Node.toValue <$> Parser.seqBlock fuel
  | .parBlock => Node.toValue <$> Parser.parBlock fuel
  | .stmts => Value.ofNodes <$> Parser.stmts fuel []
  | .stmt => Node.toValue <$> Parser.stmt fuel
  | .varDecl => Node.toValue <$> Parser.varDecl fuel
  | .serverDecl => Node.toValue <$> Parser.serverDecl
  | .assignOrCall => Node.toValue <$> Parser.assignOrCall fuel
  | .ifStmt => Node.toValue <$> Parser.ifStmt fuel
  | .whileStmt => Node.toValue <$> Parser.whileStmt fuel
  | .sendStmt => Node.toValue <$> Parser.sendStmt fuel
  | .receiveStmt => Node.toValue <$> Parser.receiveStmt
  | .outputStmt => Node.toValue <$> Parser.outputStmt fuel
  | .funcDecl => Node.toValue <$> Parser.funcDecl fuel
  | .typedParams => Value.ofNodes <$> Parser.typedParams fuel
  | .typedParam => Node.toValue <$> Parser.typedParam
  | .argList => Value.ofNodes <$> Parser.argList fuel
  | .expr => Node.toValue <$> Parser.expr fuel
  | .term => Node.toValue <$> Parser.term fuel
  | .factor => Node.toValue <$> Parser.factor fuel
  | .exprBool => Node.toValue <$> Parser.exprBool fuel
  | .returnStmt => Node.toValue <$> Parser.returnStmt fuel

/-- What a parser gives on a list of tokens, without the place where it stops. -/
def Parser.resultOn {α : Type} (p : Nat → Parser α) (tokens : List Located) : Except Halt α :=
  match Parser.runOn p tokens with
  | .error fault => .error (.fault fault)
  | .ok (.ok a _) => .ok a
  | .ok (.error halt _) => .error halt

/-- The statements of the program that a list of tokens forms. -/
def programOf (tokens : List Located) : Except Halt (List Node) :=
  Parser.resultOn Parser.topLevel tokens

end SeqPar
