import SeqPar.Token.Basic

/-!
# Values and syntax trees

A program is a tree of nodes.  Running it computes with values.  The two types refer to each
other: a function definition evaluates to its own node, so nodes are values, and plain data may
stand where a node is expected, so a value may stand in a tree.

The trees make no difference between expressions and statements.  A function body ends with the
value of its last statement, whatever that statement is, and running a node that computes nothing
gives `Value.nothing`.

## Main definitions

* `Value` — what variables hold and nodes evaluate to.
* `Node` — syntax trees.
* `Value.kindName`, `Node.kindName` — the names of the kinds of values and nodes.
-/

namespace SeqPar

mutual

/-- What variables hold and nodes evaluate to. -/
inductive Value where
  /-- The absence of a value. -/
  | nothing
  /-- A truth value. -/
  | bool (b : Bool)
  /-- A whole number of any size. -/
  | int (n : Int)
  /-- A double. -/
  | float (x : Float)
  /-- Not a number, as a part of a list, tuple, dictionary or tree.  It differs from every number and
  as an operand also from itself, but as a part it is the same as the one with the same mark. -/
  | notANumber (mark : Nat)
  /-- A text. -/
  | text (s : String)
  /-- A list. -/
  | list (items : List Value)
  /-- A tuple. -/
  | tuple (items : List Value)
  /-- A dictionary, its entries in the order in which they were put in. -/
  | dict (entries : List (Value × Value))
  /-- A token. -/
  | token (t : Token)
  /-- A syntax tree. -/
  | node (n : Node)

/-- A syntax tree.  The optional text in front of the token of an expression names its type. -/
inductive Node where
  /-- Plain data in the place of a node. -/
  | datum (v : Value)
  /-- A literal. -/
  | constant (type : Option String) (token : Token)
  /-- A variable, or with `decl` its declaration. -/
  | ident (type : Option String) (token : Token) (decl : Bool)
  /-- A conjunction or disjunction. -/
  | logical (type : Option String) (token : Token) (left right : Node)
  /-- A comparison. -/
  | relational (type : Option String) (token : Token) (left right : Node)
  /-- A sum, difference, product, quotient or remainder. -/
  | arithmetic (type : Option String) (token : Token) (left right : Node)
  /-- A negation of a truth value or of a number. -/
  | unary (type : Option String) (token : Token) (expr : Node)
  /-- A call of the function that the token names. -/
  | call (type : Option String) (token : Token) (args : List Node)
  /-- An element of a list or dictionary. -/
  | access (type : Option String) (token : Token) (base index : Node)
  /-- A whole program. -/
  | program (stmts : List Node)
  /-- An assignment. -/
  | assign (left right : Node)
  /-- A conditional; without `else` branch the last part may be missing. -/
  | cond (condition : Node) (body : List Node) (orElse : Option (List Node))
  /-- A loop. -/
  | loop (condition : Node) (body : List Node)
  /-- A function definition. -/
  | funcDef (name : String) (returnType : Option String) (params body : List Node)
  /-- A sequential block. -/
  | seq (body : List Node)
  /-- A parallel block. -/
  | par (body : List Node)
  /-- A client channel: its name, and the host and port it connects to. -/
  | clientChannel (name : String) (host port : Node)
  /-- A server channel: its name, the host and port it listens at, the greeting that it sends and
  the function that answers its clients. -/
  | serverChannel (name : String) (host port greeting : Node) (handler : String)
  /-- The end of a loop. -/
  | breakLoop
  /-- The next round of a loop. -/
  | continueLoop
  /-- The end of a function, with its result. -/
  | ret (expr : Node)
  /-- A bare node of no kind.  It is the same as the one with the same mark only. -/
  | blank (mark : Nat)
  /-- A statement of no kind. -/
  | statement
  /-- An expression of no kind. -/
  | expression (type : Option String) (token : Token)

end

instance : Inhabited Value := ⟨.nothing⟩

instance : Inhabited Node := ⟨.statement⟩

/-- A node as a value: plain data stands for itself. -/
def Node.toValue : Node → Value
  | .datum v => v
  | n => .node n

/-- A value as a node: anything but a node is plain data. -/
def Value.toNode : Value → Node
  | .node n => n
  | v => .datum v

/-- The name of the kind of a syntax tree; plain data has none. -/
def Node.kindName? : Node → Option String
  | .datum _ => none
  | .constant .. => some "Constant"
  | .ident .. => some "ID"
  | .logical .. => some "Logical"
  | .relational .. => some "Relational"
  | .arithmetic .. => some "Arithmetic"
  | .unary .. => some "Unary"
  | .call .. => some "Call"
  | .access .. => some "Access"
  | .program .. => some "Module"
  | .assign .. => some "Assign"
  | .cond .. => some "If"
  | .loop .. => some "While"
  | .funcDef .. => some "FuncDef"
  | .seq .. => some "Seq"
  | .par .. => some "Par"
  | .clientChannel .. => some "CChannel"
  | .serverChannel .. => some "SChannel"
  | .breakLoop => some "Break"
  | .continueLoop => some "Continue"
  | .ret .. => some "Return"
  | .blank _ => some "Node"
  | .statement => some "Statement"
  | .expression .. => some "Expression"

mutual

/-- The name of the kind of a value. -/
def Value.kindName : Value → String
  | .nothing => "NoneType"
  | .bool _ => "bool"
  | .int _ => "int"
  | .float _ | .notANumber _ => "float"
  | .text _ => "str"
  | .list _ => "list"
  | .tuple _ => "tuple"
  | .dict _ => "dict"
  | .token _ => "Token"
  | .node n => n.kindName

/-- The name of the kind of a node, or of the value that stands in its place. -/
def Node.kindName : Node → String
  | .datum v => v.kindName
  | n => n.kindName?.getD ""

end

/-- The token of an expression; statements and plain data have none. -/
def Node.token? : Node → Option Token
  | .constant _ t | .ident _ t _ | .logical _ t .. | .relational _ t .. | .arithmetic _ t ..
  | .unary _ t _ | .call _ t _ | .access _ t .. | .expression _ t => some t
  | _ => none

end SeqPar
