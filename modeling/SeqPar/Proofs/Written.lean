import SeqPar.Parse.Grammar

/-!
# Written programs

A written program is a syntax tree as an author writes it down: next to the tree it settles the
layout that the tree does not show, which is the number of semicolons after a statement and the
parentheses that the grouping does not need.  It has two views: the tree, and the tokens.

Operators group from the left, sums bind weaker than products and products weaker than negations;
an operand is put in parentheses where that grouping asks for it.  There are two more places for
parentheses.  A number right in front of a `/` would take the slash as its decimal point, so the
left operand of a quotient is put in parentheses when it ends with a number.  A condition that
starts with a negation cannot be read, so its first operand is put in parentheses when it starts
with one.

## Main definitions

* `Expr`, `Condition`, `Stmt`, `Item` — written expressions, conditions, statements and parts of the
  top level.
* `Expr.node`, `Condition.node`, `Stmt.node`, `Item.node` — their trees.
* `Expr.tokens`, `Condition.tokens`, `Stmt.tokens`, `Item.tokens` — their tokens.
* `Stmt.Flat` — no block stands inside another body.
-/

namespace SeqPar.Written

open SeqPar.Parser (reference declared)

/-! ### Fixed tokens -/

/-- The text of the tokens that are always spelled in the same way. -/
def spelling : Tag → String
  | .stringType => "string"
  | .intType => "int"
  | .boolType => "bool"
  | .seq => "SEQ"
  | .par => "PAR"
  | .function => "function"
  | .ifWord => "if"
  | .elseWord => "else"
  | .whileWord => "while"
  | .output => "output"
  | .returnWord => "return"
  | .eq => "=="
  | .neq => "!="
  | .lte => "<="
  | .gte => ">="
  | .lt => "<"
  | .gt => ">"
  | .and => "&&"
  | .or => "||"
  | .not => "!"
  | .assign => "="
  | .plus => "+"
  | .minus => "-"
  | .times => "*"
  | .divide => "/"
  | .lparen => "("
  | .rparen => ")"
  | .lbrace => "\x7b"
  | .rbrace => "\x7d"
  | .comma => ","
  | .semicolon => ";"
  | _ => ""

/-- The token of a tag that is always spelled in the same way. -/
def mark (tag : Tag) : Token := ⟨tag, spelling tag⟩

@[simp] theorem mark_tag (tag : Tag) : (mark tag).tag = tag := rfl

/-- The token of a name. -/
def named (name : String) : Token := ⟨.ident, name⟩

@[simp] theorem named_tag (name : String) : (named name).tag = .ident := rfl

/-- Tokens in parentheses. -/
def parens (ts : List Token) : List Token :=
  mark .lparen :: (ts ++ [mark .rparen])

/-- Tokens in parentheses, if the condition holds. -/
def parensIf (b : Bool) (ts : List Token) : List Token :=
  if b then parens ts else ts

/-- Whether the last of some tokens is a number. -/
def endsInNumber (ts : List Token) : Bool :=
  ts.getLast?.any fun t => t.tag = .number

/-- Whether the first of some tokens is a negation. -/
def startsWithNot (ts : List Token) : Bool :=
  ts.head?.any fun t => t.tag = .not

/-! ### Expressions -/

/-- The kinds of literals. -/
inductive Literal where
  /-- A number, written as one token. -/
  | number
  /-- A text. -/
  | string
  /-- A truth value. -/
  | bool
  deriving DecidableEq, Repr

/-- The tag of a literal. -/
def Literal.tag : Literal → Tag
  | .number => .number
  | .string => .string
  | .bool => .bool

/-- The operators with two operands. -/
inductive BinaryOp where
  /-- Addition. -/
  | add
  /-- Subtraction. -/
  | sub
  /-- Multiplication. -/
  | mul
  /-- Division. -/
  | div
  deriving DecidableEq, Repr

/-- The tag of an operator. -/
def BinaryOp.tag : BinaryOp → Tag
  | .add => .plus
  | .sub => .minus
  | .mul => .times
  | .div => .divide

/-- How strong an operator binds: sums 0, products 1. -/
def BinaryOp.strength : BinaryOp → Nat
  | .add | .sub => 0
  | .mul | .div => 1

/-- The operators with one operand. -/
inductive UnaryOp where
  /-- The negation of a truth value. -/
  | not
  /-- The negation of a number. -/
  | neg
  deriving DecidableEq, Repr

/-- The tag of an operator. -/
def UnaryOp.tag : UnaryOp → Tag
  | .not => .not
  | .neg => .minus

/-- The name of the type of the result of an operator. -/
def UnaryOp.typeName : UnaryOp → String
  | .not => "BOOL"
  | .neg => "NUMBER"

/-- A written expression. -/
inductive Expr where
  /-- A literal with its text. -/
  | literal (kind : Literal) (text : String)
  /-- A variable. -/
  | var (name : String)
  /-- A call. -/
  | call (name : String) (args : List Expr)
  /-- An operation on two operands. -/
  | binary (op : BinaryOp) (left right : Expr)
  /-- An operation on one operand. -/
  | unary (op : UnaryOp) (operand : Expr)
  /-- An expression in parentheses that its place may not need. -/
  | grouped (inner : Expr)

namespace Expr

/-- How strong an expression holds together: sums 0, products 1, all others 2. -/
def strength : Expr → Nat
  | .binary op _ _ => op.strength
  | _ => 2

mutual

/-- The tree of an expression. -/
def node : Expr → Node
  | .literal kind text => .constant (some kind.tag.name) ⟨kind.tag, text⟩
  | .var name => reference name
  | .call name args => .call none (named name) (nodes args)
  | .binary op left right => .arithmetic none (mark op.tag) left.node right.node
  | .unary op operand => .unary (some op.typeName) (mark op.tag) operand.node
  | .grouped inner => inner.node

/-- The trees of expressions. -/
def nodes : List Expr → List Node
  | [] => []
  | e :: es => e.node :: nodes es

end

/-- Whether the left operand of an operator, with the given tokens, needs parentheses. -/
def wrapsLeft (op : BinaryOp) (left : Expr) (ts : List Token) : Bool :=
  left.strength < op.strength || op = .div && endsInNumber ts

/-- Whether the right operand of an operator needs parentheses. -/
def wrapsRight (op : BinaryOp) (right : Expr) : Bool :=
  right.strength ≤ op.strength

mutual

/-- The tokens of an expression. -/
def tokens : Expr → List Token
  | .literal kind text => [⟨kind.tag, text⟩]
  | .var name => [named name]
  | .call name args => named name :: mark .lparen :: (argTokens args ++ [mark .rparen])
  | .binary op left right =>
    parensIf (wrapsLeft op left left.tokens) left.tokens ++
      mark op.tag :: parensIf (wrapsRight op right) right.tokens
  | .unary op operand => mark op.tag :: parensIf (operand.strength < 2) operand.tokens
  | .grouped inner => parens inner.tokens

/-- The tokens of arguments, with commas between them. -/
def argTokens : List Expr → List Token
  | [] => []
  | e :: es => e.tokens ++ moreArgTokens es

/-- The tokens of further arguments, with a comma before each. -/
def moreArgTokens : List Expr → List Token
  | [] => []
  | e :: es => mark .comma :: (e.tokens ++ moreArgTokens es)

end

attribute [simp] node nodes tokens argTokens moreArgTokens

end Expr

/-! ### Conditions -/

/-- The comparisons. -/
inductive Comparison where
  /-- Equal. -/
  | eq
  /-- Different. -/
  | neq
  /-- Less. -/
  | lt
  /-- Greater. -/
  | gt
  /-- Less or equal. -/
  | lte
  /-- Greater or equal. -/
  | gte
  deriving DecidableEq, Repr

/-- The tag of a comparison. -/
def Comparison.tag : Comparison → Tag
  | .eq => .eq
  | .neq => .neq
  | .lt => .lt
  | .gt => .gt
  | .lte => .lte
  | .gte => .gte

/-- The connectives of conditions. -/
inductive Connective where
  /-- Conjunction. -/
  | and
  /-- Disjunction. -/
  | or
  deriving DecidableEq, Repr

/-- The tag of a connective. -/
def Connective.tag : Connective → Tag
  | .and => .and
  | .or => .or

/-- A part of a condition without connectives. -/
inductive Test where
  /-- An expression. -/
  | plain (e : Expr)
  /-- A comparison of two expressions. -/
  | compare (op : Comparison) (left right : Expr)

/-- The tree of a test. -/
def Test.node : Test → Node
  | .plain e => e.node
  | .compare op left right => .relational (some "BOOL") (mark op.tag) left.node right.node

/-- An expression as the first operand of a test: in parentheses when it starts with a negation. -/
def Expr.leading (e : Expr) : Expr :=
  if startsWithNot e.tokens then .grouped e else e

/-- The tokens of a test. -/
def Test.tokens : Test → List Token
  | .plain e => e.leading.tokens
  | .compare op left right => left.leading.tokens ++ mark op.tag :: right.tokens

/-- A written condition: tests with connectives between them. -/
inductive Condition where
  /-- A single test. -/
  | test (t : Test)
  /-- A test, a connective and the rest of the condition. -/
  | chain (t : Test) (op : Connective) (rest : Condition)

/-- The tree of a condition, grouped from the right. -/
def Condition.node : Condition → Node
  | .test t => t.node
  | .chain t op rest => .logical (some "BOOL") (mark op.tag) t.node rest.node

/-- The tokens of a condition. -/
def Condition.tokens : Condition → List Token
  | .test t => t.tokens
  | .chain t op rest => t.tokens ++ mark op.tag :: rest.tokens

/-! ### Statements -/

/-- The types of declarations. -/
inductive DeclType where
  /-- The type of texts. -/
  | string
  /-- The type of whole numbers. -/
  | int
  /-- The type of truth values. -/
  | bool
  deriving DecidableEq, Repr

/-- The tag of a type. -/
def DeclType.tag : DeclType → Tag
  | .string => .stringType
  | .int => .intType
  | .bool => .boolType

/-- The kinds of blocks. -/
inductive BlockKind where
  /-- Sequential. -/
  | seq
  /-- Parallel. -/
  | par
  deriving DecidableEq, Repr

/-- The tag of the token that opens a block. -/
def BlockKind.tag : BlockKind → Tag
  | .seq => .seq
  | .par => .par

/-- The tree of a block. -/
def BlockKind.node : BlockKind → List Node → Node
  | .seq => .seq
  | .par => .par

/-- A written statement.  Simple statements end with one semicolon and `extra` further ones. -/
inductive Stmt where
  /-- An assignment. -/
  | assign (name : String) (value : Expr) (extra : Nat)
  /-- A declaration without a value. -/
  | declare (type : DeclType) (name : String) (extra : Nat)
  /-- A declaration with a value. -/
  | declareInit (type : DeclType) (name : String) (value : Expr) (extra : Nat)
  /-- A call. -/
  | call (name : String) (args : List Expr) (extra : Nat)
  /-- An output. -/
  | output (shown : Expr) (extra : Nat)
  /-- The end of a function without a result. -/
  | ret (extra : Nat)
  /-- The end of a function with its result. -/
  | retValue (result : Expr) (extra : Nat)
  /-- A conditional without `else`. -/
  | ifThen (condition : Condition) (body : List Stmt)
  /-- A conditional with `else`. -/
  | ifElse (condition : Condition) (body orElse : List Stmt)
  /-- A loop. -/
  | loop (condition : Condition) (body : List Stmt)
  /-- A function definition. -/
  | func (name : String) (params : List String) (body : List Stmt)
  /-- A block. -/
  | block (kind : BlockKind) (body : List Stmt)

/-- The tokens of the parameters of a function after the first, with a comma before each. -/
def moreParamTokens : List String → List Token
  | [] => []
  | p :: ps => mark .comma :: named p :: moreParamTokens ps

/-- The tokens of the parameters of a function, with commas between them. -/
def paramTokens : List String → List Token
  | [] => []
  | p :: ps => named p :: moreParamTokens ps

/-- The given number of semicolons. -/
def semicolons (n : Nat) : List Token :=
  List.replicate n (mark .semicolon)

/-- Tokens in braces. -/
def braces (ts : List Token) : List Token :=
  mark .lbrace :: (ts ++ [mark .rbrace])

namespace Stmt

mutual

/-- The tree of a statement. -/
def node : Stmt → Node
  | .assign name value _ => .assign (reference name) value.node
  | .declare type name _ => declared (some (spelling type.tag)) name
  | .declareInit type name value _ =>
    .assign (declared (some (spelling type.tag)) name) value.node
  | .call name args _ => .call none (named name) (Expr.nodes args)
  | .output shown _ => .call none ⟨.other "output", "output"⟩ [shown.node]
  | .ret _ => .ret (.datum .nothing)
  | .retValue result _ => .ret result.node
  | .ifThen condition body => .cond condition.node (nodes body) (some [])
  | .ifElse condition body orElse => .cond condition.node (nodes body) (some (nodes orElse))
  | .loop condition body => .loop condition.node (nodes body)
  | .func name params body => .funcDef name none (params.map (declared none)) (nodes body)
  | .block kind body => kind.node (nodes body)

/-- The trees of statements. -/
def nodes : List Stmt → List Node
  | [] => []
  | s :: ss => s.node :: nodes ss

end

mutual

/-- The tokens of a statement. -/
def tokens : Stmt → List Token
  | .assign name value extra =>
    named name :: mark .assign :: (value.tokens ++ semicolons (extra + 1))
  | .declare type name extra => mark type.tag :: named name :: semicolons (extra + 1)
  | .declareInit type name value extra =>
    mark type.tag :: named name :: mark .assign :: (value.tokens ++ semicolons (extra + 1))
  | .call name args extra =>
    named name :: mark .lparen :: (Expr.argTokens args ++ mark .rparen :: semicolons (extra + 1))
  | .output shown extra =>
    mark .output :: mark .lparen :: (shown.tokens ++ mark .rparen :: semicolons (extra + 1))
  | .ret extra => mark .returnWord :: semicolons (extra + 1)
  | .retValue result extra => mark .returnWord :: (result.tokens ++ semicolons (extra + 1))
  | .ifThen condition body =>
    mark .ifWord :: (parens condition.tokens ++ braces (allTokens body))
  | .ifElse condition body orElse =>
    mark .ifWord :: (parens condition.tokens ++ (braces (allTokens body) ++
      mark .elseWord :: braces (allTokens orElse)))
  | .loop condition body =>
    mark .whileWord :: (parens condition.tokens ++ braces (allTokens body))
  | .func name params body =>
    mark .function :: named name :: (parens (paramTokens params) ++ braces (allTokens body))
  | .block kind body => mark kind.tag :: braces (allTokens body)

/-- The tokens of statements. -/
def allTokens : List Stmt → List Token
  | [] => []
  | s :: ss => s.tokens ++ allTokens ss

end

attribute [simp] node nodes tokens allTokens

/-- Whether a statement is a block. -/
def isBlock : Stmt → Bool
  | .block .. => true
  | _ => false

mutual

/-- No block stands inside a body, however deep. -/
def Flat : Stmt → Prop
  | .ifThen _ body | .loop _ body | .func _ _ body | .block _ body => AllFlat body
  | .ifElse _ body orElse => AllFlat body ∧ AllFlat orElse
  | _ => True

/-- No statement is a block or has one inside. -/
def AllFlat : List Stmt → Prop
  | [] => True
  | s :: ss => s.isBlock = false ∧ s.Flat ∧ AllFlat ss

end

end Stmt

/-! ### Programs -/

/-- A part of the top level of a written program. -/
inductive Item where
  /-- A block. -/
  | block (kind : BlockKind) (body : List Stmt)
  /-- A function definition. -/
  | func (name : String) (params : List String) (body : List Stmt)
  /-- An assignment. -/
  | assign (name : String) (value : Expr) (extra : Nat)
  /-- An output. -/
  | output (shown : Expr) (extra : Nat)

namespace Item

/-- A part of the top level as a statement. -/
def toStmt : Item → Stmt
  | .block kind body => .block kind body
  | .func name params body => .func name params body
  | .assign name value extra => .assign name value extra
  | .output shown extra => .output shown extra

/-- The tree of a part of the top level. -/
def node (i : Item) : Node := i.toStmt.node

/-- The tokens of a part of the top level. -/
def tokens (i : Item) : List Token := i.toStmt.tokens

end Item

/-- The tree of a written program. -/
def programNode (items : List Item) : Node :=
  .program (items.map Item.node)

/-- The tokens of a written program. -/
def programTokens (items : List Item) : List Token :=
  items.flatMap Item.tokens

end SeqPar.Written
