import SeqPar.Fault
import SeqPar.Node.Basic
import SeqPar.Number.Binary

/-!
# Truth, equality and order of values

Truth values count as the numbers zero and one, and numbers of different kinds are compared by
their exact values.  Texts are ordered by code points, lists and tuples by their first difference.
Values of other kinds, or of different kinds, are not ordered, but they can be told apart.

What is not a number differs from itself as an operand.  As a part of a list, tuple, dictionary or
tree it is the same as itself: its mark tells it apart from the others.

## Main definitions

* `Value.holds` — whether a value counts as true.
* `Value.same`, `Value.samePart` — equality of values, and of parts of values.
* `Value.ofEntries` — dictionaries.
* `Comparison`, `Value.compare` — the order of values.
-/

namespace SeqPar

open SeqPar.Number

/-- Whether a value counts as true: anything but zero and what is empty. -/
def Value.holds : Value → Bool
  | .nothing => false
  | .bool b => b
  | .int n => n != 0
  | .float x => x != 0
  | .notANumber _ => true
  | .text s => !s.isEmpty
  | .list items => !items.isEmpty
  | .tuple items => !items.isEmpty
  | .dict entries => !entries.isEmpty
  | .token _ => true
  | .node _ => true

/-- A number of either kind. -/
inductive Numeric where
  /-- A whole number. -/
  | int (n : Int)
  /-- A double. -/
  | float (x : Float)

/-- The number that a value is; a truth value is zero or one. -/
def Value.numeric? : Value → Option Numeric
  | .bool b => some (.int (if b then 1 else 0))
  | .int n => some (.int n)
  | .float x => some (.float x)
  | .notANumber _ => some (.float nan)
  | _ => none

/-- How two numbers compare by their exact values; `none` when one is not a number. -/
def Numeric.compare : Numeric → Numeric → Option Ordering
  | .int a, .int b => some (Ord.compare a b)
  | .float x, .int b => compareInt x b
  | .int a, .float y => (compareInt y a).map Ordering.swap
  | .float x, .float y =>
    if x < y then some .lt else if y < x then some .gt else if x == y then some .eq else none

/-- Whether two values are the same number; `none` when one of them is no number. -/
def Value.sameNumber? (v w : Value) : Option Bool :=
  match v.numeric?, w.numeric? with
  | some a, some b => some (a.compare b == some .eq)
  | some _, none => some false
  | none, some _ => some false
  | none, none => none

/-! ### Equality -/

/-- Whether two values are one and the same part that is not a number. -/
def Value.isMarkedAs : Value → Value → Bool
  | .notANumber mark, .notANumber mark' => mark == mark'
  | _, _ => false

mutual

/-- Whether two values are the same. -/
def Value.same : Value → Value → Bool
  | .nothing, w => match w with
    | .nothing => true
    | _ => false
  | .bool b, w => (Value.sameNumber? (.bool b) w).getD false
  | .int n, w => (Value.sameNumber? (.int n) w).getD false
  | .float x, w => (Value.sameNumber? (.float x) w).getD false
  | .notANumber _, _ => false
  | .text s, w => match w with
    | .text t => s == t
    | _ => false
  | .list vs, w => match w with
    | .list ws => Value.sameAll vs ws
    | _ => false
  | .tuple vs, w => match w with
    | .tuple ws => Value.sameAll vs ws
    | _ => false
  | .dict entries, w => match w with
    | .dict others => entries.length == others.length && Value.sameEntries entries others
    | _ => false
  | .token s, w => match w with
    | .token t => s == t
    | _ => false
  | .node m, w => match w with
    | .node n => Node.same m n
    | _ => false

/-- Whether two lists hold the same values. -/
def Value.sameAll : List Value → List Value → Bool
  | [], ws => ws.isEmpty
  | v :: vs, ws => match ws with
    | [] => false
    | w :: rest => (v.isMarkedAs w || Value.same v w) && Value.sameAll vs rest

/-- Whether every entry is among other entries. -/
def Value.sameEntries : List (Value × Value) → List (Value × Value) → Bool
  | [], _ => true
  | (k, v) :: rest, others =>
    (others.any fun (l, w) =>
      (k.isMarkedAs l || Value.same k l) && (v.isMarkedAs w || Value.same v w)) &&
      Value.sameEntries rest others

/-- Whether two nodes are the same tree. -/
def Node.same : Node → Node → Bool
  | .datum v, n => match n with
    | .datum w => v.isMarkedAs w || Value.same v w
    | _ => false
  | .logical type t l r, n => match n with
    | .logical type' t' l' r' =>
      type == type' && t == t' && Node.same l l' && Node.same r r'
    | _ => false
  | .relational type t l r, n => match n with
    | .relational type' t' l' r' =>
      type == type' && t == t' && Node.same l l' && Node.same r r'
    | _ => false
  | .arithmetic type t l r, n => match n with
    | .arithmetic type' t' l' r' =>
      type == type' && t == t' && Node.same l l' && Node.same r r'
    | _ => false
  | .unary type t e, n => match n with
    | .unary type' t' e' => type == type' && t == t' && Node.same e e'
    | _ => false
  | .call type t args, n => match n with
    | .call type' t' args' => type == type' && t == t' && Node.sameAll args args'
    | _ => false
  | .access type t b i, n => match n with
    | .access type' t' b' i' =>
      type == type' && t == t' && Node.same b b' && Node.same i i'
    | _ => false
  | .program body, n => match n with
    | .program body' => Node.sameAll body body'
    | _ => false
  | .assign l r, n => match n with
    | .assign l' r' => Node.same l l' && Node.same r r'
    | _ => false
  | .cond c body orElse, n => match n with
    | .cond c' body' orElse' =>
      Node.same c c' && Node.sameAll body body' && (match orElse, orElse' with
        | none, none => true
        | some stmts, some stmts' => Node.sameAll stmts stmts'
        | _, _ => false)
    | _ => false
  | .loop c body, n => match n with
    | .loop c' body' => Node.same c c' && Node.sameAll body body'
    | _ => false
  | .funcDef name type params body, n => match n with
    | .funcDef name' type' params' body' =>
      name == name' && type == type' && Node.sameAll params params' && Node.sameAll body body'
    | _ => false
  | .seq body, n => match n with
    | .seq body' => Node.sameAll body body'
    | _ => false
  | .par body, n => match n with
    | .par body' => Node.sameAll body body'
    | _ => false
  | .clientChannel name host port, n => match n with
    | .clientChannel name' host' port' =>
      name == name' && Node.same host host' && Node.same port port'
    | _ => false
  | .serverChannel name host port greeting handler, n => match n with
    | .serverChannel name' host' port' greeting' handler' =>
      name == name' && Node.same host host' && Node.same port port' &&
        Node.same greeting greeting' && handler == handler'
    | _ => false
  | .ret e, n => match n with
    | .ret e' => Node.same e e'
    | _ => false
  | .constant type t, n => match n with
    | .constant type' t' => type == type' && t == t'
    | _ => false
  | .ident type t decl, n => match n with
    | .ident type' t' decl' => type == type' && t == t' && decl == decl'
    | _ => false
  | .expression type t, n => match n with
    | .expression type' t' => type == type' && t == t'
    | _ => false
  | .breakLoop, n => match n with
    | .breakLoop => true
    | _ => false
  | .continueLoop, n => match n with
    | .continueLoop => true
    | _ => false
  | .blank mark, n => match n with
    | .blank mark' => mark == mark'
    | _ => false
  | .statement, n => match n with
    | .statement => true
    | _ => false

/-- Whether two lists hold the same trees. -/
def Node.sameAll : List Node → List Node → Bool
  | [], ns => ns.isEmpty
  | m :: ms, ns => match ns with
    | [] => false
    | n :: rest => Node.same m n && Node.sameAll ms rest

end

/-- Whether two parts are the same: one part that is not a number is the same as itself. -/
def Value.samePart (v w : Value) : Bool :=
  v.isMarkedAs w || v.same w

/-- Puts an entry among the entries of a dictionary.  Under a key that is there already the value is
replaced and the key stays. -/
def Value.putEntry (key value : Value) : List (Value × Value) → List (Value × Value)
  | [] => [(key, value)]
  | (k, v) :: rest =>
    if key.samePart k then (k, value) :: rest else (k, v) :: Value.putEntry key value rest

/-- The dictionary of entries that are put in one after the other. -/
def Value.ofEntries (entries : List (Value × Value)) : Value :=
  .dict (entries.foldl (fun done (k, v) => Value.putEntry k v done) [])

/-! ### Order -/

/-- The four order relations. -/
inductive Comparison where
  /-- Less than. -/
  | lt
  /-- Less than or equal to. -/
  | le
  /-- Greater than. -/
  | gt
  /-- Greater than or equal to. -/
  | ge
  deriving DecidableEq, Repr

/-- The sign of a relation. -/
def Comparison.sign : Comparison → String
  | .lt => "<"
  | .le => "<="
  | .gt => ">"
  | .ge => ">="

/-- Whether a relation holds between two things that compare in the given way. -/
def Comparison.accepts : Comparison → Ordering → Bool
  | .lt, o => o == .lt
  | .le, o => o != .gt
  | .gt, o => o == .gt
  | .ge, o => o != .lt

mutual

/-- Whether a relation holds between two values. -/
def Value.compare (op : Comparison) : Value → Value → Except Fault Bool
  | .text s, w => match w with
    | .text t => return op.accepts (Ord.compare s t)
    | _ => throw (.notOrdered op.sign "str" w.kindName)
  | .list vs, w => match w with
    | .list ws => Value.compareAll op vs ws
    | _ => throw (.notOrdered op.sign "list" w.kindName)
  | .tuple vs, w => match w with
    | .tuple ws => Value.compareAll op vs ws
    | _ => throw (.notOrdered op.sign "tuple" w.kindName)
  | v, w =>
    match v.numeric?, w.numeric? with
    | some a, some b => return (a.compare b).any op.accepts
    | _, _ => throw (.notOrdered op.sign v.kindName w.kindName)

/-- Whether a relation holds between two lists, by their first difference. -/
def Value.compareAll (op : Comparison) : List Value → List Value → Except Fault Bool
  | [], ws => return op.accepts (if ws.isEmpty then .eq else .lt)
  | v :: vs, ws => match ws with
    | [] => return op.accepts .gt
    | w :: rest =>
      if v.isMarkedAs w || Value.same v w then Value.compareAll op vs rest
      else Value.compare op v w

end

end SeqPar
