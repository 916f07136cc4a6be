import SeqPar.Fault
import SeqPar.Node.Basic

/-!
# Checking types

The check walks a tree and gives a type to every node: comparisons, conjunctions, disjunctions and
negations of truth values are truth values, a minus sign keeps the type of what it stands before,
and nothing else has a type.  The condition of a conditional or loop must be a truth value, and
the two sides of an assignment must have the same type.  Plain data has no type; where it is a list
in the place of a tree, the trees in it are checked.

## Main definitions

* `NodeType` — the types that the check knows.
* `Node.check` — the type of a node, or the first fault in it.
-/

namespace SeqPar

/-- The types that the check knows. -/
inductive NodeType where
  /-- A truth value. -/
  | bool
  /-- Anything else. -/
  | untyped
  deriving DecidableEq, Repr

mutual

/-- The type of a node, or the first fault in it. -/
def Node.check : Node → Except Fault NodeType
  | .relational .. | .logical .. => return .bool
  | .unary _ t expr => if t.text = "!" then return .bool else expr.check
  | .assign left right => do
    let leftType ← left.check
    let rightType ← right.check
    if leftType = rightType then return .untyped else throw .assignmentTypes
  | .cond condition body orElse => do
    if (← condition.check) = .bool then
      Node.checkAll body
      match orElse with
      | none => return .untyped
      | some stmts =>
        Node.checkAll stmts
        return .untyped
    else throw .conditionalType
  | .loop condition body => do
    if (← condition.check) = .bool then
      Node.checkAll body
      return .untyped
    else throw .loopType
  | .arithmetic _ _ left right => do
    let _ ← left.check
    left.checkListed
    let _ ← right.check
    right.checkListed
    return .untyped
  | .access _ _ base index => do
    let _ ← base.check
    base.checkListed
    let _ ← index.check
    index.checkListed
    return .untyped
  | .call _ _ args => do
    Node.checkAll args
    return .untyped
  | .program stmts => do
    Node.checkAll stmts
    return .untyped
  | .seq body | .par body => do
    Node.checkAll body
    return .untyped
  | .funcDef _ _ params body => do
    Node.checkAll body
    Node.checkAll params
    return .untyped
  | .clientChannel _ host port => do
    let _ ← host.check
    host.checkListed
    let _ ← port.check
    port.checkListed
    return .untyped
  | .serverChannel _ host port greeting _ => do
    let _ ← greeting.check
    greeting.checkListed
    let _ ← host.check
    host.checkListed
    let _ ← port.check
    port.checkListed
    return .untyped
  | .ret expr => do
    let _ ← expr.check
    expr.checkListed
    return .untyped
  | .datum _ | .constant .. | .ident .. | .breakLoop | .continueLoop | .blank _ | .statement
  | .expression .. => return .untyped

/-- Checks nodes in order. -/
def Node.checkAll : List Node → Except Fault Unit
  | [] => return ()
  | n :: ns => do
    let _ ← n.check
    Node.checkAll ns

/-- Checks the trees in a list that stands in the place of one tree. -/
def Node.checkListed : Node → Except Fault Unit
  | .datum v => v.checkListed
  | _ => return ()

/-- Checks the trees in a value that is a list. -/
def Value.checkListed : Value → Except Fault Unit
  | .list items => Value.checkItems items
  | _ => return ()

/-- Checks the trees among values, in order. -/
def Value.checkItems : List Value → Except Fault Unit
  | [] => return ()
  | .node n :: vs => do
    let _ ← n.check
    Value.checkItems vs
  | _ :: vs => Value.checkItems vs

end

end SeqPar
