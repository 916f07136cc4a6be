import SeqPar.Node.Basic
import SeqPar.Number.Written
import SeqPar.Text.Quoted

/-!
# Texts of values and trees

Every value has a **rendering**, in which texts are quoted, and a **display** form, in which a
text stands for itself.  A tree is rendered as the name of its kind with its fields, each with its
name, in parentheses; a token as its text and tag.

A whole number that is too long to be turned into text makes the texts of all values around it
unavailable too.

## Main definitions

* `Value.render`, `Node.render` — renderings.
* `Value.display` — the display form.
* `Value.tooLong` — whether a value holds a whole number without text.
-/

namespace SeqPar

open SeqPar.Text SeqPar.Number

/-- Texts with a comma and a space between each two of them. -/
def commaSeparated (parts : List String) : String :=
  String.intercalate ", " parts

/-- The rendering of the name of a type. -/
def renderType : Option String → String
  | none => "None"
  | some name => quote name

/-- The rendering of a truth value. -/
def renderBool (b : Bool) : String :=
  if b then "True" else "False"

/-- The rendering of a tree with the given fields. -/
def renderFields (kind : String) (fields : List (String × String)) : String :=
  kind ++ "(" ++ commaSeparated (fields.map fun (name, text) => name ++ "=" ++ text) ++ ")"

/-- The rendering of a list of rendered items. -/
def renderList (items : List String) : String :=
  "[" ++ commaSeparated items ++ "]"

mutual

/-- The rendering of a value. -/
def Value.render : Value → String
  | .nothing => "None"
  | .bool b => renderBool b
  | .int n => writeInt n
  | .float x => writeFloat x
  | .notANumber _ => writeFloat nan
  | .text s => quote s
  | .list items => renderList (Value.renderAll items)
  | .tuple [item] => "(" ++ item.render ++ ",)"
  | .tuple items => "(" ++ commaSeparated (Value.renderAll items) ++ ")"
  | .dict entries => "\x7b" ++ commaSeparated (Value.renderEntries entries) ++ "\x7d"
  | .token t => t.render
  | .node n => n.render

/-- The renderings of values. -/
def Value.renderAll : List Value → List String
  | [] => []
  | v :: vs => v.render :: Value.renderAll vs

/-- The renderings of the entries of a dictionary. -/
def Value.renderEntries : List (Value × Value) → List String
  | [] => []
  | (k, v) :: rest => (k.render ++ ": " ++ v.render) :: Value.renderEntries rest

/-- The rendering of a tree. -/
def Node.render : Node → String
  | .datum v => v.render
  | .constant type t => renderFields "Constant" [("type", renderType type), ("token", t.render)]
  | .ident type t decl =>
    renderFields "ID"
      [("type", renderType type), ("token", t.render), ("decl", renderBool decl)]
  | .logical type t left right =>
    renderFields "Logical"
      [("type", renderType type), ("token", t.render), ("left", left.render),
        ("right", right.render)]
  | .relational type t left right =>
    renderFields "Relational"
      [("type", renderType type), ("token", t.render), ("left", left.render),
        ("right", right.render)]
  | .arithmetic type t left right =>
    renderFields "Arithmetic"
      [("type", renderType type), ("token", t.render), ("left", left.render),
        ("right", right.render)]
  | .unary type t expr =>
    renderFields "Unary"
      [("type", renderType type), ("token", t.render), ("expr", expr.render)]
  | .call type t args =>
    renderFields "Call"
      [("type", renderType type), ("token", t.render), ("args", renderList (Node.renderAll args))]
  | .access type t base index =>
    renderFields "Access"
      [("type", renderType type), ("token", t.render), ("base", base.render),
        ("index", index.render)]
  | .program stmts => renderFields "Module" [("stmts", renderList (Node.renderAll stmts))]
  | .assign left right =>
    renderFields "Assign" [("left", left.render), ("right", right.render)]
  | .cond condition body orElse =>
    renderFields "If"
      [("condition", condition.render), ("body", renderList (Node.renderAll body)),
        ("else_stmt", match orElse with
          | none => "None"
          | some stmts => renderList (Node.renderAll stmts))]
  | .loop condition body =>
    renderFields "While"
      [("condition", condition.render), ("body", renderList (Node.renderAll body))]
  | .funcDef name returnType params body =>
    renderFields "FuncDef"
      [("name", quote name), ("return_type", renderType returnType),
        ("params", renderList (Node.renderAll params)),
        ("body", renderList (Node.renderAll body))]
  | .seq body => renderFields "Seq" [("body", renderList (Node.renderAll body))]
  | .par body => renderFields "Par" [("body", renderList (Node.renderAll body))]
  | .clientChannel name host port =>
    renderFields "CChannel"
      [("name", quote name), ("localhost", host.render), ("port", port.render)]
  | .serverChannel name host port greeting handler =>
    renderFields "SChannel"
      [("name", quote name), ("localhost", host.render), ("port", port.render),
        ("description", greeting.render), ("func_name", quote handler)]
  | .breakLoop => renderFields "Break" []
  | .continueLoop => renderFields "Continue" []
  | .ret expr => renderFields "Return" [("expr", expr.render)]
  | .blank _ => "<minipar.ast.Node object>"
  | .statement => renderFields "Statement" []
  | .expression type t =>
    renderFields "Expression" [("type", renderType type), ("token", t.render)]

/-- The renderings of trees. -/
def Node.renderAll : List Node → List String
  | [] => []
  | n :: ns => n.render :: Node.renderAll ns

end

/-- The display form of a value: a text stands for itself. -/
def Value.display : Value → String
  | .text s => s
  | v => v.render

mutual

/-- Whether a value holds a whole number that is too long to be turned into text. -/
def Value.tooLong : Value → Bool
  | .int n => exceedsDigitLimit n
  | .list items | .tuple items => Value.anyTooLong items
  | .dict entries => Value.anyEntryTooLong entries
  | .node n => n.tooLong
  | _ => false

/-- Whether one of several values is too long to be turned into text. -/
def Value.anyTooLong : List Value → Bool
  | [] => false
  | v :: vs => v.tooLong || Value.anyTooLong vs

/-- Whether an entry of a dictionary is too long to be turned into text. -/
def Value.anyEntryTooLong : List (Value × Value) → Bool
  | [] => false
  | (k, v) :: rest => k.tooLong || v.tooLong || Value.anyEntryTooLong rest

/-- Whether a tree holds a whole number that is too long to be turned into text. -/
def Node.tooLong : Node → Bool
  | .datum v => v.tooLong
  | .logical _ _ left right | .relational _ _ left right | .arithmetic _ _ left right
  | .access _ _ left right | .assign left right | .clientChannel _ left right =>
    left.tooLong || right.tooLong
  | .unary _ _ expr | .ret expr => expr.tooLong
  | .call _ _ body | .program body | .seq body | .par body => Node.anyTooLong body
  | .cond condition body orElse =>
    condition.tooLong || Node.anyTooLong body || (match orElse with
      | none => false
      | some stmts => Node.anyTooLong stmts)
  | .loop condition body => condition.tooLong || Node.anyTooLong body
  | .funcDef _ _ params body => Node.anyTooLong params || Node.anyTooLong body
  | .serverChannel _ host port greeting _ => host.tooLong || port.tooLong || greeting.tooLong
  | .constant .. | .ident .. | .breakLoop | .continueLoop | .blank _ | .statement
  | .expression .. => false

/-- Whether one of several trees is too long to be turned into text. -/
def Node.anyTooLong : List Node → Bool
  | [] => false
  | n :: ns => n.tooLong || Node.anyTooLong ns

end

end SeqPar
