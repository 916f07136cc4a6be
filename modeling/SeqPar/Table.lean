/-!
# Tables and scopes

A table holds entries under names, each name at most once.  A chain of tables, the innermost
first, holds the names of nested scopes; it always has at least one table.

## Main definitions

* `Table`, `Table.get?`, `Table.put` — tables.
* `Scopes` — chains of tables, with `Scopes.enter` and `Scopes.leave`.
* `Scopes.insertNew`, `Scopes.find?` — declaring a name once per scope, and the innermost
  declaration of a name.
-/

namespace SeqPar

/-- Entries under names, in the order in which the names were first put in. -/
structure Table (α : Type) where
  /-- The names with their entries. -/
  entries : List (String × α)
  deriving Repr

namespace Table

variable {α : Type}

/-- The table without entries. -/
def empty : Table α := ⟨[]⟩

instance : Inhabited (Table α) := ⟨empty⟩

/-- The entry under a name. -/
def get? (t : Table α) (name : String) : Option α :=
  t.entries.lookup name

/-- Whether there is an entry under a name. -/
def contains (t : Table α) (name : String) : Bool :=
  (t.get? name).isSome

/-- Puts an entry under a name among entries, in place of the one that is there. -/
def putIn (name : String) (a : α) : List (String × α) → List (String × α)
  | [] => [(name, a)]
  | (n, b) :: rest => if n = name then (name, a) :: rest else (n, b) :: putIn name a rest

/-- The table with an entry under a name, in place of the one that was there. -/
def put (t : Table α) (name : String) (a : α) : Table α :=
  ⟨putIn name a t.entries⟩

/-- The table of the given entries; of two under one name the later one counts. -/
def ofList (entries : List (String × α)) : Table α :=
  entries.foldl (fun t (name, a) => t.put name a) empty

/-- The entries sorted by name. -/
def sorted (t : Table α) : List (String × α) :=
  t.entries.mergeSort fun a b => decide (a.1 ≤ b.1)

/-- The names, sorted. -/
def names (t : Table α) : List String :=
  t.sorted.map Prod.fst

end Table

/-- A chain of tables. -/
structure Scopes (α : Type) where
  /-- The innermost table. -/
  top : Table α
  /-- The tables around it, from the inside out. -/
  outer : List (Table α)
  deriving Repr

namespace Scopes

variable {α : Type}

/-- One empty table. -/
def empty : Scopes α := ⟨.empty, []⟩

instance : Inhabited (Scopes α) := ⟨empty⟩

/-- The tables, innermost first. -/
def tables (s : Scopes α) : List (Table α) :=
  s.top :: s.outer

/-- A new empty table inside the others. -/
def enter (s : Scopes α) : Scopes α :=
  ⟨.empty, s.top :: s.outer⟩

/-- The chain without its innermost table; the last table stays. -/
def leave (s : Scopes α) : Scopes α :=
  match s.outer with
  | [] => s
  | t :: rest => ⟨t, rest⟩

/-- The chain with an entry put into its innermost table. -/
def put (s : Scopes α) (name : String) (a : α) : Scopes α :=
  { s with top := s.top.put name a }

/-- The chain with an entry put into every table. -/
def putEverywhere (s : Scopes α) (name : String) (a : α) : Scopes α :=
  ⟨s.top.put name a, s.outer.map (·.put name a)⟩

/-- Puts an entry into the innermost table unless the name is taken there; answers whether it was
put in. -/
def insertNew (s : Scopes α) (name : String) (a : α) : Bool × Scopes α :=
  if s.top.contains name then (false, s) else (true, s.put name a)

/-- The innermost entry under a name. -/
def find? (s : Scopes α) (name : String) : Option α :=
  s.tables.findSome? (·.get? name)

/-- The innermost entry under a name that satisfies a condition, with its depth, counted from the
inside. -/
def findDepth? (s : Scopes α) (p : α → Bool) (name : String) : Option (Nat × α) :=
  go 0 s.tables
where
  /-- The search from a depth on. -/
  go (depth : Nat) : List (Table α) → Option (Nat × α)
    | [] => none
    | t :: rest =>
      match t.get? name with
      | some a => if p a then some (depth, a) else go (depth + 1) rest
      | none => go (depth + 1) rest

end Scopes

end SeqPar
