import SeqPar.Machine.Run
import SeqPar.Proofs.CallerFrame

/-!
# Programs without recursion

A run nests nodes inside each other in two ways.  A node runs its own parts, which are smaller, and
a call runs the statements of a function, which are not.  Where the functions have ranks, and each
of them calls only functions of a smaller rank, calls nest at most as deep as there are ranks, so that
every node ends.  Loops end because of the bound on their rounds, whatever their conditions are, and
all other operations on the machine end by themselves.

Functions are defined while the program runs, under names that may have another function already.
The ranks have to be right for all functions that a name may ever stand for: those that were defined
before, and those whose definition stands somewhere in the program or inside a function.  No run
defines any others.

The depth that is needed can be computed.  Between two calls a run goes down one tree, so that the
number of all nodes is a bound on the way there, and it goes that way at most once for each rank.

## Main definitions

* `Node.nodes` — the nodes of a tree, with or without those inside the functions that it defines.
* `definitions` — the functions that a run may ever find under a name.
* `Ranked` — every function calls only functions of a smaller rank.
* `sufficientDepth` — a depth to which all nodes of a ranked program can be run.
* `EndsAlike` — two computations that end, and in the same way.

## Main results

* `endsAlike_congruence` — ending alike is a local congruence.
* `endsAlike_exec` — runs of a node to different depths end alike, when both depths are enough for
  its size and for the ranks of the functions that it calls.
* `exec_ends_of_ranked` — **a program without recursion ends**, at every node of it.
* `runProgram_ends_of_ranked` — so does the program as a whole.
-/

namespace SeqPar

open Exec

/-! ### The nodes of a tree -/

mutual

/-- The nodes of a tree, itself included.  Those inside the functions that it defines count only when
`inside` says so. -/
def Node.nodes (inside : Bool) : Node → List Node
  | n@(.assign left right) => n :: (left.nodes inside ++ right.nodes inside)
  | n@(.cond condition body orElse) =>
    n :: (condition.nodes inside ++ (Node.nodesAll inside body ++ Node.nodesElse inside orElse))
  | n@(.loop condition body) => n :: (condition.nodes inside ++ Node.nodesAll inside body)
  | n@(.seq body) => n :: Node.nodesAll inside body
  | n@(.par body) => n :: Node.nodesAll inside body
  | n@(.program stmts) => n :: Node.nodesAll inside stmts
  | n@(.funcDef _ _ params body) =>
    n :: (bif inside then Node.nodesAll inside params ++ Node.nodesAll inside body else [])
  | n@(.clientChannel _ host port) => n :: (host.nodes inside ++ port.nodes inside)
  | n@(.serverChannel _ host port greeting _) =>
    n :: (host.nodes inside ++ (port.nodes inside ++ greeting.nodes inside))
  | n@(.access _ _ base index) => n :: (base.nodes inside ++ index.nodes inside)
  | n@(.logical _ _ left right) => n :: (left.nodes inside ++ right.nodes inside)
  | n@(.relational _ _ left right) => n :: (left.nodes inside ++ right.nodes inside)
  | n@(.arithmetic _ _ left right) => n :: (left.nodes inside ++ right.nodes inside)
  | n@(.unary _ _ expr) => n :: expr.nodes inside
  | n@(.call _ _ args) => n :: Node.nodesAll inside args
  | n@(.ret expr) => n :: expr.nodes inside
  | n => [n]

/-- The nodes of trees. -/
def Node.nodesAll (inside : Bool) : List Node → List Node
  | [] => []
  | n :: ns => n.nodes inside ++ Node.nodesAll inside ns

/-- The nodes of the other branch of a conditional. -/
def Node.nodesElse (inside : Bool) : Option (List Node) → List Node
  | none => []
  | some ns => Node.nodesAll inside ns

end

namespace Node

/-- The nodes right below a node. -/
def children (inside : Bool) : Node → List Node
  | .assign left right => [left, right]
  | .cond condition body orElse => condition :: (body ++ orElse.getD [])
  | .loop condition body => condition :: body
  | .seq body | .par body | .program body => body
  | .funcDef _ _ params body => bif inside then params ++ body else []
  | .clientChannel _ host port => [host, port]
  | .serverChannel _ host port greeting _ => [host, port, greeting]
  | .access _ _ base index => [base, index]
  | .logical _ _ left right | .relational _ _ left right | .arithmetic _ _ left right =>
    [left, right]
  | .unary _ _ expr => [expr]
  | .call _ _ args => args
  | .ret expr => [expr]
  | _ => []

theorem nodesAll_eq (inside : Bool) (ns : List Node) :
    nodesAll inside ns = ns.flatMap (nodes inside) := by
  induction ns with
  | nil => rfl
  | cons n ns ih => rw [nodesAll, ih, List.flatMap_cons]

theorem nodesElse_eq (inside : Bool) (orElse : Option (List Node)) :
    nodesElse inside orElse = (orElse.getD []).flatMap (nodes inside) := by
  cases orElse with
  | none => rfl
  | some ns => exact nodesAll_eq inside ns

/-- The nodes of a tree are its root and the nodes of the trees right below. -/
theorem nodes_eq (inside : Bool) (n : Node) :
    n.nodes inside = n :: (n.children inside).flatMap (nodes inside) := by
  cases n with
  | funcDef name ret params body =>
    cases inside with
    | false => rfl
    | true => simp [nodes, children, nodesAll_eq]
  | _ => simp [nodes, children, nodesAll_eq, nodesElse_eq]

theorem mem_nodes_self (inside : Bool) (n : Node) : n ∈ n.nodes inside := by
  rw [nodes_eq]
  exact List.mem_cons_self

/-- The nodes of a tree right below the root are among those of the whole tree. -/
theorem nodes_sublist_of_mem_children {inside : Bool} {n c : Node} (h : c ∈ n.children inside) :
    (c.nodes inside).Sublist ((n.children inside).flatMap (nodes inside)) := by
  rw [List.flatMap_def]
  exact List.sublist_flatten_of_mem (List.mem_map_of_mem h)

theorem length_nodes_lt_of_mem_children {inside : Bool} {n c : Node}
    (h : c ∈ n.children inside) : (c.nodes inside).length < (n.nodes inside).length := by
  rw [nodes_eq inside n, List.length_cons]
  exact Nat.lt_succ_of_le (nodes_sublist_of_mem_children h).length_le

/-- The tree at a node of a tree is a part of it. -/
theorem nodes_sublist {inside : Bool} {n a : Node} (h : a ∈ n.nodes inside) :
    (a.nodes inside).Sublist (n.nodes inside) := by
  rw [nodes_eq] at h
  rcases List.mem_cons.mp h with rfl | h
  · exact List.Sublist.refl _
  · obtain ⟨c, hc, ha⟩ := List.mem_flatMap.mp h
    have hsub : (a.nodes inside).Sublist (c.nodes inside) := nodes_sublist ha
    rw [nodes_eq inside n]
    exact (hsub.trans (nodes_sublist_of_mem_children hc)).cons n
termination_by (n.nodes inside).length
decreasing_by exact length_nodes_lt_of_mem_children hc

theorem mem_nodes_of_mem_children {inside : Bool} {n c : Node} (h : c ∈ n.children inside) :
    c ∈ n.nodes inside := by
  rw [nodes_eq]
  exact .tail _ ((nodes_sublist_of_mem_children h).subset (mem_nodes_self inside c))

/-- What running a node may run stands right below it, outside of functions. -/
theorem mem_children_of_mem_parts {inside : Bool} {n c : Node} (h : c ∈ n.parts) :
    c ∈ n.children inside := by
  cases n with
  | assign left right =>
    obtain rfl := List.mem_singleton.mp h
    exact .tail _ (.head _)
  | serverChannel name host port greeting handler =>
    obtain rfl := List.mem_singleton.mp h
    exact .tail _ (.tail _ (.head _))
  | funcDef | program => cases h
  | _ => exact h

/-- The name of the function that a call calls. -/
def callee? : Node → Option String
  | .call _ t _ => some t.text
  | _ => none

/-- The names of the functions that are called in a tree, outside of the functions that it
defines. -/
def callees (n : Node) : List String :=
  (n.nodes false).filterMap callee?

theorem callees_subset_of_mem_parts {n c : Node} (h : c ∈ n.parts) : c.callees ⊆ n.callees := by
  have hc : c ∈ n.nodes false := mem_nodes_of_mem_children (mem_children_of_mem_parts h)
  exact ((nodes_sublist hc).filterMap callee?).subset

/-- The statements of a function. -/
def body? : Node → Option (List Node)
  | .funcDef _ _ _ body => some body
  | _ => none

/-- The name and the statements of a function. -/
def definition? : Node → Option (String × List Node)
  | .funcDef name _ _ body => some (name, body)
  | _ => none

end Node

/-! ### Ranks of functions -/

section Ranks

variable (rank : String → Nat) (program : Node) (functions : Table Node)

/-- The nodes of a program and of the functions that were defined before. -/
def allNodes : List Node :=
  program.nodes true ++ functions.entries.flatMap fun entry => entry.2.nodes true

/-- The functions that a run may ever find under a name: those that were defined before, and those
that are defined in the program or inside a function.  A name may stand for more than one. -/
def definitions : List (String × List Node) :=
  (functions.entries.filterMap fun entry => entry.2.body?.map (entry.1, ·)) ++
    (allNodes program functions).filterMap Node.definition?

/-- The name is built in, or no function ever stands under it, or its rank is below a level. -/
def BelowLevel (level : Nat) (name : String) : Prop :=
  Builtin.ofName? name = none → name ∈ (definitions program functions).map Prod.fst →
    rank name < level

instance (level : Nat) (name : String) : Decidable (BelowLevel rank program functions level name) :=
  inferInstanceAs (Decidable (_ → _ → _))

/-- Every function calls only built-in functions, names that no function ever stands under, and
functions of a smaller rank.  The function that answers the clients of a server need not have a
smaller rank, since it is never called. -/
def Ranked : Prop :=
  ∀ d ∈ definitions program functions, ∀ n ∈ d.2, ∀ name ∈ n.callees,
    BelowLevel rank program functions (rank d.1) name

instance : Decidable (Ranked rank program functions) :=
  inferInstanceAs (Decidable (∀ d ∈ definitions program functions, ∀ n ∈ d.2, ∀ name ∈ n.callees,
    BelowLevel rank program functions (rank d.1) name))

/-- A level that is above all ranks. -/
def highestLevel : Nat :=
  (definitions program functions).foldr (fun d level => max (rank d.1 + 1) level) 0

/-- A depth that is enough for all nodes: the number of nodes, once for each rank and once for the
program. -/
def sufficientDepth : Nat :=
  (highestLevel rank program functions + 1) * ((allNodes program functions).length + 1)

end Ranks

section Nodes

variable {rank : String → Nat} {program : Node} {functions : Table Node}

/-- The tree at one of all the nodes is a part of them. -/
theorem nodes_sublist_allNodes {n : Node} (hn : n ∈ allNodes program functions) :
    (n.nodes true).Sublist (allNodes program functions) := by
  rcases List.mem_append.mp hn with hn | hn
  · exact (Node.nodes_sublist hn).trans (List.sublist_append_left _ _)
  · obtain ⟨entry, hentry, hn⟩ := List.mem_flatMap.mp hn
    refine ((Node.nodes_sublist hn).trans ?_).trans (List.sublist_append_right _ _)
    rw [List.flatMap_def]
    exact List.sublist_flatten_of_mem (List.mem_map_of_mem hentry)

theorem mem_allNodes_of_mem_children {n c : Node} (hn : n ∈ allNodes program functions)
    (hc : c ∈ n.children true) : c ∈ allNodes program functions :=
  (nodes_sublist_allNodes hn).subset (Node.mem_nodes_of_mem_children hc)

theorem mem_definitions_of_mem_entries {name : String} {n : Node} {body : List Node}
    (hentry : (name, n) ∈ functions.entries) (hbody : n.body? = some body) :
    (name, body) ∈ definitions program functions := by
  refine List.mem_append_left _ (List.mem_filterMap.mpr ⟨(name, n), hentry, ?_⟩)
  simp [hbody]

theorem mem_definitions_of_mem_allNodes {name : String} {ret : Option String}
    {params body : List Node} (hn : .funcDef name ret params body ∈ allNodes program functions) :
    (name, body) ∈ definitions program functions :=
  List.mem_append_right _ (List.mem_filterMap.mpr ⟨_, hn, rfl⟩)

/-- The statements of the functions that may be called are among all the nodes. -/
theorem mem_allNodes_of_mem_definitions {d : String × List Node}
    (hd : d ∈ definitions program functions) {n : Node} (hn : n ∈ d.2) :
    n ∈ allNodes program functions := by
  -- Wherever the function stands, its definition is a node, with the statements right below it.
  have hbelow : ∀ f ∈ allNodes program functions, f.body? = some d.2 →
      n ∈ allNodes program functions := by
    intro f hf hbody
    cases f with
    | funcDef name ret params body =>
      obtain rfl : body = d.2 := Option.some.inj hbody
      exact mem_allNodes_of_mem_children hf (List.mem_append_right params hn)
    | _ => cases hbody
  rcases List.mem_append.mp hd with hd | hd
  · obtain ⟨entry, hentry, hbody⟩ := List.mem_filterMap.mp hd
    obtain ⟨body, hentrybody, rfl⟩ := Option.map_eq_some_iff.mp hbody
    refine hbelow entry.2 (List.mem_append_right _ ?_) hentrybody
    exact List.mem_flatMap.mpr ⟨entry, hentry, Node.mem_nodes_self true _⟩
  · obtain ⟨f, hf, hdefinition⟩ := List.mem_filterMap.mp hd
    refine hbelow f hf ?_
    cases f with
    | funcDef name ret params body =>
      obtain rfl := Option.some.inj hdefinition
      rfl
    | _ => cases hdefinition

theorem rank_lt_highestLevel {d : String × List Node} (hd : d ∈ definitions program functions) :
    rank d.1 < highestLevel rank program functions := by
  unfold highestLevel
  generalize definitions program functions = ds at hd ⊢
  induction ds with
  | nil => cases hd
  | cons first rest ih =>
    rw [List.foldr_cons]
    rcases List.mem_cons.mp hd with rfl | hd
    · exact Nat.le_max_left _ _
    · exact Nat.lt_of_lt_of_le (ih hd) (Nat.le_max_right _ _)

theorem belowLevel_highestLevel (name : String) :
    BelowLevel rank program functions (highestLevel rank program functions) name := by
  intro _ hname
  obtain ⟨d, hd, rfl⟩ := List.mem_map.mp hname
  exact rank_lt_highestLevel hd

end Nodes

/-! ### Computations that end alike -/

variable {α : Type} {D : List (String × List Node)}

/-- The functions of the machine are among the given ones. -/
def Machine.Within (D : List (String × List Node)) (m : Machine) : Prop :=
  ∀ entry ∈ m.functions.entries, ∀ body, entry.2.body? = some body → (entry.1, body) ∈ D

theorem Machine.Within.of_functions_eq {m m' : Machine} (h : m'.functions = m.functions)
    (hm : m.Within D) : m'.Within D := by
  unfold Machine.Within
  rw [h]
  exact hm

theorem Machine.Within.of_get? {m : Machine} (hm : m.Within D) {name name' : String}
    {ret : Option String} {params body : List Node}
    (hdefined : m.functions.get? name = some (.funcDef name' ret params body)) :
    (name, body) ∈ D :=
  hm _ (Table.mem_entries_of_get? hdefined) body rfl

theorem Machine.Within.define {m : Machine} (hm : m.Within D) {name : String} {n : Node}
    (hn : ∀ body, n.body? = some body → (name, body) ∈ D) :
    ({ m with functions := m.functions.put name n } : Machine).Within D := by
  intro entry hentry body hbody
  rcases Table.mem_putIn hentry with rfl | hentry
  · exact hn body hbody
  · exact hm entry hentry body hbody

/-- On every machine whose functions are among the given ones, both computations end in the same way,
not at the bound on their depth, and the functions are still among the given ones. -/
def EndsAlike (D : List (String × List Node)) (α : Type) (p q : Exec α) : Prop :=
  ∀ m : Machine, m.Within D →
    q m = p m ∧ ¬ Outcome.Exhausted (p m) ∧ (Outcome.machine (p m)).Within D

/-- Ending alike is a local congruence: a computation that ends hands on a machine on which the next
one ends. -/
theorem endsAlike_congruence : LocalCongruence (EndsAlike D) where
  steady hp := fun m hm => ⟨rfl, hp.ends m, hm.of_functions_eq (hp.storeFree.functions_eq m)⟩
  functions := fun m hm => ⟨rfl, id, hm⟩
  binding? name := fun m hm => ⟨rfl, id, hm⟩
  bindHere name v := fun m hm => ⟨rfl, id, hm⟩
  handle := by
    intro α β p q f g h k hp hf hh _ _ m hm
    obtain ⟨hsame, hend, hm'⟩ := hp m hm
    rw [handle_apply, handle_apply, hsame]
    cases hpm : p m with
    | ok a m' =>
      rw [hpm] at hm'
      exact hf a m' hm'
    | error signal m' =>
      rw [hpm] at hm' hend
      exact hh signal (fun heq => hend (heq ▸ trivial)) m' hm'

theorem endsAlike_bindEverywhere (name : String) (v : Value) :
    EndsAlike D Unit (bindEverywhere name v) (bindEverywhere name v) :=
  fun _ hm => ⟨rfl, id, hm⟩

theorem EndsAlike.afterwards {p q : Exec α} (h : EndsAlike D α p q) {change : Machine → Machine}
    (hchange : ∀ m, (change m).functions = m.functions) :
    EndsAlike D α (afterwards p change) (afterwards q change) := by
  intro m hm
  obtain ⟨hsame, hend, hm'⟩ := h m hm
  rw [afterwards_apply, afterwards_apply, hsame, Outcome.exhausted_onMachine,
    Outcome.machine_onMachine]
  exact ⟨rfl, hend, hm'.of_functions_eq (hchange _)⟩

section Calls

variable {run run' : Runner} {args : List Node}
  (hargs : ∀ n ∈ args, EndsAlike D Value (run n) (run' n))

include hargs

theorem endsAlike_callFunction (params : List Node) {body : List Node}
    (hbody : ∀ n ∈ body, EndsAlike D Value (run n) (run' n)) :
    EndsAlike D Value (callFunction run params body args) (callFunction run' params body args) := by
  have hstmts := endsAlike_congruence.runBody .nothing body hbody
  have henter : EndsAlike D Unit enterScope enterScope := fun m hm => ⟨rfl, id, hm⟩
  refine endsAlike_congruence.bind henter fun _ => ?_
  refine endsAlike_congruence.bind (endsAlike_congruence.bindParams 0 params args hargs) fun _ => ?_
  exact hstmts.afterwards fun _ => rfl

/-- A call of a name that is not built in, when the statements of the function that stands under it
end. -/
theorem endsAlike_callNamed (name : String) {functions : Table Node}
    (hbody : ∀ name' ret params body,
      functions.get? name = some (.funcDef name' ret params body) →
      ∀ n ∈ body, EndsAlike D Value (run n) (run' n)) :
    EndsAlike D Value (callNamed callFunction run name args functions)
      (callNamed callFunction run' name args functions) := by
  unfold callNamed
  split
  · next hdefined => exact endsAlike_callFunction hargs _ (hbody _ _ _ _ hdefined)
  · exact endsAlike_congruence.callUndefined hargs name

/-- A call ends when its arguments do, and the statements of every function that its name may stand
for. -/
theorem endsAlike_runCall {name : String}
    (hbodies : Builtin.ofName? name = none → ∀ body, (name, body) ∈ D →
      ∀ n ∈ body, EndsAlike D Value (run n) (run' n)) :
    EndsAlike D Value (runCall run name args) (runCall run' name args) := by
  rw [runCall_eq_callWith, runCall_eq_callWith]
  unfold callWith
  cases hbuiltin : Builtin.ofName? name with
  | some f => exact endsAlike_congruence.callBuiltin hargs name f
  | none =>
    -- The function is looked up on the machine that runs the call.
    intro m hm
    have hfound : ∀ name' ret params body,
        m.functions.get? name = some (.funcDef name' ret params body) →
        ∀ n ∈ body, EndsAlike D Value (run n) (run' n) :=
      fun _ _ _ body hdefined => hbodies hbuiltin body (hm.of_get? hdefined)
    exact endsAlike_callNamed hargs name hfound m hm

end Calls

/-! ### Runs -/

section Runs

variable {rank : String → Nat} {program : Node} {functions : Table Node}

/-- The depth that running a node takes, when the functions that it calls are below a level: its own
size, and for each level the number of all nodes. -/
def depthAt (program : Node) (functions : Table Node) (level : Nat) (n : Node) : Nat :=
  (n.nodes true).length + level * ((allNodes program functions).length + 1)

theorem depthAt_pos (level : Nat) (n : Node) : 0 < depthAt program functions level n :=
  Nat.add_pos_left (List.length_pos_of_mem (Node.mem_nodes_self true n)) _

/-- The parts of a node take less depth than the node. -/
theorem depthAt_lt_of_mem_parts (level : Nat) {n c : Node} (hc : c ∈ n.parts) :
    depthAt program functions level c < depthAt program functions level n := by
  have hlength := Node.length_nodes_lt_of_mem_children
    (Node.mem_children_of_mem_parts hc : c ∈ n.children true)
  unfold depthAt
  omega

/-- The statements of a function of a rank below the level take less depth than any node. -/
theorem depthAt_lt_of_lt {level level' : Nat} (hlevel : level' < level) {b : Node}
    (hb : b ∈ allNodes program functions) (n : Node) :
    depthAt program functions level' b < depthAt program functions level n := by
  have hlength := (nodes_sublist_allNodes hb).length_le
  have hlevels := Nat.mul_le_mul_right ((allNodes program functions).length + 1) hlevel
  rw [Nat.succ_mul] at hlevels
  unfold depthAt
  omega

/-- **Runs to different depths end alike**, when both depths are enough for the size of the node and
the ranks of the functions that it calls. -/
theorem endsAlike_exec (hranked : Ranked rank program functions) {level fuel fuel' : Nat} {n : Node}
    (hn : n ∈ allNodes program functions)
    (hcallees : ∀ name ∈ n.callees, BelowLevel rank program functions level name)
    (hfuel : depthAt program functions level n ≤ fuel)
    (hfuel' : depthAt program functions level n ≤ fuel') :
    EndsAlike (definitions program functions) Value (exec fuel n) (exec fuel' n) := by
  -- The level goes down at calls, and the depth that is needed at every step.
  induction fuel generalizing level fuel' n with
  | zero => exact absurd (Nat.lt_of_lt_of_le (depthAt_pos level n) hfuel) (Nat.lt_irrefl 0)
  | succ fuel ih =>
    obtain ⟨fuel', rfl⟩ :=
      Nat.exists_eq_add_one.mpr (Nat.lt_of_lt_of_le (depthAt_pos level n) hfuel')
    have hparts : ∀ c ∈ n.parts, EndsAlike (definitions program functions) Value (exec fuel c)
        (exec fuel' c) := by
      intro c hc
      have hless : depthAt program functions level c < depthAt program functions level n :=
        depthAt_lt_of_mem_parts level hc
      have hmem := mem_allNodes_of_mem_children hn (Node.mem_children_of_mem_parts hc)
      have hbelow : ∀ name ∈ c.callees, BelowLevel rank program functions level name :=
        fun name hname => hcallees name (Node.callees_subset_of_mem_parts hc hname)
      exact ih hmem hbelow (by omega) (by omega)
    by_cases hcall : ∃ type t args, n = .call type t args
    · obtain ⟨type, t, args, rfl⟩ := hcall
      -- The statements of the function run at the level of its rank.
      refine endsAlike_runCall hparts fun hbuiltin body hbody b hb => ?_
      have hrank : rank t.text < level :=
        hcallees _ (by simp [Node.callees, Node.nodes, Node.callee?]) hbuiltin
          (List.mem_map_of_mem hbody)
      have hmem := mem_allNodes_of_mem_definitions hbody hb
      have hless := depthAt_lt_of_lt hrank hmem (.call type t args)
      have hbelow : ∀ name ∈ b.callees, BelowLevel rank program functions (rank t.text) name :=
        hranked _ hbody b hb
      exact ih hmem hbelow (by omega) (by omega)
    · refine endsAlike_congruence.step hparts ?_ ?_ ?_
      · exact fun type t args h => hcall ⟨type, t, args, h⟩
      · exact fun _ _ => endsAlike_bindEverywhere
      · -- A definition that is run is one of those that were taken into account.
        rintro name ret params body rfl m hm
        refine ⟨rfl, id, hm.define fun stmts hstmts => ?_⟩
        obtain rfl := Option.some.inj hstmts
        exact mem_definitions_of_mem_allNodes hn

/-- The depth that is enough for all nodes is enough for each of them. -/
theorem depthAt_highestLevel_le (rank : String → Nat) {n : Node}
    (hn : n ∈ allNodes program functions) :
    depthAt program functions (highestLevel rank program functions) n ≤
      sufficientDepth rank program functions := by
  have hlength := (nodes_sublist_allNodes hn).length_le
  rw [depthAt, sufficientDepth, Nat.succ_mul]
  omega

/-- All nodes of a ranked program end alike to all depths that are enough. -/
theorem endsAlike_of_ranked (hranked : Ranked rank program functions) {n : Node}
    (hn : n ∈ program.nodes true) {fuel : Nat}
    (hfuel : sufficientDepth rank program functions ≤ fuel) :
    EndsAlike (definitions program functions) Value (exec fuel n)
      (exec (sufficientDepth rank program functions) n) := by
  have hmem : n ∈ allNodes program functions := List.mem_append_left _ hn
  have hdepth := depthAt_highestLevel_le rank hmem
  exact endsAlike_exec hranked hmem (fun name _ => belowLevel_highestLevel name)
    (Nat.le_trans hdepth hfuel) hdepth

/-- A machine that starts with the given functions is within what a run may define. -/
theorem within_definitions (program : Node) (m : Machine) :
    m.Within (definitions program m.functions) :=
  fun _ hentry _ hbody => mem_definitions_of_mem_entries hentry hbody

end Runs

/-- **A program without recursion ends.**  Where every function of the program and of the machine
calls only built-in functions, names that no function ever stands under, and functions of a smaller
rank, every node of the program ends on that machine: with a value, a fault, a returned result, an
interruption or the end of the program, but never at the bound on its depth.  How it ends does not
depend on that bound either, once the bound is large enough.  The lines that are read, the peers on
the network, the variables and the conditions of loops do not matter. -/
theorem exec_ends_of_ranked {rank : String → Nat} {program : Node} {m : Machine}
    (hranked : Ranked rank program m.functions) {n : Node} (hn : n ∈ program.nodes true)
    {fuel : Nat} (hfuel : sufficientDepth rank program m.functions ≤ fuel) :
    ¬ Outcome.Exhausted (exec fuel n m) ∧
      exec fuel n m = exec (sufficientDepth rank program m.functions) n m := by
  obtain ⟨hsame, hend, -⟩ := endsAlike_of_ranked hranked hn hfuel m (within_definitions program m)
  exact ⟨hend, hsame.symm⟩

/-- The definition of `twice(p)`, which calls `echo` two times. -/
def twice : Node :=
  .funcDef "twice" none [.ident none ⟨.ident, "p"⟩ true]
    [.ret (.arithmetic none ⟨.plus, "+"⟩ (echoCall (.ident none ⟨.ident, "p"⟩ false))
      (echoCall (.ident none ⟨.ident, "p"⟩ false)))]

/-- The loop `while (1) { twice(x); }`. -/
def twiceLoop : Node :=
  .loop (.constant (some "NUMBER") ⟨.number, "1"⟩)
    [.call none ⟨.ident, "twice"⟩ [.ident none ⟨.ident, "x"⟩ false]]

/-- The ranks of the functions `echo` and `twice`. -/
def twiceRank (name : String) : Nat :=
  if name = "twice" then 1 else 0

/-- A loop without end that calls `twice`, which calls `echo`, ends within the depth that programs
are run to. -/
theorem twiceLoop_ends :
    Ranked twiceRank (.program [twice, twiceLoop]) echoMachine.functions ∧
      ¬ Outcome.Exhausted (exec depthLimit twiceLoop echoMachine) := by
  have hmem : twiceLoop ∈ (Node.program [twice, twiceLoop]).nodes true :=
    Node.mem_nodes_of_mem_children (.tail _ (.head _))
  have hranked : Ranked twiceRank (.program [twice, twiceLoop]) echoMachine.functions := by decide
  exact ⟨hranked, (exec_ends_of_ranked hranked hmem (by decide)).1⟩

/-! ### Whole programs -/

theorem endsAlike_runStatements {run run' : Runner} {ns : List Node}
    (hns : ∀ n ∈ ns, EndsAlike D Value (run n) (run' n)) :
    EndsAlike D Unit (runStatements run ns) (runStatements run' ns) := by
  induction ns with
  | nil => exact endsAlike_congruence.pure ()
  | cons n ns ih =>
    have hrest := ih fun n hn => hns n (List.mem_cons_of_mem _ hn)
    have hfirst := endsAlike_congruence.bind (hns n List.mem_cons_self) fun _ =>
      endsAlike_congruence.pure ()
    have hwarned := endsAlike_congruence.recover hfirst fun cause =>
      endsAlike_congruence.writeLine ("Warning: " ++ cause.message)
    exact endsAlike_congruence.bind hwarned fun _ => hrest

theorem endsAlike_prepare (stmts : List Node) :
    EndsAlike D Unit (prepare stmts) (prepare stmts) := by
  have hbind := endsAlike_bindEverywhere (D := D)
  refine endsAlike_congruence.bind (endsAlike_congruence.bindTargets hbind _ _) fun _ => ?_
  refine endsAlike_congruence.bind (hbind _ _) fun _ => ?_
  exact endsAlike_congruence.bind (hbind _ _) fun _ => hbind _ _

/-- **The whole program ends**, when it is run statement by statement. -/
theorem runProgram_ends_of_ranked {rank : String → Nat} {stmts : List Node} {m : Machine}
    (hranked : Ranked rank (.program stmts) m.functions) {fuel : Nat}
    (hfuel : sufficientDepth rank (.program stmts) m.functions ≤ fuel) :
    ¬ Outcome.Exhausted (runProgram (exec fuel) stmts m) ∧
      runProgram (exec fuel) stmts m =
        runProgram (exec (sufficientDepth rank (.program stmts) m.functions)) stmts m := by
  have hstmts := endsAlike_runStatements fun n hn =>
    endsAlike_of_ranked hranked (Node.mem_nodes_of_mem_children hn) hfuel
  have hprogram := endsAlike_congruence.bind (endsAlike_prepare stmts) fun _ => hstmts
  obtain ⟨hsame, hend, -⟩ := hprogram m (within_definitions (.program stmts) m)
  exact ⟨hend, hsame.symm⟩

end SeqPar
