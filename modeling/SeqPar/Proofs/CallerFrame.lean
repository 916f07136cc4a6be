import SeqPar.Proofs.ScopeChain

/-!
# The tables of the caller

A call works in a scope of its own: it binds variables in the innermost table, and the tables around
it, which are those of the caller, are out of its reach.  Only parallel blocks bind variables in every
table.  So a call leaves the tables of its caller exactly as they were, provided that no parallel
block is run in it, and in whatever way it ends.

The invariant of a run is that the tables around the innermost one stay where they are; a run may put
tables in front of them, and it never takes away more tables than it has put there.  Parallel blocks
are excluded in the functions that were defined before and in the node that is run, so it has to be
carried along that no function with a parallel block is ever defined.

## Main definitions

* `Node.serial`, `Machine.serial` — no parallel block in a node, or in a function of a machine.
* `Frames`, `KeepsTables` — computations that keep the outer tables of a serial machine, or all of
  them.

## Main results

* `frames_congruence` — keeping the outer tables is a local congruence.
* `keepsTables_callFunction` — a call of a defined function keeps all tables of its caller.
* `frames_exec` — running a serial node keeps the outer tables.
* `call_keeps_tables` — **a call leaves the variables of its caller alone**.
-/

namespace SeqPar

open Exec

variable {α : Type}

/-! ### Nodes without parallel blocks -/

mutual

/-- Whether a node holds no parallel block where it could be run, the bodies of the functions that it
defines included. -/
def Node.serial : Node → Bool
  | .par _ => false
  | .assign _ right => right.serial
  | .cond condition body orElse =>
    condition.serial && Node.serialAll body && Node.serialElse orElse
  | .loop condition body => condition.serial && Node.serialAll body
  | .seq body => Node.serialAll body
  | .funcDef _ _ _ body => Node.serialAll body
  | .clientChannel _ host port => host.serial && port.serial
  | .serverChannel _ _ _ greeting _ => greeting.serial
  | .access _ _ base index => base.serial && index.serial
  | .logical _ _ left right => left.serial && right.serial
  | .relational _ _ left right => left.serial && right.serial
  | .arithmetic _ _ left right => left.serial && right.serial
  | .unary _ _ expr => expr.serial
  | .call _ _ args => Node.serialAll args
  | .ret expr => expr.serial
  | _ => true

/-- Whether nodes hold no parallel block. -/
def Node.serialAll : List Node → Bool
  | [] => true
  | n :: ns => n.serial && Node.serialAll ns

/-- Whether the other branch of a conditional holds no parallel block. -/
def Node.serialElse : Option (List Node) → Bool
  | none => true
  | some ns => Node.serialAll ns

end

theorem Node.serialAll_iff {ns : List Node} : serialAll ns = true ↔ ∀ n ∈ ns, n.serial = true := by
  induction ns with
  | nil => simp [serialAll]
  | cons n ns ih => simp [serialAll, ih]

theorem Node.serialElse_eq (orElse : Option (List Node)) :
    serialElse orElse = serialAll (orElse.getD []) := by
  cases orElse <;> rfl

/-- The parts of a serial node are serial. -/
theorem Node.serial_of_mem_parts {n c : Node} (hn : n.serial = true) (hc : c ∈ n.parts) :
    c.serial = true := by
  cases n with
  | par body => simp [serial] at hn
  | seq body | call type t args => exact serialAll_iff.mp hn c hc
  | cond condition body orElse =>
    simp only [serial, serialElse_eq, Bool.and_eq_true, serialAll_iff] at hn
    obtain ⟨⟨hcondition, hbody⟩, helse⟩ := hn
    simp only [parts, List.mem_cons, List.mem_append] at hc
    rcases hc with rfl | hc | hc
    · exact hcondition
    · exact hbody c hc
    · exact helse c hc
  | loop condition body =>
    simp only [serial, Bool.and_eq_true, serialAll_iff] at hn
    rcases List.mem_cons.mp hc with rfl | hc
    · exact hn.1
    · exact hn.2 c hc
  | assign | serverChannel | unary | ret =>
    obtain rfl := List.mem_singleton.mp hc
    exact hn
  | clientChannel | access | logical | relational | arithmetic =>
    simp only [serial, Bool.and_eq_true] at hn
    simp only [parts, List.mem_cons, List.not_mem_nil, or_false] at hc
    rcases hc with rfl | rfl
    · exact hn.1
    · exact hn.2
  | _ => cases hc

/-- Whether no function of a machine holds a parallel block. -/
def Machine.serial (m : Machine) : Bool :=
  m.functions.entries.all fun entry => entry.2.serial

theorem Machine.serial_of_functions_eq {m m' : Machine} (h : m'.functions = m.functions)
    (hm : m.serial = true) : m'.serial = true := by
  rw [Machine.serial, h]
  exact hm

/-- What is found under a name is an entry. -/
theorem Table.mem_entries_of_get? {t : Table α} {name : String} {a : α}
    (h : t.get? name = some a) : (name, a) ∈ t.entries := by
  obtain ⟨before, after, hentries, -⟩ := List.lookup_eq_some_iff.mp h
  rw [hentries]
  exact List.mem_append_right before List.mem_cons_self

/-- A function of a serial machine is serial. -/
theorem Machine.serial_of_get? {m : Machine} (hm : m.serial = true) {name : String} {n : Node}
    (hn : m.functions.get? name = some n) : n.serial = true := by
  rw [Machine.serial, List.all_eq_true] at hm
  exact hm (name, n) (Table.mem_entries_of_get? hn)

/-- What is in a table after an entry was put into it: that entry, or one that was there before. -/
theorem Table.mem_putIn {name : String} {a : α} {entries : List (String × α)}
    {entry : String × α} (h : entry ∈ putIn name a entries) :
    entry = (name, a) ∨ entry ∈ entries := by
  induction entries with
  | nil => exact .inl (List.mem_singleton.mp h)
  | cons first rest ih =>
    obtain ⟨n, b⟩ := first
    rw [putIn] at h
    split at h
    · rcases List.mem_cons.mp h with rfl | h
      · exact .inl rfl
      · exact .inr (List.mem_cons_of_mem _ h)
    · rcases List.mem_cons.mp h with rfl | h
      · exact .inr List.mem_cons_self
      · exact (ih h).imp_right (List.mem_cons_of_mem _)

/-- A machine stays serial when a serial function is defined. -/
theorem Machine.serial_define {m : Machine} (hm : m.serial = true) (name : String) {n : Node}
    (hn : n.serial = true) :
    ({ m with functions := m.functions.put name n } : Machine).serial = true := by
  rw [Machine.serial, List.all_eq_true] at hm ⊢
  intro entry hentry
  rcases Table.mem_putIn hentry with rfl | h
  · exact hn
  · exact hm entry h

/-! ### Keeping tables -/

namespace Scopes

/-- All tables of a chain are on another one, so that the outer ones are outer ones there too. -/
theorem outer_suffix_of_tables {s s' : Scopes α} (h : s.tables <:+ s'.tables) :
    s.outer <:+ s'.outer := by
  rcases List.suffix_cons_iff.mp h with heq | hsuffix
  · obtain ⟨-, houter⟩ := List.cons.inj heq
    exact houter ▸ List.suffix_rfl
  · exact (List.suffix_cons s.top s.outer).trans hsuffix

/-- Leaving a scope keeps tables that stand around the innermost one. -/
theorem tables_suffix_leave {s s' : Scopes α} (h : s.tables <:+ s'.outer) :
    s.tables <:+ s'.leave.tables := by
  obtain ⟨top, outer⟩ := s'
  cases outer with
  | nil =>
    have hlen := h.length_le
    exact absurd hlen (Nat.not_succ_le_zero _)
  | cons t rest => exact h

end Scopes

/-- On a serial machine the computation keeps the tables around the innermost one and defines only
serial functions.  Other tables may stand in front of them afterwards. -/
def Frames (p : Exec α) : Prop :=
  ∀ m : Machine, m.serial = true → (Outcome.machine (p m)).serial = true ∧
    m.scopes.outer <:+ (Outcome.machine (p m)).scopes.outer

/-- On a serial machine the computation keeps all tables and defines only serial functions. -/
def KeepsTables (p : Exec α) : Prop :=
  ∀ m : Machine, m.serial = true → (Outcome.machine (p m)).serial = true ∧
    m.scopes.tables <:+ (Outcome.machine (p m)).scopes.tables

theorem KeepsTables.frames {p : Exec α} (h : KeepsTables p) : Frames p :=
  fun m hm => ⟨(h m hm).1, Scopes.outer_suffix_of_tables (h m hm).2⟩

theorem Frames.of_storeFree {p : Exec α} (hp : StoreFree p) : Frames p := by
  intro m hm
  refine ⟨Machine.serial_of_functions_eq (hp.functions_eq m) hm, ?_⟩
  exact hp.scopeFree.scopes_eq m ▸ List.suffix_rfl

theorem Frames.handle {β : Type} {p : Exec α} {f : α → Exec β} {h : Signal → Exec β}
    (hp : Frames p) (hf : ∀ a, Frames (f a)) (hh : ∀ signal, Frames (h signal)) :
    Frames (handle p f h) := by
  intro m hm
  obtain ⟨hserial, houter⟩ := hp m hm
  have hnext : Frames (sequel f h (p m)) := by
    cases p m with
    | ok a m' => exact hf a
    | error signal m' => exact hh signal
  obtain ⟨hserial', houter'⟩ := hnext _ hserial
  rw [handle_apply]
  exact ⟨hserial', houter.trans houter'⟩

/-- Keeping the outer tables is a local congruence, as a relation of a computation to itself. -/
theorem frames_congruence : LocalCongruence fun _ p q => p = q ∧ Frames p where
  steady hp := ⟨rfl, .of_storeFree hp.storeFree⟩
  functions := ⟨rfl, fun m hm => ⟨hm, List.suffix_rfl⟩⟩
  binding? name := ⟨rfl, fun m hm => ⟨hm, List.suffix_rfl⟩⟩
  bindHere name v := ⟨rfl, fun m hm => ⟨hm, List.suffix_rfl⟩⟩
  handle := by
    rintro α β p q f g h k ⟨rfl, hp⟩ hf hh hstop hstop'
    have hh := @handlers_related β (fun p q => p = q ∧ Frames p) h k hh hstop hstop'
      ⟨rfl, .of_storeFree (.throw .exhausted)⟩
    obtain rfl : f = g := funext fun a => (hf a).1
    obtain rfl : h = k := funext fun signal => (hh signal).1
    exact ⟨rfl, .handle hp (fun a => (hf a).2) fun signal => (hh signal).2⟩

/-! ### Calls -/

/-- **A call of a defined function keeps all tables of its caller.**  They stand around the table of
the call, so its arguments and its statements keep them, and leaving the scope takes away a table in
front of them. -/
theorem keepsTables_callFunction {run : Runner} (hrun : ∀ n : Node, n.serial = true → Frames (run n))
    (params : List Node) {body args : List Node} (hbody : ∀ n ∈ body, n.serial = true)
    (hargs : ∀ n ∈ args, n.serial = true) : KeepsTables (callFunction run params body args) := by
  intro m hm
  have hparams : Frames (bindParams run 0 params args) :=
    (frames_congruence.bindParams 0 params args fun n hn => ⟨rfl, hrun n (hargs n hn)⟩).2
  obtain ⟨hserial, htables⟩ := hparams (m.withScopes m.scopes.enter) hm
  rw [callFunction_apply, handle_apply]
  cases hentered : bindParams run 0 params args (m.withScopes m.scopes.enter) with
  | error signal m' =>
    rw [hentered] at hserial htables
    exact ⟨hserial, List.suffix_cons_iff.mpr (.inr htables)⟩
  | ok _ m' =>
    rw [hentered] at hserial htables
    have hstmts : Frames (runBody run .nothing body) :=
      (frames_congruence.runBody .nothing body fun n hn => ⟨rfl, hrun n (hbody n hn)⟩).2
    obtain ⟨hserial', htables'⟩ := hstmts m' hserial
    change (Outcome.machine (afterwards _ _ m')).serial = true ∧
      _ <:+ (Outcome.machine (afterwards _ _ m')).scopes.tables
    rw [afterwards_apply, Outcome.machine_onMachine]
    exact ⟨hserial', Scopes.tables_suffix_leave (htables.trans htables')⟩

section Calls

variable {run : Runner} (hrun : ∀ n : Node, n.serial = true → Frames (run n))
variable {args : List Node} (hargs : ∀ n ∈ args, n.serial = true)

include hrun hargs

/-- A call of a name that is not built in, when the functions that were defined are serial. -/
theorem frames_callNamed (name : String) {functions : Table Node}
    (hfunctions : ∀ n, functions.get? name = some n → n.serial = true) :
    Frames (callNamed callFunction run name args functions) := by
  unfold callNamed
  split
  · next hdefined =>
    have hbody := Node.serialAll_iff.mp (hfunctions _ hdefined)
    exact (keepsTables_callFunction hrun _ hbody hargs).frames
  · exact (frames_congruence.callUndefined (fun n hn => ⟨rfl, hrun n (hargs n hn)⟩) name).2

theorem frames_runCall (name : String) : Frames (runCall run name args) := by
  rw [runCall_eq_callWith]
  unfold callWith
  cases Builtin.ofName? name with
  | some f =>
    exact (frames_congruence.callBuiltin (fun n hn => ⟨rfl, hrun n (hargs n hn)⟩) name f).2
  | none =>
    -- The function is looked up on the machine that runs the call, so it is serial.
    intro m hm
    exact frames_callNamed hrun hargs name (fun n hn => Machine.serial_of_get? hm hn) m hm

end Calls

/-! ### Runs -/

/-- **Running a serial node keeps the outer tables**, to every depth. -/
theorem frames_exec (fuel : Nat) {n : Node} (hn : n.serial = true) : Frames (exec fuel n) := by
  induction fuel generalizing n with
  | zero => exact .of_storeFree (.throw .exhausted)
  | succ fuel ih =>
    have hrun : ∀ c : Node, c.serial = true → Frames (exec fuel c) := fun c hc => ih hc
    by_cases hcall : ∃ type t args, n = .call type t args
    · obtain ⟨type, t, args, rfl⟩ := hcall
      exact frames_runCall hrun (Node.serialAll_iff.mp hn) t.text
    · refine (frames_congruence.step (fun c hc => ⟨rfl, hrun c (Node.serial_of_mem_parts hn hc)⟩)
        ?_ ?_ ?_).2
      · exact fun type t args h => hcall ⟨type, t, args, h⟩
      · rintro body rfl
        simp [Node.serial] at hn
      · rintro name ret params body rfl
        exact ⟨rfl, fun m hm => ⟨Machine.serial_define hm name hn, List.suffix_rfl⟩⟩

/-- **A call leaves the variables of its caller alone.**  Where neither the functions that were
defined nor the call hold a parallel block, every table that was on the chain before a call of a
defined function is on it afterwards, with the same contents and in the same place; other tables may
only stand in front of them.  This holds in whatever way the call ends. -/
theorem call_keeps_tables (fuel : Nat) (type : Option String) (t : Token) (args : List Node)
    (m : Machine) {name : String} {ret : Option String} {params body : List Node}
    (hbuiltin : Builtin.ofName? t.text = none)
    (hdefined : m.functions.get? t.text = some (.funcDef name ret params body))
    (hfunctions : m.serial = true) (hcall : (Node.call type t args).serial = true) :
    m.scopes.tables <:+ (Outcome.machine (exec fuel (.call type t args) m)).scopes.tables := by
  cases fuel with
  | zero => exact List.suffix_rfl
  | succ fuel =>
    have hbody := Node.serialAll_iff.mp (Machine.serial_of_get? hfunctions hdefined)
    have hkeeps := keepsTables_callFunction (fun n hn => frames_exec fuel hn) params hbody
      (Node.serialAll_iff.mp hcall)
    change _ <:+ (Outcome.machine (runCall (exec fuel) t.text args m)).scopes.tables
    rw [runCall_apply hbuiltin hdefined]
    exact (hkeeps m hfunctions).2

/-- The call `echo(x / y)` ends with a fault, but `x` and `y` of its caller are as before. -/
theorem call_keeps_tables_quotient :
    quotientMachine.serial = true ∧ (echoCall quotient).serial = true ∧
      quotientMachine.scopes.tables <:+
        (Outcome.machine (exec 3 (echoCall quotient) quotientMachine)).scopes.tables :=
  ⟨by decide, by decide, call_keeps_tables 3 none ⟨.ident, "echo"⟩ [quotient] quotientMachine rfl rfl
    (by decide) (by decide)⟩

end SeqPar
