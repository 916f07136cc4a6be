import SeqPar.Proofs.Initialisation
import SeqPar.Proofs.Ranked

/-!
# Assignments that fail

An assignment binds its variable last, when its right side has a value that can be stored.  So an
assignment that ends with a signal has only done what its right side did.  That may be a lot: calls
enter scopes, bind variables there, leave scopes behind and define functions.  But the variables that
were bound before are out of its reach, unless there is a parallel block or another assignment in it.
All that can happen to the tables of before is that reading an unbound variable binds it to zero, and
it does so only in the table that is the innermost one at that time.

A table is known here by its depth, counted from the outside, since calls put tables in front.  That a
run reads a variable while it is unbound is said by comparing it with a *watched* run, which stops for
good at such a reading.  The invariant of a run is about one variable at one depth: either the watched
run is the same and the variable is as before, or the watched run has stopped while the variable was
unbound, and the variable is zero.  Inside a call the table is out of reach, so that assignments to the
variable have to be excluded outside of calls only.

## Main definitions

* `Scopes.valueAt` — the value of a variable in the table at a depth.
* `execReading` — running nodes with another way of reading variables.
* `ReadsUnbound` — a run reads a variable at a depth while it is unbound there.
* `Follows`, `Followed` — the invariant, of outcomes and of computations.

## Main results

* `followed_congruence` — the invariant is kept by the constructs of programs.
* `followed_callFunction` — a call, where it has to hold one table further in only.
* `followed_exec` — the invariant of runs, to every depth.
* `failed_assignment_keeps_variables` — **an assignment that fails changes no variable.**
-/

namespace SeqPar

open Exec

variable {α β : Type}

/-! ### Tables by their depth -/

namespace Scopes

/-- The value of a variable in the table at a depth, counted from the outside. -/
def valueAt (s : Scopes α) (depth : Nat) (name : String) : Option α :=
  s.tables.reverse[depth]?.bind (·.get? name)

variable {s : Scopes α} {depth : Nat}

theorem reverse_tables (s : Scopes α) : s.tables.reverse = s.outer.reverse ++ [s.top] :=
  List.reverse_cons

/-- The tables around the innermost one. -/
theorem valueAt_of_lt (h : depth < s.outer.length) (name : String) :
    s.valueAt depth name = s.outer.reverse[depth]?.bind (·.get? name) := by
  rw [valueAt, reverse_tables, List.getElem?_append_left (by simpa using h)]

/-- The innermost table. -/
theorem valueAt_length (s : Scopes α) (name : String) :
    s.valueAt s.outer.length name = s.top.get? name := by
  rw [valueAt, reverse_tables, List.getElem?_append_right (by simp)]
  simp

/-- Beyond the innermost table there is none. -/
theorem valueAt_of_gt (h : s.outer.length < depth) (name : String) :
    s.valueAt depth name = none := by
  have hlength : s.tables.reverse.length ≤ depth := by
    rw [List.length_reverse]
    exact h
  rw [valueAt, List.getElem?_eq_none hlength]
  rfl

theorem valueAt_put_of_lt (h : depth < s.outer.length) (name x : String) (a : α) :
    (s.put name a).valueAt depth x = s.valueAt depth x :=
  (valueAt_of_lt (s := s.put name a) h x).trans (valueAt_of_lt h x).symm

theorem valueAt_put_of_ne {name x : String} (h : x ≠ name) (depth : Nat) (a : α) :
    (s.put name a).valueAt depth x = s.valueAt depth x := by
  rcases Nat.lt_trichotomy depth s.outer.length with hlt | rfl | hgt
  · exact valueAt_put_of_lt hlt name x a
  · rw [valueAt_length, ← Table.get?_put_of_ne s.top h a]
    exact (s.put name a).valueAt_length x
  · rw [valueAt_of_gt hgt, valueAt_of_gt (s := s.put name a) hgt]

theorem valueAt_enter (h : depth ≤ s.outer.length) (name : String) :
    s.enter.valueAt depth name = s.valueAt depth name :=
  valueAt_of_lt (s := s.enter) (Nat.lt_succ_of_le h) name

theorem valueAt_leave (h : depth < s.outer.length) (name : String) :
    s.leave.valueAt depth name = s.valueAt depth name := by
  rw [valueAt_of_lt h]
  obtain ⟨top, outer⟩ := s
  cases outer with
  | nil => exact absurd h (Nat.not_lt_zero _)
  | cons t rest => rfl

/-- A variable that is unbound stays so when its table is taken away. -/
theorem valueAt_leave_of_none {name : String} (h : s.valueAt depth name = none) :
    s.leave.valueAt depth name = none := by
  rcases Nat.lt_or_ge depth s.outer.length with hlt | hge
  · rw [valueAt_leave hlt, h]
  · obtain ⟨top, outer⟩ := s
    cases outer with
    | nil => exact h
    | cons t rest => exact valueAt_of_gt (s := ⟨t, rest⟩) hge name

theorem outer_length_leave (s : Scopes α) : s.outer.length ≤ s.leave.outer.length + 1 := by
  obtain ⟨top, outer⟩ := s
  cases outer with
  | nil => exact Nat.zero_le _
  | cons t rest => exact Nat.le_refl _

end Scopes

/-! ### Watched runs -/

/-- Runs a node to a depth, when variables are read by `read`. -/
def execReading (read : String → Exec Value) : (fuel : Nat) → Node → Exec Value
  | 0, _ => throw .exhausted
  | _ + 1, .ident _ t _ => read t.text
  | fuel + 1, n => step (execReading read fuel) n

/-- Reads a variable, but stops for good when it is the variable `x`, the table at the given depth is
the innermost one, and the variable is unbound there. -/
def readUnless (depth : Nat) (x name : String) : Exec Value := fun m =>
  if name = x ∧ m.scopes.outer.length = depth ∧ m.scopes.top.get? x = none then
    .error .exhausted m
  else runIdent name m

/-- Running a node comes to read a variable while the table at the given depth is the innermost one and
the variable is unbound there: stopping at such a reading makes a difference. -/
def ReadsUnbound (fuel : Nat) (n : Node) (m : Machine) (depth : Nat) (x : String) : Prop :=
  execReading (readUnless depth x) fuel n m ≠ exec fuel n m

/-! ### The invariant -/

section Invariant

variable (depth : Nat) (x : String)

/-- What a computation may do to the variable `x` at the given depth, from the machine on that it
starts on: it ends with the first outcome, and the watched one with the second. -/
def Follows (m : Machine) (r watched : Outcome α) : Prop :=
  watched = r ∧ (Outcome.machine r).scopes.valueAt depth x = m.scopes.valueAt depth x ∨
  (∃ m₁, watched = .error .exhausted m₁ ∧ m₁.scopes.valueAt depth x = none) ∧
    m.scopes.valueAt depth x = none ∧
    (Outcome.machine r).scopes.valueAt depth x = some (.int 0)

/-- On serial machines with at least the given number of outer tables, a computation defines only
serial functions, takes away no more tables than it puts there, and is followed by the watched one. -/
def Followed (least : Nat) (p watched : Exec α) : Prop :=
  ∀ m : Machine, m.serial = true → least ≤ m.scopes.outer.length →
    (Outcome.machine (p m)).serial = true ∧
    m.scopes.outer.length ≤ (Outcome.machine (p m)).scopes.outer.length ∧
    Follows depth x m (p m) (watched m)

end Invariant

namespace Follows

variable {depth : Nat} {x : String} {m : Machine}

theorem refl {r : Outcome α}
    (h : (Outcome.machine r).scopes.valueAt depth x = m.scopes.valueAt depth x) :
    Follows depth x m r r :=
  .inl ⟨rfl, h⟩

/-- Going on: the watched computation goes on after the same outcome, or it has stopped for good and
the variable stays zero. -/
theorem handle {p q : Exec α} {f g : α → Exec β} {h k : Signal → Exec β}
    (hp : Follows depth x m (p m) (q m))
    (hnext : Follows depth x (Outcome.machine (p m))
      (sequel f h (p m) (Outcome.machine (p m))) (sequel g k (p m) (Outcome.machine (p m))))
    (hstop : k .exhausted = throw .exhausted) :
    Follows depth x m (handle p f h m) (handle q g k m) := by
  rw [handle_apply p, handle_apply q]
  rcases hp with ⟨hsame, hvalue⟩ | ⟨⟨m₁, hwatched, hnone⟩, hunbound, hzero⟩
  · rw [hsame]
    rcases hnext with ⟨hsame', hvalue'⟩ | ⟨hstopped, hunbound', hzero'⟩
    · exact .inl ⟨hsame', hvalue'.trans hvalue⟩
    · exact .inr ⟨hstopped, hvalue.symm.trans hunbound', hzero'⟩
  · refine .inr ⟨⟨m₁, ?_, hnone⟩, hunbound, ?_⟩
    · rw [hwatched]
      show k .exhausted m₁ = _
      rw [hstop]
      rfl
    · rcases hnext with ⟨-, hvalue'⟩ | ⟨-, -, hzero'⟩
      · exact hvalue'.trans hzero
      · exact hzero'

/-- The scope that was entered for the computation has no variables at the depth. -/
theorem of_enter {r watched : Outcome α} (hdepth : depth ≤ m.scopes.outer.length)
    (h : Follows depth x (m.withScopes m.scopes.enter) r watched) : Follows depth x m r watched := by
  have hvalue : (m.withScopes m.scopes.enter).scopes.valueAt depth x = m.scopes.valueAt depth x :=
    Scopes.valueAt_enter hdepth x
  rwa [Follows, hvalue] at h

/-- Leaving a scope afterwards. -/
theorem leave {r watched : Outcome α} (h : Follows depth x m r watched)
    (hdepth : depth < (Outcome.machine r).scopes.outer.length) :
    Follows depth x m (Outcome.onMachine Machine.leaveScope r)
      (Outcome.onMachine Machine.leaveScope watched) := by
  have hvalue : (Outcome.machine (Outcome.onMachine Machine.leaveScope r)).scopes.valueAt depth x =
      (Outcome.machine r).scopes.valueAt depth x := by
    rw [Outcome.machine_onMachine]
    exact Scopes.valueAt_leave hdepth x
  rw [Follows, hvalue]
  rcases h with ⟨rfl, hsame⟩ | ⟨⟨m₁, rfl, hnone⟩, hrest⟩
  · exact .inl ⟨rfl, hsame⟩
  · exact .inr ⟨⟨m₁.leaveScope, rfl, Scopes.valueAt_leave_of_none hnone⟩, hrest⟩

/-- A variable that is bound keeps its value. -/
theorem of_bound {r watched : Outcome α} (h : Follows depth x m r watched) {v : Value}
    (hv : m.scopes.valueAt depth x = some v) :
    (Outcome.machine r).scopes.valueAt depth x = some v := by
  rcases h with ⟨-, hvalue⟩ | ⟨-, hnone, -⟩
  · exact hvalue.trans hv
  · rw [hv] at hnone
    cases hnone

/-- A variable that gets a value is zero, and the watched computation has stopped before. -/
theorem of_unbound {r watched : Outcome α} (h : Follows depth x m r watched) {v : Value}
    (hnone : m.scopes.valueAt depth x = none)
    (hv : (Outcome.machine r).scopes.valueAt depth x = some v) : v = .int 0 ∧ watched ≠ r := by
  rcases h with ⟨-, hvalue⟩ | ⟨⟨m₁, hwatched, hunbound⟩, -, hzero⟩
  · rw [hvalue, hnone] at hv
    cases hv
  · rw [hzero] at hv
    refine ⟨(Option.some.inj hv).symm, ?_⟩
    rintro rfl
    rw [hwatched] at hzero
    cases hunbound.symm.trans hzero

end Follows

section Computations

variable {depth least : Nat} {x : String}

/-- A computation that leaves the scopes and the functions alone. -/
theorem Followed.of_storeFree {p : Exec α} (hp : StoreFree p) : Followed depth x least p p := by
  intro m hm _
  have hscopes := hp.scopeFree.scopes_eq m
  refine ⟨Machine.serial_of_functions_eq (hp.functions_eq m) hm, ?_, .refl ?_⟩
  · exact Nat.le_of_eq (congrArg (·.outer.length) hscopes.symm)
  · exact congrArg (·.valueAt depth x) hscopes

/-- **The invariant is kept by the constructs of programs.** -/
theorem followed_congruence (depth least : Nat) (x : String) :
    SignalCongruence fun _ p q => Followed depth x least p q where
  steady hp := .of_storeFree hp.storeFree
  functions := fun m hm _ => ⟨hm, Nat.le_refl _, .refl rfl⟩
  binding? name := fun m hm _ => ⟨hm, Nat.le_refl _, .refl rfl⟩
  handle := by
    intro α β p q f g h k hp hf hh hstop hstop' m hm hleast
    have hh := @handlers_related β (fun p q => Followed depth x least p q) h k hh hstop hstop'
      (.of_storeFree (.throw .exhausted))
    obtain ⟨hserial, hlength, hfollows⟩ := hp m hm hleast
    have hnext : Followed depth x least (sequel f h (p m)) (sequel g k (p m)) := by
      cases p m with
      | ok a m' => exact hf a
      | error signal m' => exact hh signal
    obtain ⟨hserial', hlength', hfollows'⟩ := hnext _ hserial (Nat.le_trans hleast hlength)
    refine ⟨?_, ?_, hfollows.handle hfollows' hstop'⟩
    · rw [handle_apply]
      exact hserial'
    · rw [handle_apply]
      exact Nat.le_trans hlength hlength'

/-- Binding a variable in the innermost table is no matter for other variables, and for the tables
around it. -/
theorem followed_bindHere {name : String} (h : depth < least ∨ name ≠ x) (v : Value) :
    Followed depth x least (bindHere name v) (bindHere name v) := by
  intro m hm hleast
  refine ⟨hm, Nat.le_refl _, .refl ?_⟩
  show (m.scopes.put name v).valueAt depth x = m.scopes.valueAt depth x
  rcases h with hlt | hne
  · exact Scopes.valueAt_put_of_lt (Nat.lt_of_lt_of_le hlt hleast) name x v
  · exact Scopes.valueAt_put_of_ne hne.symm depth v

/-- Further in than the table, every binding is allowed. -/
theorem followed_localCongruence (h : depth < least) (x : String) :
    LocalCongruence fun _ p q => Followed depth x least p q where
  toSignalCongruence := followed_congruence depth least x
  bindHere _ v := followed_bindHere (.inl h) v

theorem runIdent_of_bound {name : String} {v : Value} {m : Machine}
    (h : m.scopes.top.get? name = some v) : runIdent name m = .ok v m :=
  bind_of_ok _ (binding?_of_get? h)

theorem runIdent_of_unbound {name : String} {m : Machine} (h : m.scopes.top.get? name = none) :
    runIdent name m = .ok (.int 0) (m.withScopes (m.scopes.put name (.int 0))) :=
  bind_of_ok _ (binding?_of_get? h)

/-- **Reading a variable** is the only occasion on which the watched run may stop. -/
theorem followed_readUnless (hdepth : depth ≤ least) (name : String) :
    Followed depth x least (runIdent name) (readUnless depth x name) := by
  intro m hm hleast
  by_cases hstop : name = x ∧ m.scopes.outer.length = depth ∧ m.scopes.top.get? x = none
  · have hwatched : readUnless depth x name m = .error .exhausted m := if_pos hstop
    obtain ⟨rfl, rfl, hnone⟩ := hstop
    have hvalue : m.scopes.valueAt m.scopes.outer.length name = none :=
      (m.scopes.valueAt_length name).trans hnone
    rw [hwatched, runIdent_of_unbound hnone]
    refine ⟨hm, Nat.le_refl _, .inr ⟨⟨m, rfl, hvalue⟩, hvalue, ?_⟩⟩
    exact ((m.scopes.put name (.int 0)).valueAt_length name).trans (Table.get?_put_self _ _ _)
  · have hwatched : readUnless depth x name m = runIdent name m := if_neg hstop
    rw [hwatched]
    cases hname : m.scopes.top.get? name with
    | some v =>
      rw [runIdent_of_bound hname]
      exact ⟨hm, Nat.le_refl _, .refl rfl⟩
    | none =>
      rw [runIdent_of_unbound hname]
      refine ⟨hm, Nat.le_refl _, .refl ?_⟩
      -- Another variable is bound, or the same one in another table.
      by_cases hx : name = x
      · subst hx
        have hlt : depth < m.scopes.outer.length := by
          have hne : m.scopes.outer.length ≠ depth := fun heq => hstop ⟨rfl, heq, hname⟩
          omega
        exact Scopes.valueAt_put_of_lt hlt name name _
      · exact Scopes.valueAt_put_of_ne (Ne.symm hx) depth _

end Computations

/-! ### Calls -/

section Calls

variable {depth least : Nat} {x : String} {run watched : Runner} {args : List Node}

/-- The statements of a function, and leaving its scope. -/
theorem followed_statements (hdepth : depth ≤ least)
    (hrun : ∀ n : Node, n.serial = true → Followed depth x (least + 1) (run n) (watched n))
    {body : List Node} (hbody : ∀ n ∈ body, n.serial = true) {m : Machine} (hm : m.serial = true)
    {outer : Nat} (hleast : least ≤ outer) (houter : outer + 1 ≤ m.scopes.outer.length) :
    let r := afterwards (runBody run .nothing body) Machine.leaveScope m
    (Outcome.machine r).serial = true ∧ outer ≤ (Outcome.machine r).scopes.outer.length ∧
      Follows depth x m r (afterwards (runBody watched .nothing body) Machine.leaveScope m) := by
  have hstmts : Followed depth x (least + 1) (runBody run .nothing body)
      (runBody watched .nothing body) :=
    (followed_congruence depth (least + 1) x).runBody .nothing body fun n hn => hrun n (hbody n hn)
  obtain ⟨hserial, hlength, hfollows⟩ := hstmts m hm (by omega)
  have hleave := (Outcome.machine (runBody run .nothing body m)).scopes.outer_length_leave
  dsimp only
  rw [afterwards_apply, afterwards_apply, Outcome.machine_onMachine]
  refine ⟨hserial, ?_, hfollows.leave (by omega)⟩
  show outer ≤ (Outcome.machine (runBody run .nothing body m)).scopes.leave.outer.length
  omega

/-- **A call of a defined function**: its arguments and its statements run one table further in. -/
theorem followed_callFunction (hdepth : depth ≤ least)
    (hrun : ∀ n : Node, n.serial = true → Followed depth x (least + 1) (run n) (watched n))
    (params : List Node) {body : List Node} (hbody : ∀ n ∈ body, n.serial = true)
    (hargs : ∀ n ∈ args, n.serial = true) :
    Followed depth x least (callFunction run params body args)
      (callFunction watched params body args) := by
  intro m hm hleast
  have hparams : Followed depth x (least + 1) (bindParams run 0 params args)
      (bindParams watched 0 params args) :=
    (followed_localCongruence (Nat.lt_succ_of_le hdepth) x).bindParams 0 params args
      fun n hn => hrun n (hargs n hn)
  obtain ⟨hserial, hlength, hfollows⟩ :=
    hparams (m.withScopes m.scopes.enter) hm (Nat.succ_le_succ hleast)
  rw [callFunction_apply, callFunction_apply]
  -- A fault in the arguments leaves the new scope behind; else it is left after the statements.
  have hfollows' := hfollows.handle
    (f := fun _ => afterwards (runBody run .nothing body) Machine.leaveScope) (h := throw)
    (g := fun _ => afterwards (runBody watched .nothing body) Machine.leaveScope) (k := throw)
  rw [handle_apply] at hfollows' ⊢
  cases hentered : bindParams run 0 params args (m.withScopes m.scopes.enter) with
  | error signal m' =>
    rw [hentered] at hserial hlength hfollows'
    exact ⟨hserial, Nat.le_of_succ_le hlength,
      (hfollows' (.refl rfl) rfl).of_enter (Nat.le_trans hdepth hleast)⟩
  | ok _ m' =>
    rw [hentered] at hserial hlength hfollows'
    obtain ⟨hserial', hlength', hnext⟩ :=
      followed_statements hdepth hrun hbody hserial hleast hlength
    exact ⟨hserial', hlength', (hfollows' hnext rfl).of_enter (Nat.le_trans hdepth hleast)⟩

/-- A call of a name that is not built in, when the functions that were defined are serial. -/
theorem followed_callNamed (hdepth : depth ≤ least)
    (hrun : ∀ n : Node, n.serial = true → Followed depth x (least + 1) (run n) (watched n))
    (hargs : ∀ n ∈ args, n.serial = true)
    (hhere : ∀ n ∈ args, Followed depth x least (run n) (watched n)) (name : String)
    {functions : Table Node} (hfunctions : ∀ n, functions.get? name = some n → n.serial = true) :
    Followed depth x least (callNamed callFunction run name args functions)
      (callNamed callFunction watched name args functions) := by
  unfold callNamed
  split
  · next hdefined =>
    have hbody := Node.serialAll_iff.mp (hfunctions _ hdefined)
    exact followed_callFunction hdepth hrun _ hbody hargs
  · exact (followed_congruence depth least x).callUndefined hhere name

theorem followed_runCall (hdepth : depth ≤ least)
    (hrun : ∀ n : Node, n.serial = true → Followed depth x (least + 1) (run n) (watched n))
    (hargs : ∀ n ∈ args, n.serial = true)
    (hhere : ∀ n ∈ args, Followed depth x least (run n) (watched n)) (name : String) :
    Followed depth x least (runCall run name args) (runCall watched name args) := by
  rw [runCall_eq_callWith, runCall_eq_callWith]
  unfold callWith
  cases Builtin.ofName? name with
  | some f => exact (followed_congruence depth least x).callBuiltin hhere name f
  | none =>
    -- The function is looked up on the machine that runs the call, so it is serial.
    intro m hm
    exact followed_callNamed hdepth hrun hargs hhere name
      (fun n hn => Machine.serial_of_get? hm hn) m hm

end Calls

/-! ### Runs -/

/-- The tree holds an assignment to the variable, outside of the functions that it defines. -/
def Node.AssignsTo (n : Node) (x : String) : Prop :=
  ∃ left right t, .assign left right ∈ n.nodes false ∧ left.token? = some t ∧ t.text = x

theorem Node.AssignsTo.of_mem_parts {n c : Node} {x : String} (hc : c ∈ n.parts)
    (h : c.AssignsTo x) : n.AssignsTo x := by
  obtain ⟨left, right, t, hmem, ht, hx⟩ := h
  have hnode : c ∈ n.nodes false := mem_nodes_of_mem_children (mem_children_of_mem_parts hc)
  exact ⟨left, right, t, (nodes_sublist hnode).subset hmem, ht, hx⟩

theorem execReading_succ (read : String → Exec Value) (fuel : Nat) {n : Node}
    (hn : ∀ type t decl, n ≠ .ident type t decl) :
    execReading read (fuel + 1) n = step (execReading read fuel) n := by
  cases n with
  | ident type t decl => exact absurd rfl (hn type t decl)
  | _ => rfl

/-- **The invariant of runs**, to every depth.  Assignments to the variable are excluded only where its
table may be the innermost one. -/
theorem followed_exec {depth : Nat} {x : String} (fuel : Nat) {least : Nat} (hdepth : depth ≤ least)
    {n : Node} (hn : n.serial = true) (hx : depth < least ∨ ¬ n.AssignsTo x) :
    Followed depth x least (exec fuel n) (execReading (readUnless depth x) fuel n) := by
  induction fuel generalizing n least with
  | zero => exact .of_storeFree (.throw .exhausted)
  | succ fuel ih =>
    have hparts (c : Node) (hc : c ∈ n.parts) :
        Followed depth x least (exec fuel c) (execReading (readUnless depth x) fuel c) :=
      ih hdepth (Node.serial_of_mem_parts hn hc) (hx.imp_right fun h hassigns =>
        h (hassigns.of_mem_parts hc))
    by_cases hident : ∃ type t decl, n = .ident type t decl
    · obtain ⟨type, t, decl, rfl⟩ := hident
      exact followed_readUnless hdepth t.text
    · rw [execReading_succ _ _ fun type t decl h => hident ⟨type, t, decl, h⟩]
      by_cases hcall : ∃ type t args, n = .call type t args
      · obtain ⟨type, t, args, rfl⟩ := hcall
        have hinside (c : Node) (hc : c.serial = true) :
            Followed depth x (least + 1) (exec fuel c) (execReading (readUnless depth x) fuel c) :=
          ih (Nat.le_succ_of_le hdepth) hc (.inl (Nat.lt_succ_of_le hdepth))
        exact followed_runCall hdepth hinside (Node.serialAll_iff.mp hn) hparts t.text
      · refine (followed_congruence depth least x).step hparts ?_ ?_ ?_ ?_ ?_
        · exact fun type t args h => hcall ⟨type, t, args, h⟩
        · exact fun type t decl h => absurd ⟨type, t, decl, h⟩ hident
        · rintro left right rfl t ht v
          refine followed_bindHere (hx.imp_right fun h heq => h ?_) v
          exact ⟨left, right, t, Node.mem_nodes_self false _, ht, heq⟩
        · rintro body rfl
          simp [Node.serial] at hn
        · rintro name ret params body rfl
          exact fun m hm _ => ⟨Machine.serial_define hm name hn, Nat.le_refl _, .refl rfl⟩

/-! ### Assignments -/

/-- What an assignment does before it binds its variable: the name of the variable, and the value that
is stored. -/
def prepareAssignment (run : Runner) (left right : Node) : Exec (String × Value) := do
  let name ← left.tokenText
  let v ← ofExcept (← run right).stored
  return (name, v)

theorem runAssign_eq (run : Runner) (left right : Node) :
    runAssign run left right = exitOnInterrupt (wrapFaults .inAssignment do
      let (name, v) ← prepareAssignment run left right
      bindHere name v
      return v) := by
  unfold runAssign prepareAssignment
  simp only [bind_assoc, pure_bind]

/-- Only the run of the right side changes the machine. -/
theorem machine_prepareAssignment (run : Runner) (left right : Node) (m : Machine) :
    Outcome.machine (prepareAssignment run left right m) = m ∨
      Outcome.machine (prepareAssignment run left right m) = Outcome.machine (run right m) := by
  unfold prepareAssignment
  cases ht : left.token? with
  | none =>
    rw [bind_of_error _ (tokenText_of_none ht m)]
    exact .inl rfl
  | some t =>
    rw [bind_of_ok _ (tokenText_of_some ht m)]
    cases hright : run right m with
    | error signal m₁ =>
      rw [bind_of_error _ hright]
      exact .inr rfl
    | ok v m₁ =>
      rw [bind_of_ok _ hright]
      cases v.stored with
      | error fault => exact .inr rfl
      | ok stored => exact .inr rfl

/-- **An assignment that ends with a signal has bound no variable**: the signal comes from the
computation of the name and the value, and is passed on. -/
theorem machine_of_failed_assignment {run : Runner} {left right : Node} {m m' : Machine}
    {signal : Signal} (h : runAssign run left right m = .error signal m') :
    m' = m ∨ m' = Outcome.machine (run right m) := by
  have hmachine := machine_prepareAssignment run left right m
  rw [runAssign_eq] at h
  cases hp : prepareAssignment run left right m with
  | error cause m₁ =>
    rw [exitOnInterrupt_of_error (wrapFaults_of_error _ (bind_of_error _ hp))] at h
    cases h
    rwa [hp] at hmachine
  | ok result m₁ =>
    have hbound := bind_of_ok (fun (name, v) => do bindHere name v; return v) hp
    rw [exitOnInterrupt_of_ok (wrapFaults_of_ok _ (hbound.trans rfl))] at h
    cases h

/-- Whether a node is of one of the kinds of expressions. -/
def Node.isExpression : Node → Bool
  | .constant .. | .ident .. | .access .. | .logical .. | .relational .. | .arithmetic ..
  | .unary .. | .call .. | .expression .. | .datum _ => true
  | _ => false

/-- A tree of expressions assigns to no variable. -/
theorem Node.not_assignsTo {n : Node} (h : ∀ c ∈ n.nodes false, c.isExpression = true)
    (x : String) : ¬ n.AssignsTo x := by
  rintro ⟨left, right, t, hmem, -⟩
  cases h _ hmem

/-- **An assignment that fails changes no variable.**  Where neither the assignment nor the functions
that were defined hold a parallel block, and the assignment ends with a signal, all tables that were
on the chain are still there.  For every table and every variable that is not assigned to inside the
right side, which are all variables if the right side is made of expressions:

* if the variable was bound in the table, it still has its value there;
* if it was not and is now, it is zero, and the right side has read it while it was unbound and the
  table was the innermost one. -/
theorem failed_assignment_keeps_variables (fuel : Nat) (left right : Node) {m m' : Machine}
    {signal : Signal} (hnode : (Node.assign left right).serial = true) (hfunctions : m.serial = true)
    (hfails : exec (fuel + 1) (.assign left right) m = .error signal m') :
    m.scopes.outer.length ≤ m'.scopes.outer.length ∧
    ((∀ n ∈ right.nodes false, n.isExpression = true) → ∀ x, ¬ right.AssignsTo x) ∧
    ∀ depth ≤ m.scopes.outer.length, ∀ x, ¬ right.AssignsTo x →
      (∀ v, m.scopes.valueAt depth x = some v → m'.scopes.valueAt depth x = some v) ∧
      (∀ v, m.scopes.valueAt depth x = none → m'.scopes.valueAt depth x = some v →
        v = .int 0 ∧ ReadsUnbound fuel right m depth x) := by
  have hserial : right.serial = true := Node.serial_of_mem_parts hnode List.mem_cons_self
  have hmachine : m' = m ∨ m' = Outcome.machine (exec fuel right m) :=
    machine_of_failed_assignment hfails
  refine ⟨?_, Node.not_assignsTo, ?_⟩
  · rcases hmachine with rfl | rfl
    · exact Nat.le_refl _
    · exact (frames_exec fuel hserial m hfunctions).2.length_le
  · intro depth hdepth x hx
    obtain ⟨-, -, hfollows⟩ :=
      followed_exec fuel hdepth hserial (.inr hx) m hfunctions (Nat.le_refl _)
    rcases hmachine with rfl | rfl
    · refine ⟨fun v hv => hv, fun v hnone hv => ?_⟩
      rw [hnone] at hv
      cases hv
    · exact ⟨fun v hv => hfollows.of_bound hv, fun v hnone hv => hfollows.of_unbound hnone hv⟩

/-- The assignment `x = z + echo(x / y)`. -/
def quotientAssignment : Node :=
  .assign (.ident none ⟨.ident, "x"⟩ false)
    (.arithmetic none ⟨.plus, "+"⟩ (.ident none ⟨.ident, "z"⟩ false) (echoCall quotient))

/-- The assignment `x = z + echo(x / y)` fails in the argument of the call.  `x` is still one, and `z`
is zero because it was read before. -/
theorem failed_assignment_keeps_quotient :
    ∃ signal m', exec 5 quotientAssignment quotientMachine = .error signal m' ∧
      m'.scopes.valueAt 0 "x" = some (.int 1) ∧ m'.scopes.valueAt 0 "z" = some (.int 0) ∧
      ReadsUnbound 4 (.arithmetic none ⟨.plus, "+"⟩ (.ident none ⟨.ident, "z"⟩ false)
        (echoCall quotient)) quotientMachine 0 "z" := by
  refine ⟨_, _, rfl, ?_⟩
  obtain ⟨-, hnone, hkeeps⟩ := failed_assignment_keeps_variables 4 _ _
    (show quotientAssignment.serial = true by decide) (show quotientMachine.serial = true by decide)
    rfl
  have hfree := hnone (by decide)
  refine ⟨(hkeeps 0 (Nat.le_refl _) "x" (hfree "x")).1 _ rfl, rfl, ?_⟩
  exact ((hkeeps 0 (Nat.le_refl _) "z" (hfree "z")).2 _ rfl rfl).2

end SeqPar
