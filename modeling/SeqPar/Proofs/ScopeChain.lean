import Mathlib.Data.List.Forall2
import Mathlib.Logic.Relation
import SeqPar.Proofs.Simulation

/-!
# The chain of scopes across a run

A run works on the tables of a chain of scopes: it binds variables in them, and its calls put new
tables in front and take them away again.  What a call leaves behind is settled here for every run.
The tables that were there before a run are there afterwards, in their order, with bindings put into
them; in front of them stand the tables that were left behind.

A call enters its scope before it runs its arguments, and only the statements of the function are
guarded by leaving the scope.  So a scope is left behind by every call whose arguments end with a
signal, and by nothing else.  To say so, a run is compared with its *cautious* run, which stops for
good when an argument of a defined function fails.

## Main definitions

* `Table.Becomes` — a table at a later time.
* `Scopes.Restored`, `Scopes.LeavesBehind` — what became of a chain of scopes.
* `cautiousCall` — a call that stops the run when an argument fails.

## Main results

* `watches_exec` — the cautious run of a node stops exactly when scopes are left behind.
* `scopes_restored_iff` — **a run restores the chain exactly when none of its arguments fail**.
-/

namespace SeqPar

open Exec

variable {α : Type}

/-! ### Tables at a later time -/

namespace Table

/-- The table `t'` is `t` at a later time: entries were put into it, one after the other. -/
def Becomes : Table α → Table α → Prop :=
  Relation.ReflTransGen fun t t' => ∃ name a, t' = t.put name a

theorem becomes_put (t : Table α) (name : String) (a : α) : t.Becomes (t.put name a) :=
  .single ⟨name, a, rfl⟩

theorem Becomes.trans {t t' t'' : Table α} (h : t.Becomes t') (h' : t'.Becomes t'') :
    t.Becomes t'' :=
  Relation.ReflTransGen.trans h h'

/-- Position by position, a relation from tables to later ones follows on another. -/
theorem all_compose {R S T : Table α → Table α → Prop} {ts ts' ts'' : List (Table α)}
    (h : List.Forall₂ R ts ts') (h' : List.Forall₂ S ts' ts'')
    (hcompose : ∀ {t t' t''}, R t t' → S t' t'' → T t t'') : List.Forall₂ T ts ts'' := by
  induction h generalizing ts'' with
  | nil =>
    rw [List.forall₂_nil_left_iff.mp h']
    exact .nil
  | cons ht _ ih =>
    obtain ⟨t'', rest, ht', hrest, rfl⟩ := List.forall₂_cons_left_iff.mp h'
    exact .cons (hcompose ht ht') (ih hrest)

end Table

namespace Scopes

/-- The chain has the same tables on it as before, at a later time. -/
def Restored (s s' : Scopes α) : Prop :=
  List.Forall₂ Table.Becomes s.tables s'.tables

/-- The chain has the same tables on it as before, and `k` tables in front of them. -/
def LeavesBehind (k : Nat) (s s' : Scopes α) : Prop :=
  List.Forall₂ Table.Becomes s.tables (s'.tables.drop k)

namespace LeavesBehind

variable {j k : Nat} {s s' s'' : Scopes α}

theorem refl (s : Scopes α) : LeavesBehind 0 s s :=
  List.forall₂_same.mpr fun _ _ => .refl

/-- The depth tells how many tables are left behind. -/
theorem length_eq (h : LeavesBehind k s s') : s'.tables.length = k + s.tables.length := by
  have hlen := List.Forall₂.length_eq h
  have hpos : 0 < s.tables.length := Nat.succ_pos _
  rw [List.length_drop] at hlen
  omega

/-- Once it is known how many tables are left behind, the chain is restored when there are none. -/
theorem restored_iff (h : LeavesBehind k s s') : s.Restored s' ↔ k = 0 := by
  constructor
  · intro hr
    have hlen := List.Forall₂.length_eq hr
    have := h.length_eq
    omega
  · intro hk
    subst hk
    exact h

theorem trans (h : LeavesBehind j s s') (h' : LeavesBehind k s' s'') :
    LeavesBehind (k + j) s s'' := by
  have hdrop := List.forall₂_drop j h'
  rw [List.drop_drop] at hdrop
  exact Table.all_compose h hdrop Table.Becomes.trans

/-- Binding a variable in the innermost scope leaves nothing behind. -/
theorem put (s : Scopes α) (name : String) (a : α) : LeavesBehind 0 s (s.put name a) :=
  .cons (s.top.becomes_put name a) (List.forall₂_same.mpr fun _ _ => .refl)

/-- Binding a variable in every scope leaves nothing behind. -/
theorem putEverywhere (s : Scopes α) (name : String) (a : α) :
    LeavesBehind 0 s (s.putEverywhere name a) := by
  refine .cons (s.top.becomes_put name a) ?_
  change List.Forall₂ Table.Becomes s.outer (s.outer.map (·.put name a))
  rw [List.forall₂_map_right_iff, List.forall₂_same]
  exact fun t _ => t.becomes_put name a

/-- A scope that is entered is one more table in front. -/
theorem of_enter (h : LeavesBehind k s.enter s') : LeavesBehind (k + 1) s s' := by
  have hdrop := List.forall₂_drop 1 h
  rw [List.drop_drop] at hdrop
  exact hdrop

/-- Leaving a scope takes away a table in front, whichever it is. -/
theorem leave (h : LeavesBehind (k + 1) s s') : LeavesBehind k s s'.leave := by
  have hlen := h.length_eq
  obtain ⟨top, outer⟩ := s'
  cases outer with
  | nil =>
    have hpos : 0 < s.tables.length := Nat.succ_pos _
    simp only [tables, List.length_cons, List.length_nil] at hlen hpos
    omega
  | cons t rest => exact h

end LeavesBehind

end Scopes

/-! ### Cautious runs -/

/-- Stops the run for good when a computation ends with a signal. -/
def stopOnSignal (p : Exec α) : Exec α :=
  handle p pure fun _ => throw .exhausted

/-- A call of a defined function that stops the run when an argument fails. -/
def cautiousCall : Caller := fun run params body args => do
  enterScope
  stopOnSignal (bindParams run 0 params args)
  afterwards (runBody run .nothing body) Machine.leaveScope

/-- How a cautious run `q` goes along with the run `p`.  As long as no scope is left behind they are
the same; else the cautious run has stopped. -/
def Watches (α : Type) (p q : Exec α) : Prop :=
  ∀ m, ∃ k, Scopes.LeavesBehind k m.scopes (Outcome.machine (p m)).scopes ∧
    (k = 0 → q m = p m) ∧ (k ≠ 0 → Outcome.Exhausted (q m))

/-- A computation that leaves no scope behind goes along with itself. -/
theorem Watches.of_restored {p : Exec α}
    (h : ∀ m, Scopes.LeavesBehind 0 m.scopes (Outcome.machine (p m)).scopes) : Watches α p p :=
  fun m => ⟨0, h m, fun _ => rfl, fun hne => absurd rfl hne⟩

theorem Watches.of_scopeFree {p : Exec α} (hp : ScopeFree p) : Watches α p p := by
  refine .of_restored fun m => ?_
  rw [hp.scopes_eq]
  exact .refl _

/-- Nothing follows a run that has stopped. -/
theorem exhausted_handle {β : Type} {q : Exec α} {g : α → Exec β} {k : Signal → Exec β}
    {m : Machine} (hk : k .exhausted = throw .exhausted) (hq : Outcome.Exhausted (q m)) :
    Outcome.Exhausted (handle q g k m) := by
  unfold handle
  cases hqm : q m with
  | ok a m' =>
    rw [hqm] at hq
    exact hq.elim
  | error signal m' =>
    rw [hqm] at hq
    cases signal with
    | exhausted =>
      dsimp only
      rw [hk]
      trivial
    | _ => exact hq.elim

/-- Going along is a congruence: the scopes that two computations leave behind add up. -/
theorem watches_congruence : Congruence Watches where
  steady hp := .of_scopeFree hp.storeFree.scopeFree
  exhausted := .of_scopeFree (StoreFree.throw .exhausted).scopeFree
  functions := .of_scopeFree (.reading fun _ _ => rfl)
  define name n := .of_scopeFree (.changing fun _ _ => rfl)
  binding? name := .of_restored fun m => .refl _
  bindHere name v := .of_restored fun m => .put _ name v
  bindEverywhere name v := .of_restored fun m => .putEverywhere _ name v
  handle := by
    intro α β p q f g h k hp hf hh hh' hk m
    obtain ⟨i, hi, hsame, hstop⟩ := hp m
    have hend : Watches β (throw .exhausted) (throw .exhausted) :=
      .of_scopeFree (StoreFree.throw .exhausted).scopeFree
    have hnext : Watches β (sequel f h (p m)) (sequel g k (p m)) := by
      cases p m with
      | ok a m' => exact hf a
      | error signal m' => exact handlers_related hh hh' hk hend signal
    obtain ⟨j, hj, hsame', hstop'⟩ := hnext (Outcome.machine (p m))
    rw [handle_apply p]
    -- The scopes left by `p` and by what follows it add up, so a sum of zero means none of either.
    refine ⟨j + i, hi.trans hj, ?_, ?_⟩
    · intro hsum
      rw [handle_apply, hsame (by omega), hsame' (by omega)]
    · intro hsum
      by_cases hi0 : i = 0
      · rw [handle_apply, hsame hi0]
        exact hstop' (by omega)
      · exact exhausted_handle hk (hstop hi0)

/-! ### Calls -/

theorem cautiousCall_apply (run : Runner) (params body args : List Node) (m : Machine) :
    cautiousCall run params body args m =
      handle (bindParams run 0 params args)
        (fun _ => afterwards (runBody run .nothing body) Machine.leaveScope)
        (fun _ => throw .exhausted) (m.withScopes m.scopes.enter) := by
  change (stopOnSignal (bindParams run 0 params args) >>= fun _ =>
    afterwards (runBody run .nothing body) Machine.leaveScope) (m.withScopes m.scopes.enter) = _
  rw [bind_eq_handle]
  unfold stopOnSignal handle
  cases bindParams run 0 params args (m.withScopes m.scopes.enter) <;> rfl

/-- The statements of a function, with their scope left afterwards.  One of the `k` scopes in front
of the chain is the one of the call itself, and a scope of the chain in front is what is left. -/
theorem leavesBehind_runBody {run run' : Runner} (hrun : ∀ n, Watches Value (run n) (run' n))
    (body : List Node) {k : Nat} {s : Scopes Value} {m : Machine}
    (hm : Scopes.LeavesBehind k s.enter m.scopes) :
    ∃ j, Scopes.LeavesBehind (j + k) s
        (Outcome.machine (afterwards (runBody run .nothing body) Machine.leaveScope m)).scopes ∧
      (j = 0 → afterwards (runBody run' .nothing body) Machine.leaveScope m =
        afterwards (runBody run .nothing body) Machine.leaveScope m) ∧
      (j ≠ 0 → Outcome.Exhausted
        (afterwards (runBody run' .nothing body) Machine.leaveScope m)) := by
  obtain ⟨j, hj, hsame, hstop⟩ := watches_congruence.runBody .nothing body (fun n _ => hrun n) m
  refine ⟨j, ?_, ?_, ?_⟩
  · rw [afterwards_apply, Outcome.machine_onMachine]
    exact (hm.trans hj).of_enter.leave
  · intro hj0
    rw [afterwards_apply, afterwards_apply, hsame hj0]
  · intro hj0
    rw [afterwards_apply]
    exact (Outcome.exhausted_onMachine _ _).mpr (hstop hj0)

/-- **Calls of defined functions**: when an argument fails, the scope of the call is left behind and
the cautious run stops; else the scopes left behind are those of the arguments and of the
statements. -/
theorem watches_callFunction {run run' : Runner} (hrun : ∀ n, Watches Value (run n) (run' n))
    (params body args : List Node) :
    Watches Value (callFunction run params body args) (cautiousCall run' params body args) := by
  intro m
  rw [callFunction_apply, cautiousCall_apply]
  obtain ⟨k, hk, hsame, hstop⟩ :=
    watches_congruence.bindParams 0 params args (fun n _ => hrun n) (m.withScopes m.scopes.enter)
  have hstopped : k ≠ 0 → Outcome.Exhausted (handle (bindParams run' 0 params args)
      (fun _ => afterwards (runBody run' .nothing body) Machine.leaveScope)
      (fun _ => throw .exhausted) (m.withScopes m.scopes.enter)) :=
    fun hk0 => exhausted_handle rfl (hstop hk0)
  rw [handle_apply (bindParams run 0 params args)]
  cases hargs : bindParams run 0 params args (m.withScopes m.scopes.enter) with
  | ok _ m' =>
    rw [hargs] at hk hsame
    obtain ⟨j, hj, hsame', hstop'⟩ := leavesBehind_runBody hrun body hk
    refine ⟨j + k, hj, ?_, ?_⟩
    · intro hsum
      rw [handle_apply, hsame (by omega)]
      exact hsame' (by omega)
    · intro hsum
      by_cases hk0 : k = 0
      · rw [handle_apply, hsame hk0]
        exact hstop' (by omega)
      · exact hstopped hk0
  | error signal m' =>
    rw [hargs] at hk hsame
    -- The statements, which would leave the scope of the call, are not reached.
    refine ⟨k + 1, hk.of_enter, fun h => absurd h (Nat.succ_ne_zero k), fun _ => ?_⟩
    by_cases hk0 : k = 0
    · rw [handle_apply, hsame hk0]
      trivial
    · exact hstopped hk0

/-- The cautious run of a node stops exactly when scopes are left behind. -/
theorem watches_exec (fuel : Nat) (n : Node) :
    Watches Value (exec fuel n) (execWith cautiousCall fuel n) := by
  rw [← execWith_callFunction]
  exact watches_congruence.execWith (fun _ _ hrun => watches_callFunction hrun) fuel n

/-- **A run restores the chain of scopes exactly when none of its arguments fail.**  However a node
ends, the tables that were on the chain before are on it again, in their order, behind those that
were left.  None are left if and only if the cautious run of the node is the same run, which is to
say that no call of a defined function ended while its arguments were run. -/
theorem scopes_restored_iff (fuel : Nat) (n : Node) (m : Machine)
    (h : ¬ Outcome.Exhausted (exec fuel n m)) :
    (∃ k, m.scopes.LeavesBehind k (Outcome.machine (exec fuel n m)).scopes) ∧
      (m.scopes.Restored (Outcome.machine (exec fuel n m)).scopes ↔
        execWith cautiousCall fuel n m = exec fuel n m) := by
  obtain ⟨k, hk, hsame, hstop⟩ := watches_exec fuel n m
  refine ⟨⟨k, hk⟩, ?_⟩
  rw [hk.restored_iff]
  constructor
  · exact hsame
  · intro heq
    -- Had a scope been left, the cautious run would be exhausted, and so would the run itself.
    refine Classical.byContradiction fun hk0 => h ?_
    rw [← heq]
    exact hstop hk0

/-! ### A scope that is left behind -/

/-- The function `echo`, which gives back its argument. -/
def echo : Node :=
  .funcDef "echo" none [.ident none ⟨.ident, "p"⟩ true] [.ret (.ident none ⟨.ident, "p"⟩ false)]

/-- A machine with the function `echo`. -/
def echoMachine : Machine :=
  { Machine.initial "" false none [] with functions := .ofList [("echo", echo)] }

/-- The call `echo(n)`. -/
def echoCall (n : Node) : Node :=
  .call none ⟨.ident, "echo"⟩ [n]

/-- The call `echo(echo(x))` restores the chain. -/
theorem scopes_restored_iff_echo :
    ¬ Outcome.Exhausted
        (exec 4 (echoCall (echoCall (.ident none ⟨.ident, "x"⟩ false))) echoMachine) ∧
      echoMachine.scopes.Restored (Outcome.machine
        (exec 4 (echoCall (echoCall (.ident none ⟨.ident, "x"⟩ false))) echoMachine)).scopes :=
  ⟨id, (scopes_restored_iff 4 _ _ id).2.mpr rfl⟩

/-- The machine with the variables `x` and `y` bound to one and zero. -/
def quotientMachine : Machine :=
  echoMachine.withScopes ⟨.ofList [("x", .int 1), ("y", .int 0)], []⟩

/-- The quotient `x / y`. -/
def quotient : Node :=
  .arithmetic none ⟨.divide, "/"⟩ (.ident none ⟨.ident, "x"⟩ false)
    (.ident none ⟨.ident, "y"⟩ false)

/-- The call `echo(x / y)` ends with a fault and leaves its scope behind. -/
theorem scopes_not_restored_quotient :
    ¬ quotientMachine.scopes.Restored
      (Outcome.machine (exec 3 (echoCall quotient) quotientMachine)).scopes := by
  intro h
  have hlen := List.Forall₂.length_eq h
  exact absurd hlen (by decide)

end SeqPar
