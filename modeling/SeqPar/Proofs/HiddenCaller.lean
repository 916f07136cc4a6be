import SeqPar.Proofs.CallByValue

/-!
# Calls do not observe the variables of the caller

A function runs in a scope of its own, and variables are looked up in the innermost table alone.
So a call whose arguments are literals gives the same result, writes the same text and does the same
to functions, channels and sockets, whatever variables its caller has and however deep the chain of
scopes is.  This holds through everything that the function does: calls inside it, recursion,
parallel blocks, which bind variables in every table, and faults that leave scopes behind.

## Main definitions

* `Outcome.beyondScopes` — what can be seen of an outcome apart from the variables.

## Main results

* `callFunction_beyondScopes` — a call of a defined function, whatever its arguments.
* `storeFree_callBuiltin` — a call of a built-in function whose arguments are literals.
* `call_beyondScopes` — **two calls from machines that differ only in their scopes cannot be told
  apart**.
-/

namespace SeqPar

open Exec

variable {α : Type}

/-- What can be seen of an outcome apart from the variables. -/
def Outcome.beyondScopes (r : Outcome α) : Outcome α :=
  onMachine Machine.withoutVariables r

/-- Machines that agree differ in their scopes only. -/
theorem Machine.AgreeTo.withoutVariables_eq {j : Nat} {m m' : Machine} (h : m.AgreeTo j m') :
    m.withoutVariables = m'.withoutVariables := by
  rw [← h.2]
  rfl

/-- Machines that differ in their scopes only agree in a new scope. -/
theorem Machine.agreeTo_enter {m m' : Machine} (h : m.withoutVariables = m'.withoutVariables) :
    (m.withScopes m.scopes.enter).AgreeTo 0 (m'.withScopes m'.scopes.enter) := by
  refine ⟨.enter_zero m.scopes m'.scopes, ?_⟩
  exact congrArg (·.withScopes m.scopes.enter) h.symm

/-- Outcomes that agree cannot be told apart beyond their scopes. -/
theorem Outcome.AgreeTo.beyondScopes_eq {j : Nat} {r r' : Outcome α} (h : AgreeTo j r r') :
    beyondScopes r = beyondScopes r' := by
  cases h with
  | ok a hm => exact congrArg (EStateM.Result.ok a) hm.withoutVariables_eq
  | error signal hm => exact congrArg (EStateM.Result.error signal) hm.withoutVariables_eq

theorem Outcome.beyondScopes_leaveScope (r : Outcome α) :
    beyondScopes (onMachine Machine.leaveScope r) = beyondScopes r := by
  cases r <;> rfl

/-- **A call of a defined function** has the same outcome beyond the scopes on machines that differ
in their scopes only, since both runs start with the same new table. -/
theorem callFunction_beyondScopes (fuel : Nat) (params body args : List Node) {m m' : Machine}
    (h : m.withoutVariables = m'.withoutVariables) :
    Outcome.beyondScopes (callFunction (exec fuel) params body args m) =
      Outcome.beyondScopes (callFunction (exec fuel) params body args m') := by
  have hargs := blind_congruence.bindParams 0 params args (fun n _ => blind_exec fuel n) 0 _ _
    (Machine.agreeTo_enter h)
  rw [callFunction_apply, callFunction_apply]
  unfold handle
  generalize bindParams (exec fuel) 0 params args (m.withScopes m.scopes.enter) = r at hargs ⊢
  generalize bindParams (exec fuel) 0 params args (m'.withScopes m'.scopes.enter) = r' at hargs ⊢
  cases hargs with
  | ok u hm =>
    dsimp only
    rw [afterwards_apply, afterwards_apply, Outcome.beyondScopes_leaveScope,
      Outcome.beyondScopes_leaveScope]
    exact (blind_congruence.runBody .nothing body (fun n _ => blind_exec fuel n) 0 _ _
      hm).beyondScopes_eq
  | error signal hm => exact (Outcome.AgreeTo.error signal hm).beyondScopes_eq

/-! ### Literals as arguments -/

/-- Running a literal leaves scopes and functions alone. -/
theorem storeFree_exec_constant (fuel : Nat) (type : Option String) (t : Token) :
    StoreFree (exec fuel (.constant type t)) := by
  cases fuel with
  | zero => exact .throw .exhausted
  | succ fuel => exact .pure _

theorem storeFree_evalAll {run : Runner} {args : List Node}
    (h : ∀ arg ∈ args, StoreFree (run arg)) : StoreFree (evalAll run args) := by
  induction args with
  | nil => exact .pure []
  | cons arg args ih =>
    have hrest := ih fun a ha => h a (List.mem_cons_of_mem _ ha)
    exact .bind (h arg List.mem_cons_self) fun _ => .bind hrest fun _ => .pure _

/-- A call of a built-in function whose arguments leave scopes and functions alone does so too. -/
theorem storeFree_callBuiltin {run : Runner} {args : List Node} (name : String) (f : Builtin)
    (h : ∀ arg ∈ args, StoreFree (run arg)) : StoreFree (callBuiltin run name f args) := by
  unfold callBuiltin
  rw [recover_eq_handle]
  refine .handle (.bind (storeFree_evalAll h) fun values => (f.steady_call values).storeFree)
    (fun v => .pure v) ?_
  -- A fault is written as a warning; the other signals pass through.
  intro signal
  cases signal.cause? with
  | some cause =>
    exact Steady.storeFree (.bind (.ofExcept _) fun _ => .bind (.write _) fun _ => .pure _)
  | none => exact .throw signal

theorem Exec.ScopeFree.beyondScopes_eq {p : Exec α} (hp : ScopeFree p) {m m' : Machine}
    (h : m.withoutVariables = m'.withoutVariables) :
    Outcome.beyondScopes (p m) = Outcome.beyondScopes (p m') := by
  have hm : Outcome.beyondScopes (p m) = p m.withoutVariables := (hp m .empty).symm
  have hm' : Outcome.beyondScopes (p m') = p m'.withoutVariables := (hp m' .empty).symm
  rw [hm, hm', h]

/-- **Calls do not observe the variables of the caller.**  On machines that differ only in the
contents and the depth of their scopes, a call of a defined function whose arguments are literals
ends with the same value or signal, and the machines still differ in their scopes only: functions,
channels, the lines still to be read, the text written and the network are the same. -/
theorem call_beyondScopes (fuel : Nat) (type : Option String) (t : Token) (args : List Node)
    {m m' : Machine} {name : String} {ret : Option String} {params body : List Node}
    (hdefined : m.functions.get? t.text = some (.funcDef name ret params body))
    (hargs : ∀ arg ∈ args, ∃ type literal, arg = .constant type literal)
    (h : m.withoutVariables = m'.withoutVariables) :
    Outcome.beyondScopes (exec fuel (.call type t args) m) =
      Outcome.beyondScopes (exec fuel (.call type t args) m') := by
  cases fuel with
  | zero => exact congrArg (EStateM.Result.error Signal.exhausted) h
  | succ fuel =>
    change Outcome.beyondScopes (runCall (exec fuel) t.text args m) =
      Outcome.beyondScopes (runCall (exec fuel) t.text args m')
    cases hbuiltin : Builtin.ofName? t.text with
    | none =>
      have hfunctions : m.withoutVariables.functions = m'.withoutVariables.functions := by rw [h]
      have hdefined' : m'.functions.get? t.text = some (.funcDef name ret params body) :=
        (congrArg (·.get? t.text) hfunctions).symm.trans hdefined
      rw [runCall_apply hbuiltin hdefined, runCall_apply hbuiltin hdefined']
      exact callFunction_beyondScopes fuel params body args h
    | some f =>
      -- The name of the function is taken by a built-in one.
      have hfree : StoreFree (callBuiltin (exec fuel) t.text f args) := by
        refine storeFree_callBuiltin t.text f fun arg harg => ?_
        obtain ⟨type, literal, rfl⟩ := hargs arg harg
        exact storeFree_exec_constant fuel type literal
      rw [runCall_eq_callWith, callWith, hbuiltin]
      exact hfree.scopeFree.beyondScopes_eq h

/-- The call `echo(7)` where `x` is five, and where there are no variables. -/
theorem call_beyondScopes_echo :
    callerMachine.functions.get? "echo" = some echo ∧
      callerMachine.withoutVariables = echoMachine.withoutVariables ∧
      Outcome.beyondScopes
          (exec 3 (echoCall (.constant (some "NUMBER") ⟨.number, "7"⟩)) callerMachine) =
        Outcome.beyondScopes
          (exec 3 (echoCall (.constant (some "NUMBER") ⟨.number, "7"⟩)) echoMachine) := by
  refine ⟨rfl, rfl, call_beyondScopes 3 none ⟨.ident, "echo"⟩ _ rfl ?_ rfl⟩
  intro arg harg
  exact ⟨_, _, List.mem_singleton.mp harg⟩

end SeqPar
