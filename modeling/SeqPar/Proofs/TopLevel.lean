import SeqPar.Proofs.Initialisation
import SeqPar.Proofs.ReadTrees
import SeqPar.Proofs.Wording

/-!
# Runs of the top level

A program runs its statements one after the other.  A statement that ends with a fault, or with a
result that no function takes, does not end the program: one warning is written, and the next
statement runs.  Only an interruption by the user and the end of the program by the program itself
end the run before its last statement.

Two things could go wrong outside the statements.  Before the first of them runs, the variables that
the program assigns to are bound, and a left side without a name would be a fault that nothing
catches; but in a program that was read every left side is a variable.  And a fault that cannot be
worded could not be reported; but no such fault leaves a statement.

## Main definitions

* `Proceeds` — statements that ran one after the other, with the fault of each one that failed.
* `AllFinish` — every statement that a run comes to finishes.
* `PassesThrough` — a run that goes through all statements unless the program is ended.

## Main results

* `exists_prepare` — the variables of a program that was read can be bound.
* `runStatements_passesThrough` — the run of statements, by induction on them.
* `runOrShow_passesThrough` — **a failing statement does not stop a program.**
-/

namespace SeqPar

open Exec Written

/-! ### Variables that are assigned to -/

namespace Node

/-- A node that is a variable. -/
def IsVariable (n : Node) : Prop :=
  ∃ type t decl, n = .ident type t decl

theorem forall_mem_targetsAll {p : Node → Prop} {ns : List Node}
    (h : ∀ n ∈ ns, ∀ target ∈ n.targets, p target) : ∀ target ∈ targetsAll ns, p target := by
  induction ns with
  | nil => nofun
  | cons n ns ih =>
    obtain ⟨hn, hns⟩ := List.forall_mem_cons.mp h
    rw [targetsAll]
    exact List.forall_mem_append.mpr ⟨hn, ih hns⟩

/-- **The left sides of a statement that was read are variables**, by induction on the statement. -/
theorem IsStmt.isVariable_of_mem_targets {P : Token → Prop} {n : Node} (h : IsStmt P n) :
    ∀ target ∈ n.targets, target.IsVariable := by
  induction h with
  | assign ht hright => exact List.forall_mem_singleton.mpr ⟨_, _, _, rfl⟩
  | cond hcondition hbody horElse ihbody ihorElse =>
    exact List.forall_mem_append.mpr
      ⟨forall_mem_targetsAll ihbody, forall_mem_targetsAll ihorElse⟩
  | loop hcondition hbody ihbody => exact forall_mem_targetsAll ihbody
  | seq hbody ihbody => exact forall_mem_targetsAll ihbody
  | par hbody ihbody => exact forall_mem_targetsAll ihbody
  | _ => nofun

end Node

/-- Variables can be bound, and nothing but the scopes is changed. -/
theorem exists_bindTargets (start : String → Int) {ns : List Node}
    (h : ∀ n ∈ ns, n.IsVariable) (m : Machine) :
    ∃ s, bindTargets start ns m = .ok () (m.withScopes s) := by
  induction ns generalizing m with
  | nil => exact ⟨m.scopes, rfl⟩
  | cons n ns ih =>
    obtain ⟨⟨type, t, decl, rfl⟩, hns⟩ := List.forall_mem_cons.mp h
    obtain ⟨s, hbound⟩ := exists_bindIfUnbound t.text (.int (start t.text)) m
    obtain ⟨s', hrest⟩ := ih hns (m.withScopes s)
    exact ⟨s', (bind_of_ok _ hbound).trans hrest⟩

/-- A program that assigns to variables only can be prepared. -/
theorem exists_prepare {stmts : List Node}
    (h : ∀ target ∈ Node.targetsAll stmts, target.IsVariable) (m : Machine) :
    ∃ s, prepare stmts m = .ok () (m.withScopes s) := by
  obtain ⟨s, hbound⟩ := exists_bindTargets programStart h m
  rw [prepare, bind_of_ok _ hbound]
  exact ⟨_, rfl⟩

/-! ### Statements one after the other -/

/-- The machine after a text was written. -/
def Machine.wrote (m : Machine) (text : String) : Machine :=
  { m with output := m.output ++ text }

/-- The signals that end a program: an interruption, and the end of the program itself. -/
def Signal.endsProgram : Signal → Bool
  | .interrupted | .exit _ => true
  | _ => false

/-- Statements that ran one after the other, from one machine to another.  The log has the statements
in the order in which they ran, each one with the fault that it ended with, if it did.  A statement
that gave a value leaves the machine to the next one as it is; after one that ended with a fault the
wording of the fault was written, once. -/
inductive Proceeds (run : Runner) : (log : List (Node × Option Fault)) → Machine → Machine → Prop
  /-- No statement ran. -/
  | none (m : Machine) : Proceeds run [] m m
  /-- A statement gave a value. -/
  | value {n : Node} {v : Value} {log : List (Node × Option Fault)} {m m₁ m' : Machine}
    (h : run n m = .ok v m₁) (hrest : Proceeds run log m₁ m') :
    Proceeds run ((n, Option.none) :: log) m m'
  /-- A statement ended with a fault, or with a result that no function took. -/
  | fault {n : Node} {signal : Signal} {cause : Fault} {text : String}
    {log : List (Node × Option Fault)} {m m₁ m' : Machine} (h : run n m = .error signal m₁)
    (hcause : signal.cause? = some cause) (htext : cause.wording = .ok text)
    (hrest : Proceeds run log (m₁.wrote ("Warning: " ++ text ++ "\n")) m') :
    Proceeds run ((n, some cause) :: log) m m'

/-- Every statement that a run of statements comes to finishes. -/
def AllFinish (run : Runner) (stmts : List Node) (m : Machine) : Prop :=
  ∀ log n rest m', Proceeds run log m m' → stmts = log.map Prod.fst ++ n :: rest →
    ¬ Outcome.Exhausted (run n m')

/-- What comes out of a run of statements.  Either all of them ran, each one once and in their order,
and the run succeeds; or some of them ran, the next one gave a signal that ends the program, and the
run ends with that signal. -/
def PassesThrough (run : Runner) (stmts : List Node) (m : Machine) (result : Outcome Unit) : Prop :=
  ∃ log m', Proceeds run log m m' ∧
    ((log.map Prod.fst = stmts ∧ result = .ok () m') ∨
      ∃ n rest signal m'', stmts = log.map Prod.fst ++ n :: rest ∧
        run n m' = .error signal m'' ∧ signal.endsProgram = true ∧ result = .error signal m'')

section Statements

variable {run : Runner} {n : Node} {stmts : List Node} {m m₁ : Machine} {signal : Signal}

theorem runTopLevel_of_ok {v : Value} (h : run n m = .ok v m₁) :
    runTopLevel run n m = .ok () m₁ := by
  have hvalue : (do
      let _ ← run n
      return () : Exec Unit) m = .ok () m₁ := bind_of_ok _ h
  rw [runTopLevel, recover, hvalue]

theorem runTopLevel_of_cause {cause : Fault} (h : run n m = .error signal m₁)
    (hcause : signal.cause? = some cause) :
    runTopLevel run n m = .ok () (m₁.wrote ("Warning: " ++ cause.message ++ "\n")) := by
  have herror : (do
      let _ ← run n
      return () : Exec Unit) m = .error signal m₁ := bind_of_error _ h
  rw [runTopLevel, recover, herror]
  simp only [hcause]
  rfl

theorem runTopLevel_of_no_cause (h : run n m = .error signal m₁) (hcause : signal.cause? = none) :
    runTopLevel run n m = .error signal m₁ := by
  have herror : (do
      let _ ← run n
      return () : Exec Unit) m = .error signal m₁ := bind_of_error _ h
  rw [runTopLevel, recover, herror]
  simp only [hcause]

/-- What is not a fault for a statement around it ends the program, if the fuel is not at its end. -/
theorem Signal.endsProgram_of_no_cause (hcause : signal.cause? = none)
    (hfuel : signal ≠ .exhausted) : signal.endsProgram = true := by
  cases signal with
  | fault cause => cases hcause
  | returned v => cases hcause
  | interrupted => rfl
  | exit code => rfl
  | exhausted => exact absurd rfl hfuel

/-- The statements behind the first one finish too. -/
theorem AllFinish.tail {entry : Option Fault} (h : AllFinish run (n :: stmts) m)
    (hfirst : ∀ log m', Proceeds run log m₁ m' → Proceeds run ((n, entry) :: log) m m') :
    AllFinish run stmts m₁ := by
  intro log n' rest m' hproceeds hstmts
  refine h ((n, entry) :: log) n' rest m' (hfirst log m' hproceeds) ?_
  rw [hstmts]
  rfl

/-- A first statement in front of a run that passes through the others. -/
theorem PassesThrough.cons {entry : Option Fault} {result : Outcome Unit}
    (hfirst : ∀ log m', Proceeds run log m₁ m' → Proceeds run ((n, entry) :: log) m m')
    (h : PassesThrough run stmts m₁ result) : PassesThrough run (n :: stmts) m result := by
  obtain ⟨log, m', hproceeds, hend⟩ := h
  refine ⟨(n, entry) :: log, m', hfirst log m' hproceeds, ?_⟩
  rcases hend with ⟨hall, hresult⟩ | ⟨n', rest, signal, m'', hstmts, hended⟩
  · left
    rw [List.map_cons, hall]
    exact ⟨rfl, hresult⟩
  · right
    refine ⟨n', rest, signal, m'', ?_, hended⟩
    rw [hstmts]
    rfl

/-- **The run of statements passes through all of them** unless the program is ended, by induction on
the statements. -/
theorem runStatements_passesThrough (hworded : ∀ n, Worded (run n))
    (hfinish : AllFinish run stmts m) :
    PassesThrough run stmts m (runStatements run stmts m) := by
  induction stmts generalizing m with
  | nil => exact ⟨[], m, .none m, .inl ⟨rfl, rfl⟩⟩
  | cons n stmts ih =>
    rw [runStatements]
    cases hrun : run n m with
    | ok v m₁ =>
      rw [bind_of_ok _ (runTopLevel_of_ok hrun)]
      have hfirst : ∀ log m', Proceeds run log m₁ m' →
          Proceeds run ((n, none) :: log) m m' := fun _ _ => .value hrun
      exact (ih (hfinish.tail hfirst)).cons hfirst
    | error signal m₁ =>
      cases hcause : signal.cause? with
      | some cause =>
        -- the fault can be worded, so that the handler writes its message
        have hwording : cause.wording = .ok cause.message :=
          Fault.wording_of_isWorded (Signal.isWorded_of_cause? (hworded n m signal m₁ hrun) hcause)
        rw [bind_of_ok _ (runTopLevel_of_cause hrun hcause)]
        have hfirst : ∀ log m',
            Proceeds run log (m₁.wrote ("Warning: " ++ cause.message ++ "\n")) m' →
              Proceeds run ((n, some cause) :: log) m m' :=
          fun _ _ => .fault hrun hcause hwording
        exact (ih (hfinish.tail hfirst)).cons hfirst
      | none =>
        have hfuel : signal ≠ .exhausted := by
          rintro rfl
          apply hfinish [] n stmts m (.none m) rfl
          rw [hrun]
          trivial
        rw [bind_of_error _ (runTopLevel_of_no_cause hrun hcause)]
        refine ⟨[], m, .none m, .inr ⟨n, stmts, signal, m₁, rfl, hrun, ?_, rfl⟩⟩
        exact Signal.endsProgram_of_no_cause hcause hfuel

end Statements

/-- **A failing statement does not stop a program.**  A program that was read from any tokens is run,
on any machine, in two steps.  The variables that it assigns to are bound, which always succeeds.  Then
its statements run, each one once and in their order; exactly one warning is written for each one that
ends with a fault, and none for the others; and nothing but an interruption or the end of the program
comes out of the run before the last of them.  The statements that the run comes to have to finish at
the given depth. -/
theorem runOrShow_passesThrough {ts : List Located} {stmts : List Node} {fuel : Nat} {m : Machine}
    (hread : Parser.resultOn Parser.program ts = .ok (.program stmts))
    (hfinish : ∀ m₀, prepare stmts m = .ok () m₀ → AllFinish (exec fuel) stmts m₀) :
    ∃ m₀, prepare stmts m = .ok () m₀ ∧
      PassesThrough (exec fuel) stmts m₀ (runOrShow (exec fuel) true (.program stmts) m) := by
  obtain ⟨_, ⟨rfl⟩, hstmts⟩ :=
    Parser.isStmt_of_program (P := fun _ => True) trivial (fun _ _ => trivial) hread
  have htargets := Node.forall_mem_targetsAll fun s hs => (hstmts s hs).isVariable_of_mem_targets
  obtain ⟨s, hprepare⟩ := exists_prepare htargets m
  refine ⟨m.withScopes s, hprepare, ?_⟩
  have hrun : runOrShow (exec fuel) true (.program stmts) m =
      runStatements (exec fuel) stmts (m.withScopes s) := bind_of_ok _ hprepare
  rw [hrun]
  exact runStatements_passesThrough (worded_exec fuel) (hfinish _ hprepare)

/-- A block that returns a result to no function, and a statement behind it. -/
def strayReturnStmts : List Node :=
  [.seq [.ret (.datum .nothing)],
    .call none ⟨.other "output", "output"⟩ [.constant (some "STRING") ⟨.string, "\"done\""⟩]]

/-- The tokens of `SEQ { return; } output("done");`. -/
def strayReturnTokens : List Located :=
  [mark .seq, mark .lbrace, mark .returnWord, mark .semicolon, mark .rbrace, mark .output,
    mark .lparen, ⟨.string, "\"done\""⟩, mark .rparen, mark .semicolon].map (Located.mk · 1)

/-- Both statements finish, on every machine. -/
theorem strayReturnStmts_finish (m : Machine) :
    ∀ n ∈ strayReturnStmts, ¬ Outcome.Exhausted (exec 3 n m) := by
  rw [strayReturnStmts, List.forall_mem_cons, List.forall_mem_singleton]
  constructor
  · exact fun h => h
  · -- the user may interrupt the call of `output`, which is the first one or a later one
    obtain ⟨scopes, functions, connections, input, interrupts, output, left, network⟩ := m
    rcases left with _ | _ | _ | left
    all_goals exact fun h => h

/-- A result that no function takes does not keep the next statement from running. -/
theorem strayReturnStmts_passThrough :
    ∃ m₀, prepare strayReturnStmts (.initial "" false none []) = .ok () m₀ ∧
      PassesThrough (exec 3) strayReturnStmts m₀
        (runOrShow (exec 3) true (.program strayReturnStmts) (.initial "" false none [])) := by
  have hread : Parser.resultOn Parser.program strayReturnTokens =
      .ok (.program strayReturnStmts) := rfl
  refine runOrShow_passesThrough hread fun m₀ _ log n rest m' _ hstmts => ?_
  apply strayReturnStmts_finish m' n
  rw [hstmts]
  exact List.mem_append_right _ List.mem_cons_self

end SeqPar
