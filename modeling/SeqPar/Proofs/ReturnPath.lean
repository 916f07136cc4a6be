import SeqPar.Proofs.CallByValue

/-!
# Returned results on their way to the caller

A `return` ends the function around it by a signal that carries the result.  On its way to the call
the signal leaves the blocks around the statement, from the inside out, and every kind of block
treats it in its own way: a conditional lets it pass, a sequential block forgets the result, and
loops and parallel blocks make a fault of it.

The way of a signal is followed from the statement where it arises.  `Reaches` says that a run comes
to a statement, through which blocks and on which machine; what the blocks make of a signal of that
statement is a fold over them.

## Main definitions

* `Enclosure`, `Enclosure.passOn` — the blocks around statements, and what they make of signals.
* `Enters` — running a block comes to run the statements in it.
* `Reaches` — running statements comes to a statement inside blocks.
* `HandsBack` — a call yields every result that is returned in it.

## Main results

* `exec_of_enters` — one block: the signal of its statements, passed on.
* `runAll_of_reaches` — the blocks around a statement, by induction from the outside in.
* `callYields_iff` — **a call yields the returned result exactly when conditionals alone stand
  around the `return`**, sequential blocks apart where there is no result to be lost.
-/

namespace SeqPar

open Exec

/-! ### Signals that leave blocks -/

/-- A signal with its fault wrapped; a returned result becomes a fault. -/
def Signal.wrapped (wrap : Fault → Fault) (signal : Signal) : Signal :=
  match signal.cause? with
  | some cause => .fault (wrap cause)
  | none => signal

/-- The kinds of blocks that statements stand in. -/
inductive Enclosure where
  /-- A branch of a conditional. -/
  | cond
  /-- A sequential block. -/
  | seq
  /-- The body of a loop. -/
  | loop
  /-- A parallel block. -/
  | par
  deriving DecidableEq, Repr

/-- What a block makes of a signal of its statements. -/
def Enclosure.passOn : Enclosure → Signal → Signal
  | .cond, signal => signal
  | .seq, signal => signal.withoutResult
  | .loop, signal => (signal.wrapped .inLoopBody).wrapped .inLoop
  | .par, signal => (signal.wrapped .inParallel).orExit

/-- What the blocks around a statement, listed from the outside in, make of its signal. -/
def passOut (path : List Enclosure) (signal : Signal) : Signal :=
  path.foldr Enclosure.passOn signal

section Endings

variable {α β : Type} {p : Exec α} {m m' : Machine} {signal : Signal}

theorem bind_of_ok {a : α} (f : α → Exec β) (h : p m = .ok a m') : (p >>= f) m = f a m' := by
  rw [bind_eq_handle, handle_apply, h]
  rfl

theorem bind_of_error (f : α → Exec β) (h : p m = .error signal m') :
    (p >>= f) m = .error signal m' := by
  rw [bind_eq_handle, handle_apply, h]
  rfl

/-- What follows a computation depends on its outcome only. -/
theorem bind_congr_outcome {q : Exec α} (f : α → Exec β) (h : p m = q m') :
    (p >>= f) m = (q >>= f) m' := by
  rw [bind_eq_handle, bind_eq_handle, handle_apply, handle_apply, h]

theorem wrapFaults_of_error (wrap : Fault → Fault) (h : p m = .error signal m') :
    wrapFaults wrap p m = .error (signal.wrapped wrap) m' := by
  unfold wrapFaults
  rw [recover_eq_handle, handle_apply, h]
  cases signal <;> rfl

theorem wrapFaults_of_ok {a : α} (wrap : Fault → Fault) (h : p m = .ok a m') :
    wrapFaults wrap p m = .ok a m' := by
  unfold wrapFaults
  rw [recover_eq_handle, handle_apply, h]
  rfl

theorem exitOnInterrupt_of_ok {a : α} (h : p m = .ok a m') : exitOnInterrupt p m = .ok a m' := by
  rw [exitOnInterrupt_eq_handle, handle_apply, h]
  rfl

theorem exitOnInterrupt_of_error (h : p m = .error signal m') :
    exitOnInterrupt p m = .error signal.orExit m' := by
  rw [exitOnInterrupt_eq_handle, handle_apply, h]
  rfl

theorem forgetResult_of_error (h : p m = .error signal m') :
    forgetResult p m = .error signal.withoutResult m' := by
  rw [forgetResult_eq_handle, handle_apply, h]
  rfl

end Endings

/-- Statements that wrap their faults one by one end with the wrapped signal. -/
theorem runAll_wrapFaults_of_error (wrap : Fault → Fault) {run : Runner} {ns : List Node}
    {m m' : Machine} {signal : Signal} (h : runAll run ns m = .error signal m') :
    runAll (fun n => wrapFaults wrap (run n)) ns m = .error (signal.wrapped wrap) m' := by
  induction ns generalizing m with
  | nil => cases h
  | cons n ns ih =>
    rw [runAll] at h ⊢
    cases hn : run n m with
    | ok v m₁ =>
      rw [bind_of_ok _ hn] at h
      rw [bind_of_ok _ (wrapFaults_of_ok wrap hn)]
      exact ih h
    | error s m₁ =>
      rw [bind_of_error _ hn] at h
      rw [bind_of_error _ (wrapFaults_of_error wrap hn)]
      obtain ⟨⟩ := h
      rfl

/-- The statements of a function end with what the call makes of their signal. -/
theorem runBody_of_error {run : Runner} {ns : List Node} {m m' : Machine} {signal : Signal}
    (h : runAll run ns m = .error signal m') (last : Value) :
    runBody run last ns m = resultOf signal m' := by
  induction ns generalizing m last with
  | nil => cases h
  | cons n ns ih =>
    rw [runAll] at h
    rw [runBody_cons_eq_handle, handle_apply]
    cases hn : run n m with
    | ok v m₁ =>
      rw [bind_of_ok _ hn] at h
      exact ih h v
    | error s m₁ =>
      rw [bind_of_error _ hn] at h
      obtain ⟨⟩ := h
      rfl

/-! ### Coming to a statement -/

/-- A number of rounds of a loop, each of which asks for another one. -/
inductive AfterRounds (round : Exec Bool) : Nat → Machine → Machine → Prop
  /-- No round. -/
  | zero (m : Machine) : AfterRounds round 0 m m
  /-- A round and those after it. -/
  | succ {k : Nat} {m m₁ m' : Machine} (h : round m = .ok true m₁)
    (rest : AfterRounds round k m₁ m') : AfterRounds round (k + 1) m m'

/-- What a parallel block does before its statements run. -/
def prepareParallel (body : List Node) : Exec Unit := do
  bindTargets parallelStart (Node.targetsAll body)
  bindIfUnbound "fat" (.int 1)
  bindIfUnbound "i" (.int 1)
  bindIfUnbound "a" (.int 0)
  bindIfUnbound "b" (.int 1)

/-- Running a node comes to run the statements `body` inside it, from the last machine on. -/
inductive Enters (run : Runner) : Node → Machine → Enclosure → (body : List Node) → Machine → Prop
  /-- The condition holds. -/
  | condThen {condition : Node} {body : List Node} {orElse : Option (List Node)} {v : Value}
    {m m' : Machine} (hc : run condition m = .ok v m') (hv : v.holds = true) :
    Enters run (.cond condition body orElse) m .cond body m'
  /-- The condition does not hold. -/
  | condElse {condition : Node} {body : List Node} {orElse : Option (List Node)} {v : Value}
    {m m' : Machine} (hc : run condition m = .ok v m') (hv : v.holds = false) :
    Enters run (.cond condition body orElse) m .cond (orElse.getD []) m'
  /-- A sequential block. -/
  | seq {body : List Node} {m : Machine} : Enters run (.seq body) m .seq body m
  /-- The condition of a loop holds once more, after some rounds. -/
  | loop {condition : Node} {body : List Node} {v : Value} {k : Nat} {m m₁ m' : Machine}
    (hk : k < roundLimit) (hrounds : AfterRounds (runRound run condition body) k m m₁)
    (hc : run condition m₁ = .ok v m') (hv : v.continuesLoop = true) :
    Enters run (.loop condition body) m .loop body m'
  /-- A parallel block that is not the known pair of series. -/
  | par {body : List Node} {m m' : Machine} (hbody : body.any writesSeriesPrompt = false)
    (hstart : prepareParallel body m = .ok () m') : Enters run (.par body) m .par body m'

/-- Running statements to a depth comes to run the statement `target`, to the depth that is left for
it.  The blocks around it are listed from the outside in. -/
inductive Reaches : (depth : Nat) → List Node → Machine →
    (path : List Enclosure) → (left : Nat) → (target : Node) → Machine → Prop
  /-- The first statement. -/
  | here (depth : Nat) (n : Node) (ns : List Node) (m : Machine) :
    Reaches depth (n :: ns) m [] depth n m
  /-- A statement after one that has ended. -/
  | next {depth left : Nat} {n target : Node} {ns : List Node} {v : Value}
    {path : List Enclosure} {m m₁ m' : Machine} (hn : exec depth n m = .ok v m₁)
    (rest : Reaches depth ns m₁ path left target m') :
    Reaches depth (n :: ns) m path left target m'
  /-- A statement inside a block. -/
  | inside {depth left : Nat} {n target : Node} {ns body : List Node} {b : Enclosure}
    {path : List Enclosure} {m m₁ m' : Machine} (hn : Enters (exec depth) n m b body m₁)
    (rest : Reaches depth body m₁ path left target m') :
    Reaches (depth + 1) (n :: ns) m (b :: path) left target m'

/-! ### Signals on the way out -/

theorem runRounds_of_error {round : Exec Bool} {k j : Nat} {m m₁ m' : Machine} {signal : Signal}
    (hrounds : AfterRounds round k m m₁) (hlast : round m₁ = .error signal m') (hk : k < j) :
    runRounds round j m = .error signal m' := by
  induction hrounds generalizing j with
  | zero m =>
    obtain ⟨j, rfl⟩ := Nat.exists_eq_succ_of_ne_zero (Nat.ne_of_gt hk)
    exact bind_of_error _ hlast
  | succ h _ ih =>
    obtain ⟨j, rfl⟩ := Nat.exists_eq_succ_of_ne_zero (Nat.ne_of_gt (Nat.zero_lt_of_lt hk))
    rw [runRounds, bind_of_ok _ h]
    exact ih hlast (Nat.lt_of_succ_lt_succ hk)

/-- A round of a loop whose statements end with a signal. -/
theorem runRound_of_error {run : Runner} {condition : Node} {body : List Node} {v : Value}
    {m m₁ m' : Machine} {signal : Signal} (hc : run condition m = .ok v m₁)
    (hv : v.continuesLoop = true) (hbody : runAll run body m₁ = .error signal m') :
    runRound run condition body m = .error (Enclosure.loop.passOn signal) m' := by
  refine wrapFaults_of_error _ ?_
  rw [bind_of_ok _ hc]
  simp only [hv, if_true]
  exact bind_of_error _ (runAll_wrapFaults_of_error _ hbody)

/-- A parallel block writes its start values, and then runs its statements or the known pair of
series. -/
theorem runPar_eq (run : Runner) (body : List Node) : runPar run body = (do
    prepareParallel body
    exitOnInterrupt (wrapFaults .inParallel do
      if body.any writesSeriesPrompt then runSeries else runAll run body
      return Value.nothing)) := by
  unfold runPar prepareParallel
  simp only [bind_assoc]

theorem runPar_apply {run : Runner} {body : List Node} {m m₁ : Machine}
    (hbody : body.any writesSeriesPrompt = false) (hstart : prepareParallel body m = .ok () m₁) :
    runPar run body m = exitOnInterrupt (wrapFaults .inParallel do
      runAll run body
      return Value.nothing) m₁ := by
  rw [runPar_eq, bind_of_ok _ hstart, hbody, if_neg Bool.false_ne_true]

/-- **One block**: when the statements that a block has come to run end with a signal, the block ends
with what it makes of that signal. -/
theorem exec_of_enters {depth : Nat} {n : Node} {m m₁ m' : Machine} {b : Enclosure}
    {body : List Node} {signal : Signal} (hn : Enters (exec depth) n m b body m₁)
    (hbody : runAll (exec depth) body m₁ = .error signal m') :
    exec (depth + 1) n m = .error (b.passOn signal) m' := by
  cases hn with
  | condThen hc hv =>
    refine (bind_of_ok _ hc).trans ?_
    simp only [hv, if_true]
    exact bind_of_error _ hbody
  | condElse hc hv =>
    refine (bind_of_ok _ hc).trans ?_
    simp only [hv, Bool.false_eq_true, if_false]
    exact bind_of_error _ hbody
  | seq => exact bind_of_error _ (forgetResult_of_error hbody)
  | loop hk hrounds hc hv =>
    exact bind_of_error _ (runRounds_of_error hrounds (runRound_of_error hc hv hbody) hk)
  | par hseries hstart =>
    refine (runPar_apply hseries hstart).trans (exitOnInterrupt_of_error ?_)
    exact wrapFaults_of_error _ (bind_of_error _ hbody)

/-- **The blocks around a statement**: when a statement that a run comes to ends with a signal, the run
ends with what the blocks around it make of that signal, on the machine that the statement leaves. -/
theorem runAll_of_reaches {depth left : Nat} {ns : List Node} {target : Node}
    {path : List Enclosure} {m m₁ m' : Machine} {signal : Signal}
    (hreach : Reaches depth ns m path left target m₁)
    (htarget : exec left target m₁ = .error signal m') :
    runAll (exec depth) ns m = .error (passOut path signal) m' := by
  induction hreach with
  | here depth n ns m => exact bind_of_error _ htarget
  | next hn _ ih => exact (bind_of_ok _ hn).trans (ih htarget)
  | inside hn _ ih => exact bind_of_error _ (exec_of_enters hn (ih htarget))

/-! ### What becomes of a returned result -/

/-- Where no loop and no parallel block stands around a statement, the other two kinds do. -/
theorem cond_or_seq_of_mem {path : List Enclosure} (hpath : ¬ (.loop ∈ path ∨ .par ∈ path))
    {b : Enclosure} (hb : b ∈ path) : b = .cond ∨ b = .seq := by
  cases b with
  | cond => exact .inl rfl
  | seq => exact .inr rfl
  | loop => exact absurd (.inl hb) hpath
  | par => exact absurd (.inr hb) hpath

/-- Conditionals and sequential blocks pass on a return, the latter without its result. -/
theorem passOut_returned {path : List Enclosure} (hpath : ¬ (.loop ∈ path ∨ .par ∈ path))
    (v : Value) :
    passOut path (.returned v) = .returned (if .seq ∈ path then .nothing else v) := by
  induction path with
  | nil => rfl
  | cons b path ih =>
    have hrest : ¬ (.loop ∈ path ∨ .par ∈ path) := by
      rintro (h | h)
      · exact hpath (.inl (List.mem_cons_of_mem _ h))
      · exact hpath (.inr (List.mem_cons_of_mem _ h))
    have hout : passOut (b :: path) (.returned v) = b.passOn (passOut path (.returned v)) := rfl
    rw [hout, ih hrest]
    rcases cond_or_seq_of_mem hpath List.mem_cons_self with rfl | rfl
    · simp [Enclosure.passOn]
    · simp [Enclosure.passOn, Signal.withoutResult]

/-- A loop or a parallel block makes a fault of a return, and a fault stays one. -/
theorem passOut_eq_fault {path : List Enclosure} (hpath : .loop ∈ path ∨ .par ∈ path) (v : Value) :
    ∃ cause, passOut path (.returned v) = .fault cause := by
  induction path with
  | nil => simp at hpath
  | cons b path ih =>
    have hout : passOut (b :: path) (.returned v) = b.passOn (passOut path (.returned v)) := rfl
    rw [hout]
    by_cases hrest : .loop ∈ path ∨ .par ∈ path
    · obtain ⟨cause, hcause⟩ := ih hrest
      rw [hcause]
      cases b <;> exact ⟨_, rfl⟩
    · -- The outermost block is the one that makes a fault of the return.
      rw [passOut_returned hrest]
      cases b with
      | loop | par => exact ⟨_, rfl⟩
      | cond | seq =>
        refine absurd ?_ hrest
        simpa using hpath

/-- A result reaches the outside exactly when nothing around it forgets it or makes a fault of it. -/
theorem passOut_eq_returned_iff (path : List Enclosure) (v : Value) :
    passOut path (.returned v) = .returned v ↔
      ∀ b ∈ path, b = .cond ∨ b = .seq ∧ v = .nothing := by
  by_cases hfault : .loop ∈ path ∨ .par ∈ path
  · obtain ⟨cause, hcause⟩ := passOut_eq_fault hfault v
    rw [hcause]
    refine iff_of_false Signal.noConfusion fun hall => ?_
    rcases hfault with h | h
    · simpa using hall _ h
    · simpa using hall _ h
  · rw [passOut_returned hfault, Signal.returned.injEq]
    constructor
    · intro hv b hb
      rcases cond_or_seq_of_mem hfault hb with rfl | rfl
      · exact .inl rfl
      · rw [if_pos hb] at hv
        exact .inr ⟨rfl, hv.symm⟩
    · intro hall
      by_cases hseq : .seq ∈ path
      · rcases hall _ hseq with h | ⟨-, rfl⟩
        · cases h
        · rw [if_pos hseq]
      · rw [if_neg hseq]

/-! ### Calls -/

/-- The signal of a `return` whose expression has a value. -/
theorem exec_ret {depth : Nat} {expr : Node} {v : Value} {m m' : Machine}
    (h : exec depth expr m = .ok v m') :
    exec (depth + 1) (.ret expr) m = .error (.returned v) m' := by
  cases expr with
  | datum w =>
    -- Plain data has no value as an expression.
    cases depth <;> cases h
  | _ => exact bind_of_ok _ h

/-- A call in which a result is returned ends with what the blocks around the `return` make of it. -/
theorem callFunction_of_reaches {fuel left : Nat} {params body args : List Node}
    {path : List Enclosure} {expr : Node} {v : Value} {m start mid last : Machine}
    (hstart : enterCall (exec fuel) params args m = .ok () start)
    (hreach : Reaches fuel body start path (left + 1) (.ret expr) mid)
    (hvalue : exec left expr mid = .ok v last) :
    callFunction (exec fuel) params body args m =
      Outcome.onMachine Machine.leaveScope (resultOf (passOut path (.returned v)) last) := by
  have hbody := runAll_of_reaches hreach (exec_ret hvalue)
  calc callFunction (exec fuel) params body args m
      = (enterCall (exec fuel) params args >>= fun _ =>
          afterwards (runBody (exec fuel) .nothing body) Machine.leaveScope) m := rfl
    _ = afterwards (runBody (exec fuel) .nothing body) Machine.leaveScope start :=
        bind_of_ok _ hstart
    _ = _ := by rw [afterwards_apply, runBody_of_error hbody]

/-- Every result that is returned inside a call of a function is what the call yields. -/
def HandsBack (fuel : Nat) (params body args : List Node) (m : Machine) : Prop :=
  ∀ start path left expr mid v last, enterCall (exec fuel) params args m = .ok () start →
    Reaches fuel body start path (left + 1) (.ret expr) mid → exec left expr mid = .ok v last →
    callFunction (exec fuel) params body args m = .ok v last.leaveScope

/-- **A call yields the returned result exactly when conditionals alone stand around the `return`.**
Once a `return` with a value is run, nothing else of the function is: the machine is the one that the
expression left, without the scope of the call.  The call ends with a fault if and only if a loop or
a parallel block stands around the `return`.  It yields the value if and only if only conditionals
stand around it, or also sequential blocks and the value is nothing. -/
theorem callYields_iff {fuel left : Nat} {type : Option String} {t : Token}
    {args params body : List Node} {name : String} {ret : Option String}
    {path : List Enclosure} {expr : Node} {v : Value} {m start mid last : Machine}
    (hbuiltin : Builtin.ofName? t.text = none)
    (hdefined : m.functions.get? t.text = some (.funcDef name ret params body))
    (hstart : enterCall (exec fuel) params args m = .ok () start)
    (hreach : Reaches fuel body start path (left + 1) (.ret expr) mid)
    (hvalue : exec left expr mid = .ok v last) :
    Outcome.machine (exec (fuel + 1) (.call type t args) m) = last.leaveScope ∧
      ((∃ cause, exec (fuel + 1) (.call type t args) m =
          .error (.fault cause) last.leaveScope) ↔ .loop ∈ path ∨ .par ∈ path) ∧
      (exec (fuel + 1) (.call type t args) m = .ok v last.leaveScope ↔
        ∀ b ∈ path, b = .cond ∨ b = .seq ∧ v = .nothing) := by
  have hcall : exec (fuel + 1) (.call type t args) m =
      Outcome.onMachine Machine.leaveScope (resultOf (passOut path (.returned v)) last) :=
    (runCall_apply hbuiltin hdefined).trans (callFunction_of_reaches hstart hreach hvalue)
  rw [hcall, ← passOut_eq_returned_iff]
  by_cases hfault : .loop ∈ path ∨ .par ∈ path
  · obtain ⟨cause, hcause⟩ := passOut_eq_fault hfault v
    rw [hcause]
    exact ⟨rfl, iff_of_true ⟨cause, rfl⟩ hfault, iff_of_false nofun nofun⟩
  · -- Otherwise the signal stays a result, whose value only sequential blocks may drop.
    rw [passOut_returned hfault]
    refine ⟨rfl, iff_of_false nofun hfault, ?_⟩
    constructor
    · intro h
      obtain ⟨hv, -⟩ := EStateM.Result.ok.inj h
      rw [hv]
    · intro h
      obtain hv := Signal.returned.inj h
      rw [hv]
      rfl

/-! ### Returns in conditionals and in loops -/

/-- The variable `i`, which is unbound in a new scope and so counts as zero. -/
def counter : Node :=
  .ident none ⟨.ident, "i"⟩ false

/-- The condition `i == i`. -/
def always : Node :=
  .relational (some "BOOL") ⟨.eq, "=="⟩ counter counter

/-- The call `seek()`. -/
def seekCall : Node :=
  .call none ⟨.ident, "seek"⟩ []

/-- A machine with a function `seek` of the given statements. -/
def seekMachine (body : List Node) : Machine :=
  { Machine.initial "" false none [] with
    functions := .ofList [("seek", .funcDef "seek" none [] body)] }

/-- The statements `if (i == i) { return i; } j = i;`. -/
def seekOnce : List Node :=
  [.cond always [.ret counter] none, .assign (.ident none ⟨.ident, "j"⟩ false) counter]

/-- The statement `while (i == i) { return 7; }`. -/
def seekAgain : List Node :=
  [.loop always [.ret (.constant (some "NUMBER") ⟨.number, "7"⟩)]]

/-- The machine when the statements of `seek` start. -/
def seekStart (body : List Node) : Machine :=
  (seekMachine body).withScopes (seekMachine body).scopes.enter

/-- The condition `i == i` holds when the statements of `seek` start, and `i` is bound by it. -/
theorem exec_always (body : List Node) :
    exec 2 always (seekStart body) = .ok (.bool true)
      ((seekStart body).withScopes ((seekStart body).scopes.put "i" (.int 0))) := by
  have hsame : (Value.int 0).same (.int 0) = true := by
    unfold Value.same
    rfl
  calc exec 2 always (seekStart body)
      = .ok (.bool ((Value.int 0).same (.int 0)))
          ((seekStart body).withScopes ((seekStart body).scopes.put "i" (.int 0))) := rfl
    _ = _ := by rw [hsame]

/-- A `return` inside a conditional reaches the caller, and `j` is not assigned to. -/
theorem callYields_iff_conditional :
    exec 4 seekCall (seekMachine seekOnce) = .ok (.int 0) (seekMachine seekOnce) := by
  have hreach : Reaches 3 seekOnce (seekStart seekOnce) [.cond] 2 (.ret counter) _ :=
    .inside (.condThen (exec_always _) rfl) (.here _ _ _ _)
  refine (callYields_iff rfl rfl rfl hreach rfl).2.2.mpr ?_
  intro b hb
  exact .inl (List.mem_singleton.mp hb)

/-- A `return` inside a loop does not reach the caller. -/
theorem not_handsBack_loop : ¬ HandsBack 3 [] seekAgain [] (seekMachine seekAgain) := by
  intro h
  have hreach : Reaches 3 seekAgain (seekStart seekAgain) [.loop] 2
      (.ret (.constant (some "NUMBER") ⟨.number, "7"⟩)) _ :=
    .inside (.loop (by decide) (.zero _) (exec_always _) rfl) (.here _ _ _ _)
  have hyields := h _ _ _ _ _ _ _ rfl hreach rfl
  rw [callFunction_of_reaches rfl hreach rfl] at hyields
  cases hyields

end SeqPar
