import SeqPar.Proofs.TruthValues

/-!
# Loops without a bound

A loop runs at most a thousand rounds.  Beside it stands the ordinary loop, which has no such bound:
it runs its condition, leaves when that does not hold, else runs its body and starts again.  A run of
the ordinary loop need not end, so it is a relation: between a machine and the one after a number of
complete rounds, and between a machine and the way in which the loop ends after them.

As long as the ordinary loop stays within a thousand rounds the loop does the same, but for the
wrapping of faults; when it would start round one thousand and one, the loop stops, and it does not
run its condition again.  How often a condition was run cannot be seen from the machine.  So the loop
is also given with a count, and dropping the count gives the loop back.

## Main definitions

* `CompletesRounds`, `EndsAfter` — the rounds of the ordinary loop, and its end.
* `countedLoop` — the loop, with the number of times that its condition was run.

## Main results

* `countedRounds_of_completes` — a complete round of the ordinary loop is one of the loop.
* `runLoop_eq_countedLoop` — the loop is the one with a count, without the count.
* `completes_or_ends` — the ordinary loop completes any number of rounds or ends before.
* `loop_follows_unbounded` — **the loop does what the ordinary loop does within a thousand rounds.**
-/

namespace SeqPar

open Exec

/-! ### The ordinary loop -/

section Ordinary

variable (run : Runner) (condition : Node) (body : List Node)

/-- From the first machine on, the ordinary loop completes a number of rounds: each time its condition
holds and its body is run to the end. -/
inductive CompletesRounds : Nat → Machine → Machine → Prop
  /-- No round. -/
  | zero (m : Machine) : CompletesRounds 0 m m
  /-- A round and those after it. -/
  | succ {n : Nat} {v : Value} {m m₁ m₂ m' : Machine} (hc : run condition m = .ok v m₁)
    (hv : v.continuesLoop = true) (hbody : runAll run body m₁ = .ok () m₂)
    (rest : CompletesRounds n m₂ m') : CompletesRounds (n + 1) m m'

/-- The round in which the ordinary loop ends, and how. -/
inductive EndsIn : Machine → Outcome Unit → Prop
  /-- The condition does not hold. -/
  | leaves {v : Value} {m m' : Machine} (hc : run condition m = .ok v m')
    (hv : v.continuesLoop = false) : EndsIn m (.ok () m')
  /-- The condition ends with a signal. -/
  | inCondition {signal : Signal} {m m' : Machine} (hc : run condition m = .error signal m') :
    EndsIn m (.error signal m')
  /-- The body ends with a signal. -/
  | inBody {v : Value} {signal : Signal} {m m₁ m' : Machine} (hc : run condition m = .ok v m₁)
    (hv : v.continuesLoop = true) (hbody : runAll run body m₁ = .error signal m') :
    EndsIn m (.error signal m')

/-- The ordinary loop ends in the given way, after a number of complete rounds. -/
def EndsAfter (n : Nat) (m : Machine) (r : Outcome Unit) : Prop :=
  ∃ m₁, CompletesRounds run condition body n m m₁ ∧ EndsIn run condition body m₁ r

end Ordinary

/-! ### The loop with a count -/

/-- The condition of a loop, as a round runs it. -/
def roundCondition (run : Runner) (condition : Node) : Exec Bool :=
  wrapFaults .inLoop do return (← run condition).continuesLoop

/-- The statements of a loop, as a round runs them. -/
def roundBody (run : Runner) (body : List Node) : Exec Unit :=
  wrapFaults .inLoop (runAll (fun n => wrapFaults .inLoopBody (run n)) body)

/-- At most the given number of rounds, with the number of times that the condition was run. -/
def countedRounds (run : Runner) (condition : Node) (body : List Node) : Nat → Exec Nat
  | 0 => return 0
  | n + 1 => do
    if (← roundCondition run condition) then
      roundBody run body
      return (← countedRounds run condition body n) + 1
    else return 1

/-- The loop, with the number of times that its condition was run. -/
def countedLoop (run : Runner) (condition : Node) (body : List Node) : Exec Nat :=
  countedRounds run condition body roundLimit

theorem wrapFaults_bind {α β : Type} (wrap : Fault → Fault) (p : Exec α) (f : α → Exec β) :
    wrapFaults wrap (p >>= f) = wrapFaults wrap p >>= fun a => wrapFaults wrap (f a) := by
  funext m
  cases hp : p m with
  | ok a m' =>
    rw [bind_of_ok _ (wrapFaults_of_ok wrap hp)]
    have hbind := bind_of_ok f hp
    unfold wrapFaults recover
    rw [hbind]
  | error signal m' =>
    rw [bind_of_error _ (wrapFaults_of_error wrap hp)]
    exact wrapFaults_of_error wrap (bind_of_error f hp)

/-- A round is the condition and, if that holds, the body. -/
theorem runRound_eq (run : Runner) (condition : Node) (body : List Node) :
    runRound run condition body = (do
      if (← roundCondition run condition) then
        roundBody run body
        return true
      else return false) := by
  rw [runRound, roundCondition, wrapFaults_bind, wrapFaults_bind, bind_assoc]
  refine congrArg _ (funext fun v => ?_)
  cases v.continuesLoop with
  | true => exact wrapFaults_bind _ _ _
  | false => rfl

/-- Dropping the count gives the rounds back. -/
theorem runRounds_eq_countedRounds (run : Runner) (condition : Node) (body : List Node) (n : Nat) :
    runRounds (runRound run condition body) n = (do
      let _ ← countedRounds run condition body n
      return ()) := by
  induction n with
  | zero => rfl
  | succ n ih =>
    rw [runRounds, countedRounds, ih, runRound_eq, bind_assoc, bind_assoc]
    refine congrArg _ (funext fun again => ?_)
    cases again with
    | true => simp only [if_true, bind_assoc, pure_bind]
    | false => rfl

/-- **The loop is the one with a count**, without the count. -/
theorem runLoop_eq_countedLoop (run : Runner) (condition : Node) (body : List Node) :
    runLoop run condition body = (do
      let _ ← countedLoop run condition body
      return Value.nothing) := by
  rw [runLoop, runRounds_eq_countedRounds, bind_assoc]
  rfl

/-! ### Rounds of the two loops -/

section Rounds

variable {run : Runner} {condition : Node} {body : List Node} {n : Nat} {v : Value}
variable {m m₁ m' : Machine} {signal : Signal}

theorem roundCondition_of_ok (h : run condition m = .ok v m') :
    roundCondition run condition m = .ok v.continuesLoop m' :=
  wrapFaults_of_ok _ (bind_of_ok _ h)

theorem roundCondition_of_error (h : run condition m = .error signal m') :
    roundCondition run condition m = .error (signal.wrapped .inLoop) m' :=
  wrapFaults_of_error _ (bind_of_error _ h)

theorem runAll_wrapFaults_of_ok (wrap : Fault → Fault) {ns : List Node}
    (h : runAll run ns m = .ok () m') :
    runAll (fun n => wrapFaults wrap (run n)) ns m = .ok () m' := by
  induction ns generalizing m with
  | nil => exact h
  | cons n ns ih =>
    obtain ⟨v, m₁, hn, hns⟩ := exists_of_bind_eq_ok h
    rw [runAll, bind_of_ok _ (wrapFaults_of_ok wrap hn)]
    exact ih hns

theorem roundBody_of_ok (h : runAll run body m = .ok () m') :
    roundBody run body m = .ok () m' :=
  wrapFaults_of_ok _ (runAll_wrapFaults_of_ok _ h)

theorem roundBody_of_error (h : runAll run body m = .error signal m') :
    roundBody run body m = .error (Enclosure.loop.passOn signal) m' :=
  wrapFaults_of_error _ (runAll_wrapFaults_of_error _ h)

/-- Complete rounds of the ordinary loop are rounds of the loop, and each of them runs the condition
once. -/
theorem countedRounds_of_completes (h : CompletesRounds run condition body n m m₁) (k : Nat) :
    countedRounds run condition body (k + n) m =
      (do return (← countedRounds run condition body k) + n) m₁ := by
  induction h with
  | zero m => exact congrFun (bind_pure _).symm m
  | succ hc hv hbody rest ih =>
    rw [← Nat.add_assoc, countedRounds, bind_of_ok _ (roundCondition_of_ok hc), hv, if_pos rfl,
      bind_of_ok _ (roundBody_of_ok hbody), bind_congr_outcome _ ih, bind_assoc]
    simp only [pure_bind, Nat.add_assoc]

/-- The ordinary loop leaves: the condition was run once more than there were complete rounds. -/
theorem countedRounds_of_leaves {k : Nat} (hk : n < k)
    (h : EndsAfter run condition body n m (.ok () m')) :
    countedRounds run condition body k m = .ok (n + 1) m' := by
  obtain ⟨m₁, hrounds, hend⟩ := h
  obtain ⟨j, rfl⟩ : ∃ j, k = j + 1 + n := ⟨k - n - 1, by omega⟩
  cases hend with
  | leaves hc hv =>
    rw [countedRounds_of_completes hrounds, countedRounds, bind_assoc,
      bind_of_ok _ (roundCondition_of_ok hc), hv, if_neg Bool.false_ne_true, pure_bind,
      Nat.add_comm n 1]
    rfl

/-- The ordinary loop ends with a signal: the loop ends with it too, wrapped by the places that it
comes from. -/
theorem countedRounds_of_signal {k : Nat} (hk : n < k)
    (h : EndsAfter run condition body n m (.error signal m')) :
    countedRounds run condition body k m = .error (signal.wrapped .inLoop) m' ∨
      countedRounds run condition body k m = .error (Enclosure.loop.passOn signal) m' := by
  obtain ⟨m₁, hrounds, hend⟩ := h
  obtain ⟨j, rfl⟩ : ∃ j, k = j + 1 + n := ⟨k - n - 1, by omega⟩
  rw [countedRounds_of_completes hrounds, countedRounds, bind_assoc]
  cases hend with
  | inCondition hc => exact .inl (bind_of_error _ (roundCondition_of_error hc))
  | inBody hc hv hbody =>
    right
    rw [bind_of_ok _ (roundCondition_of_ok hc), hv, if_pos rfl, bind_assoc]
    exact bind_of_error _ (roundBody_of_error hbody)

/-- **The ordinary loop completes any number of rounds or ends before**, by induction on the number. -/
theorem completes_or_ends (run : Runner) (condition : Node) (body : List Node) (k : Nat)
    (m : Machine) :
    (∃ m', CompletesRounds run condition body k m m') ∨
      ∃ n < k, ∃ r, EndsAfter run condition body n m r := by
  induction k generalizing m with
  | zero => exact .inl ⟨m, .zero m⟩
  | succ k ih =>
    cases hc : run condition m with
    | error signal m₁ => exact .inr ⟨0, by omega, _, m, .zero m, .inCondition hc⟩
    | ok v m₁ =>
      cases hv : v.continuesLoop with
      | false => exact .inr ⟨0, by omega, _, m, .zero m, .leaves hc hv⟩
      | true =>
        cases hbody : runAll run body m₁ with
        | error signal m₂ => exact .inr ⟨0, by omega, _, m, .zero m, .inBody hc hv hbody⟩
        | ok _ m₂ =>
          -- The round is complete, and the rounds after it start on the machine that it leaves.
          obtain ⟨m', hrest⟩ | ⟨n, hn, r, m', hrest, hend⟩ := ih m₂
          · exact .inl ⟨m', .succ hc hv hbody hrest⟩
          · exact .inr ⟨n + 1, by omega, r, m', .succ hc hv hbody hrest, hend⟩

end Rounds

/-! ### A thousand rounds -/

/-- **The loop does what the ordinary loop does within a thousand rounds.**  The ordinary loop
completes a thousand rounds or ends before, and the loop is the one with a count, without the count.

* If the ordinary loop leaves after at most 999 complete rounds, the loop ends on the same machine,
  without a value.
* If it completes a thousand rounds, the loop ends there, without a value, and has run its condition
  a thousand times.
* If it ends with a fault or a returned result in one of its first thousand rounds, the loop ends with
  a fault of its own on the same machine, which wraps that one. -/
theorem loop_follows_unbounded (fuel : Nat) (condition : Node) (body : List Node) (m : Machine) :
    ((∃ m', CompletesRounds (exec fuel) condition body 1000 m m') ∨
      ∃ n < 1000, ∃ r, EndsAfter (exec fuel) condition body n m r) ∧
    exec (fuel + 1) (.loop condition body) = (do
      let _ ← countedLoop (exec fuel) condition body
      return Value.nothing) ∧
    (∀ n m', n ≤ 999 → EndsAfter (exec fuel) condition body n m (.ok () m') →
      exec (fuel + 1) (.loop condition body) m = .ok .nothing m' ∧
        countedLoop (exec fuel) condition body m = .ok (n + 1) m') ∧
    (∀ m', CompletesRounds (exec fuel) condition body 1000 m m' →
      exec (fuel + 1) (.loop condition body) m = .ok .nothing m' ∧
        countedLoop (exec fuel) condition body m = .ok 1000 m') ∧
    (∀ n signal cause m', n < 1000 → EndsAfter (exec fuel) condition body n m (.error signal m') →
      signal.cause? = some cause →
      ∃ fault, exec (fuel + 1) (.loop condition body) m = .error (.fault fault) m' ∧
        fault.kind = .execution ∧
        (fault = .inLoop cause ∨ fault = .inLoop (.inLoopBody cause))) := by
  have hcounted : exec (fuel + 1) (.loop condition body) = (do
      let _ ← countedLoop (exec fuel) condition body
      return Value.nothing) := runLoop_eq_countedLoop (exec fuel) condition body
  refine ⟨completes_or_ends _ _ _ _ m, hcounted, ?_, ?_, ?_⟩
  · -- The round that leaves is counted too.
    intro n m' hn h
    have hloop : countedLoop (exec fuel) condition body m = .ok (n + 1) m' :=
      countedRounds_of_leaves (Nat.lt_succ_of_le hn) h
    exact ⟨hcounted ▸ bind_of_ok _ hloop, hloop⟩
  · intro m' h
    have hloop : countedLoop (exec fuel) condition body m = .ok 1000 m' :=
      countedRounds_of_completes h 0
    exact ⟨hcounted ▸ bind_of_ok _ hloop, hloop⟩
  · intro n signal cause m' hn h hcause
    rw [hcounted]
    -- A fault of the condition is wrapped once, by the loop; one of the body by its round first.
    rcases countedRounds_of_signal hn h with hloop | hloop
    · refine ⟨.inLoop cause, ?_, rfl, .inl rfl⟩
      rw [Signal.wrapped, hcause] at hloop
      exact bind_of_error _ hloop
    · refine ⟨.inLoop (.inLoopBody cause), ?_, rfl, .inr rfl⟩
      rw [Enclosure.passOn, Signal.wrapped, Signal.wrapped, hcause] at hloop
      exact bind_of_error _ hloop

/-- The variable `d`. -/
def stepVariable : Node :=
  .ident none ⟨.ident, "d"⟩ false

/-- The assignment `d = d - d`. -/
def clearStep : Node :=
  .assign stepVariable (.arithmetic none ⟨.minus, "-"⟩ stepVariable stepVariable)

/-- The quotient `d / z`, where `z` is unbound. -/
def stepQuotient : Node :=
  .arithmetic none ⟨.divide, "/"⟩ stepVariable (.ident none ⟨.ident, "z"⟩ false)

/-- A machine on which `d` is one. -/
def stepMachine : Machine :=
  { (default : Machine) with scopes := Scopes.empty.put "d" (.int 1) }

/-- The ordinary loop `while (d) { }` completes any number of rounds. -/
theorem completes_endless (n : Nat) :
    CompletesRounds (exec 1) stepVariable [] n stepMachine stepMachine := by
  induction n with
  | zero => exact .zero _
  | succ n ih => exact .succ rfl rfl rfl ih

/-- The loop `while (d) { d = d - d; }` leaves after one round, `while (d) { }` stops after a thousand
rounds, and `while (d / z) { }` fails in its first round. -/
theorem loop_follows_unbounded_sample :
    (∃ m', EndsAfter (exec 3) stepVariable [clearStep] 1 stepMachine (.ok () m') ∧
      exec 4 (.loop stepVariable [clearStep]) stepMachine = .ok .nothing m') ∧
    (exec 2 (.loop stepVariable []) stepMachine = .ok .nothing stepMachine ∧
      countedLoop (exec 1) stepVariable [] stepMachine = .ok 1000 stepMachine) ∧
    (∃ m' fault, exec 3 (.loop stepQuotient []) stepMachine = .error (.fault fault) m' ∧
      fault.kind = .execution) := by
  refine ⟨?_, ?_, ?_⟩
  · obtain ⟨-, -, hleaves, -⟩ := loop_follows_unbounded 3 stepVariable [clearStep] stepMachine
    have hround : EndsAfter (exec 3) stepVariable [clearStep] 1 stepMachine (.ok () _) :=
      ⟨_, .succ rfl rfl rfl (.zero _), .leaves rfl rfl⟩
    exact ⟨_, hround, (hleaves 1 _ (by decide) hround).1⟩
  · obtain ⟨-, -, -, hcomplete, -⟩ := loop_follows_unbounded 1 stepVariable [] stepMachine
    exact hcomplete stepMachine (completes_endless 1000)
  · obtain ⟨-, -, -, -, hfails⟩ := loop_follows_unbounded 2 stepQuotient [] stepMachine
    obtain ⟨fault, hrun, hkind, -⟩ :=
      hfails 0 _ _ _ (by decide) ⟨_, .zero _, .inCondition rfl⟩ rfl
    exact ⟨_, fault, hrun, hkind⟩

end SeqPar
