import SeqPar.Proofs.UnboundedLoop
import SeqPar.Proofs.ZeroTexts

/-!
# Truth in conditionals and in loops

A conditional takes the value of its condition as it is: whatever is not zero and not empty holds.  A
loop first reads a text as a number.  The two agree on every value that is no text, and on every text
that is read as no number or as a number that is not zero.  They differ on all other texts: a text
that spells zero is not empty, so a conditional takes its first branch, and a loop leaves at once.
Since the value of a number literal is its text, `if (0)` and `while (0)` are such a pair.

## Main definitions

* `TakesFirstBranch`, `EntersBody` — after its condition, a conditional goes on with its first branch,
  a loop with its body.

## Main results

* `holds_iff_continuesLoop` — the values on which the two agree.
* `takesFirstBranch_iff`, `entersBody_iff` — runs in terms of the value of the condition.
* `conditional_agrees_with_loop_iff` — **a conditional and a loop agree on a condition exactly when
  its value is no text that spells zero.**
-/

namespace SeqPar

open Exec SeqPar.Number

/-! ### Values -/

theorem continuesLoop_text_eq_false_iff {s : String} (hs : s.isEmpty = false) :
    (Value.text s).continuesLoop = false ↔ SpellsZero s := by
  rw [← readFloat?_eq_zero_iff, Value.continuesLoop]
  cases readFloat? s with
  | none =>
    refine iff_of_false ?_ ?_
    · rw [hs]
      exact Bool.noConfusion
    · rintro ⟨x, hx, -⟩
      cases hx
  | some x =>
    constructor
    · intro h
      exact ⟨x, rfl, (Bool.not_not _).symm.trans (congrArg Bool.not h)⟩
    · rintro ⟨_, hx, h⟩
      cases hx
      exact congrArg Bool.not h

/-- What is empty spells no number. -/
theorem not_spellsZero_empty : ¬ SpellsZero "" := by
  rw [← readFloat?_eq_zero_iff]
  rintro ⟨x, hx, -⟩
  cases hx

/-- **The values on which the truth of a conditional and that of a loop agree** are all but the texts
that spell zero. -/
theorem holds_iff_continuesLoop (v : Value) :
    (v.holds = true ↔ v.continuesLoop = true) ↔ ∀ s, v = .text s → ¬ SpellsZero s := by
  cases v with
  | text s =>
    cases hs : s.isEmpty with
    | true =>
      obtain rfl : s = "" := String.isEmpty_iff.mp hs
      refine iff_of_true Iff.rfl ?_
      rintro _ ⟨⟩
      exact not_spellsZero_empty
    | false =>
      have hholds : (Value.text s).holds = true := congrArg Bool.not hs
      rw [← Bool.not_eq_false (Value.continuesLoop _), continuesLoop_text_eq_false_iff hs]
      constructor
      · rintro h _ ⟨⟩
        exact h.mp hholds
      · exact fun h => iff_of_true hholds (h s rfl)
  | _ => exact iff_of_true Iff.rfl (fun _ h => Value.noConfusion h)

/-! ### Runs -/

section Runs

variable {fuel : Nat} {condition : Node} {v : Value} {m m' : Machine}

/-- After its condition, which leaves the second machine, a conditional runs its first branch. -/
def TakesFirstBranch (fuel : Nat) (condition : Node) (m m' : Machine) : Prop :=
  ∀ body orElse, exec (fuel + 1) (.cond condition body orElse) m = (do
    runAll (exec fuel) body
    return Value.nothing) m'

/-- After its condition, which leaves the second machine, a loop runs its body and then the other
rounds. -/
def EntersBody (fuel : Nat) (condition : Node) (m m' : Machine) : Prop :=
  ∀ body, exec (fuel + 1) (.loop condition body) m = (do
    roundBody (exec fuel) body
    runRounds (runRound (exec fuel) condition body) 999
    return Value.nothing) m'

/-- A statement that returns ends with a signal, whatever the machine. -/
theorem exists_runAll_return (fuel : Nat) (m : Machine) :
    ∃ signal m', runAll (exec fuel) [.ret (.datum .nothing)] m = .error signal m' := by
  cases fuel with
  | zero => exact ⟨_, _, rfl⟩
  | succ fuel =>
    cases fuel with
    | zero => exact ⟨_, _, rfl⟩
    | succ fuel => exact ⟨_, _, rfl⟩

theorem cond_of_ok (h : exec fuel condition m = .ok v m') (body : List Node)
    (orElse : Option (List Node)) : exec (fuel + 1) (.cond condition body orElse) m =
      (do
        runAll (exec fuel) (if v.holds then body else orElse.getD [])
        return Value.nothing) m' := by
  show runCond (exec fuel) condition body orElse m = _
  rw [runCond, bind_of_ok _ h]
  cases v.holds with
  | true => rfl
  | false => rfl

theorem loop_of_continues (h : exec fuel condition m = .ok v m') (hv : v.continuesLoop = true)
    (body : List Node) : exec (fuel + 1) (.loop condition body) m =
      (do
        roundBody (exec fuel) body
        runRounds (runRound (exec fuel) condition body) 999
        return Value.nothing) m' := by
  show runLoop (exec fuel) condition body m = _
  have hrounds : runRounds (runRound (exec fuel) condition body) roundLimit = (do
      if (← runRound (exec fuel) condition body) then
        runRounds (runRound (exec fuel) condition body) 999) := rfl
  rw [runLoop, hrounds, runRound_eq, bind_assoc, bind_assoc, bind_of_ok _ (roundCondition_of_ok h),
    hv, if_pos rfl, bind_assoc]
  simp only [pure_bind, if_true]

theorem loop_of_leaves (h : exec fuel condition m = .ok v m') (hv : v.continuesLoop = false)
    (body : List Node) : exec (fuel + 1) (.loop condition body) m = .ok .nothing m' := by
  show runLoop (exec fuel) condition body m = _
  have hends : EndsAfter (exec fuel) condition body 0 m (.ok () m') := ⟨m, .zero m, .leaves h hv⟩
  have hlimit : 0 < roundLimit := by decide
  rw [runLoop_eq_countedLoop, countedLoop]
  exact bind_of_ok _ (countedRounds_of_leaves hlimit hends)

/-- A conditional takes its first branch when its condition holds.  Otherwise a branch that returns
tells that it does not. -/
theorem takesFirstBranch_iff (h : exec fuel condition m = .ok v m') :
    TakesFirstBranch fuel condition m m' ↔ v.holds = true := by
  constructor
  · intro htakes
    by_contra hv
    obtain ⟨signal, m₁, hreturn⟩ := exists_runAll_return fuel m'
    have hrun := htakes [.ret (.datum .nothing)] none
    rw [cond_of_ok h, if_neg hv, bind_of_error _ hreturn] at hrun
    cases hrun
  · intro hv body orElse
    rw [cond_of_ok h, if_pos hv]

theorem entersBody_iff (h : exec fuel condition m = .ok v m') :
    EntersBody fuel condition m m' ↔ v.continuesLoop = true := by
  constructor
  · intro henters
    by_contra hv
    obtain ⟨signal, m₁, hreturn⟩ := exists_runAll_return fuel m'
    have hrun := henters [.ret (.datum .nothing)]
    rw [loop_of_leaves h (Bool.eq_false_iff.mpr hv),
      bind_of_error _ (roundBody_of_error hreturn)] at hrun
    cases hrun
  · exact fun hv body => loop_of_continues h hv body

/-- **A conditional and a loop agree on a condition exactly when its value is no text that spells
zero.**  On such a text the conditional takes its first branch and the loop leaves at once, whatever
their bodies. -/
theorem conditional_agrees_with_loop_iff (h : exec fuel condition m = .ok v m') :
    ((TakesFirstBranch fuel condition m m' ↔ EntersBody fuel condition m m') ↔
      ∀ s, v = .text s → ¬ SpellsZero s) ∧
    ∀ s, v = .text s → SpellsZero s → TakesFirstBranch fuel condition m m' ∧
      ∀ body, exec (fuel + 1) (.loop condition body) m = .ok .nothing m' := by
  constructor
  · rw [takesFirstBranch_iff h, entersBody_iff h]
    exact holds_iff_continuesLoop v
  · rintro s rfl hzero
    have hs : s.isEmpty = false := by
      apply Bool.eq_false_iff.mpr
      intro hempty
      rw [String.isEmpty_iff.mp hempty] at hzero
      exact not_spellsZero_empty hzero
    exact ⟨(takesFirstBranch_iff h).mpr (congrArg Bool.not hs),
      loop_of_leaves h ((continuesLoop_text_eq_false_iff hs).mpr hzero)⟩

end Runs

/-- The variable `s`. -/
def textVariable : Node :=
  .ident none ⟨.ident, "s"⟩ false

/-- A machine on which the variable `s` is a text. -/
def textMachine (s : String) : Machine :=
  { (default : Machine) with scopes := Scopes.empty.put "s" (.text s) }

/-- On the text `-1e-402`, which no double but zero is near to, the condition `s` is true for a
conditional and false for a loop; on the text `none` it is true for both. -/
theorem conditional_agrees_on_words :
    ¬ (TakesFirstBranch 1 textVariable (textMachine "-1e-402") (textMachine "-1e-402") ↔
      EntersBody 1 textVariable (textMachine "-1e-402") (textMachine "-1e-402")) ∧
    (TakesFirstBranch 1 textVariable (textMachine "none") (textMachine "none") ↔
      EntersBody 1 textVariable (textMachine "none") (textMachine "none")) := by
  have hrun (s : String) : exec 1 textVariable (textMachine s) = .ok (.text s) (textMachine s) := rfl
  constructor
  · intro hagree
    refine (conditional_agrees_with_loop_iff (hrun _)).1.mp hagree _ rfl ⟨[1], -402, rfl, ?_⟩
    exact negligible_of_lt (show 1 < powTen 1 by decide) (by decide)
  · refine (conditional_agrees_with_loop_iff (hrun _)).1.mpr ?_
    rintro _ ⟨⟩ ⟨ds, e, hdecimal, -⟩
    cases hdecimal

/-- The condition `0`, a number literal. -/
def zeroCondition : Node :=
  .constant (some "NUMBER") ⟨.number, "0"⟩

/-- `if (0)` takes its first branch and `while (0)` does not enter its body. -/
theorem conditional_differs_on_zero :
    TakesFirstBranch 1 zeroCondition default default ∧ ¬ EntersBody 1 zeroCondition default default := by
  have hrun : exec 1 zeroCondition default = .ok (.text "0") default := rfl
  refine ⟨(takesFirstBranch_iff hrun).mpr rfl, ?_⟩
  rw [entersBody_iff hrun, Bool.not_eq_true]
  rfl

end SeqPar
