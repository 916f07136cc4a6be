import SeqPar.Check
import SeqPar.Proofs.ReturnPath

/-!
# Values of conditions

The check gives the type of truth values to comparisons, conjunctions, disjunctions, negations, and
minus signs in front of them.  Running such an expression need not give a truth value.  A conjunction
or disjunction gives the value of one of its operands, whatever that is; a negation of no value gives
no value; and a minus sign in front of a truth value gives a number.

What a condition gives is decided by one operand: the right one of a conjunction when the left one
holds and of a disjunction when it does not, and else the left one.  Following this choice down to an
operand that is no conjunction or disjunction, one comes to the expression whose value is the value of
the whole.  The condition gives a truth value exactly when that expression is a comparison, a negation
of an operand that has a value, or an expression without a type whose value happens to be a truth
value.

## Main definitions

* `Value.isTruth` — the truth values.
* `PicksLeft`, `PicksRight` — the operand that a conjunction or disjunction gives.
* `GivesTruth` — the runs of conditions that give a truth value, said without the value.
* `Node.isTruthBuilt` — conditions that are built from comparisons.

## Main results

* `GivesTruth.isTruth`, `givesTruth_of_isTruth` — the two directions.
* `exec_isTruth_iff` — **exactly the conditions that are decided by a truth value give one.**
* `isTruth_of_isTruthBuilt` — conditions that are built from comparisons give nothing else.
-/

namespace SeqPar

open Exec

/-- Whether a value is a truth value. -/
def Value.isTruth : Value → Bool
  | .bool _ => true
  | _ => false

theorem Value.isTruth_iff (v : Value) : v.isTruth = true ↔ ∃ b, v = .bool b := by
  cases v <;> simp [isTruth]

/-! ### Expressions with the type of truth values -/

theorem bind_ne_bool {α : Type} {r : Except Fault α} {k : α → Except Fault NodeType}
    (h : ∀ a, k a ≠ .ok .bool) : (r >>= k) ≠ .ok .bool := by
  cases r with
  | ok a => exact h a
  | error cause => nofun

/-- Only comparisons, connectives and signs have the type of truth values. -/
theorem Node.shape_of_check {n : Node} (h : n.check = .ok .bool) :
    (∃ type t left right, n = .relational type t left right) ∨
      (∃ type t left right, n = .logical type t left right) ∨
        ∃ type t operand, n = .unary type t operand := by
  cases n with
  | relational type t left right => exact .inl ⟨type, t, left, right, rfl⟩
  | logical type t left right => exact .inr (.inl ⟨type, t, left, right, rfl⟩)
  | unary type t operand => exact .inr (.inr ⟨type, t, operand, rfl⟩)
  -- Every other check ends in another type, whatever the checks of the parts before it give.
  | assign left right =>
    rw [check] at h
    refine absurd h (bind_ne_bool fun leftType => bind_ne_bool fun rightType => ?_)
    split
    · nofun
    · nofun
  | cond condition body orElse =>
    cases orElse with
    | none =>
      rw [check] at h
      refine absurd h (bind_ne_bool fun type => ?_)
      split
      · exact bind_ne_bool fun _ => nofun
      · nofun
    | some stmts =>
      rw [check] at h
      refine absurd h (bind_ne_bool fun type => ?_)
      split
      · exact bind_ne_bool fun _ => bind_ne_bool fun _ => nofun
      · nofun
  | loop condition body =>
    rw [check] at h
    refine absurd h (bind_ne_bool fun type => ?_)
    split
    · exact bind_ne_bool fun _ => nofun
    · nofun
  | arithmetic | access | clientChannel =>
    rw [check] at h
    exact absurd h (bind_ne_bool fun _ => bind_ne_bool fun _ => bind_ne_bool fun _ =>
      bind_ne_bool fun _ => nofun)
  | serverChannel =>
    rw [check] at h
    exact absurd h (bind_ne_bool fun _ => bind_ne_bool fun _ => bind_ne_bool fun _ =>
      bind_ne_bool fun _ => bind_ne_bool fun _ => bind_ne_bool fun _ => nofun)
  | funcDef | ret =>
    rw [check] at h
    exact absurd h (bind_ne_bool fun _ => bind_ne_bool fun _ => nofun)
  | call | program | seq | par =>
    rw [check] at h
    exact absurd h (bind_ne_bool fun _ => nofun)
  | datum | constant | ident | breakLoop | continueLoop | blank | statement | expression => cases h

/-! ### The operands of a condition -/

/-- The left operand of a conjunction that does not hold, or of a disjunction that does. -/
def PicksLeft (operator : String) (left : Value) : Prop :=
  (operator = "&&" ∧ left.holds = false) ∨ (operator = "||" ∧ left.holds = true)

/-- The right operand, behind the left one of a conjunction that holds or of a disjunction that does
not. -/
def PicksRight (operator : String) (left : Value) : Prop :=
  (operator = "&&" ∧ left.holds = true) ∨ (operator = "||" ∧ left.holds = false)

section Inversion

variable {α β : Type} {fuel : Nat} {m m' : Machine} {v : Value} {type : Option String} {t : Token}

theorem exists_of_bind_eq_ok {p : Exec α} {f : α → Exec β} {b : β}
    (h : (p >>= f) m = .ok b m') : ∃ a m₁, p m = .ok a m₁ ∧ f a m₁ = .ok b m' := by
  cases hp : p m with
  | ok a m₁ =>
    rw [bind_of_ok f hp] at h
    exact ⟨a, m₁, rfl, h⟩
  | error signal m₁ =>
    rw [bind_of_error f hp] at h
    cases h

theorem exists_of_ofExcept_eq_ok {r : Except Fault α} {a : α} (h : ofExcept r m = .ok a m') :
    r = .ok a ∧ m = m' := by
  cases r with
  | ok b =>
    cases h
    exact ⟨rfl, rfl⟩
  | error cause => cases h

/-- The value of a comparison is a truth value. -/
theorem exec_relational {left right : Node}
    (h : exec fuel (.relational type t left right) m = .ok v m') : v.isTruth = true := by
  cases fuel with
  | zero => cases h
  | succ fuel =>
    obtain ⟨a, m₁, -, h⟩ := exists_of_bind_eq_ok h
    obtain ⟨b, m₂, -, h⟩ := exists_of_bind_eq_ok h
    obtain ⟨holds, m₃, -, h⟩ := exists_of_bind_eq_ok h
    cases h
    rfl

/-- A conjunction or disjunction runs both operands and gives the value of the one that it picks; an
operator that is neither gives no value. -/
theorem exec_logical {left right : Node}
    (h : exec fuel (.logical type t left right) m = .ok v m') :
    ∃ k a m₁ b, fuel = k + 1 ∧ exec k left m = .ok a m₁ ∧ exec k right m₁ = .ok b m' ∧
      ((PicksLeft t.text a ∧ v = a) ∨ (PicksRight t.text a ∧ v = b) ∨
        (¬ PicksLeft t.text a ∧ ¬ PicksRight t.text a ∧ v = .nothing)) := by
  cases fuel with
  | zero => cases h
  | succ k =>
    rw [exec, step] at h
    generalize t.text = operator at h ⊢
    rw [runLogical] at h
    obtain ⟨a, m₁, hleft, h⟩ := exists_of_bind_eq_ok h
    obtain ⟨b, m₂, hright, h⟩ := exists_of_bind_eq_ok h
    split at h
    · -- A conjunction gives its left side when that is false.
      cases h
      refine ⟨k, a, m₁, b, rfl, hleft, hright, ?_⟩
      cases hholds : a.holds with
      | false => exact .inl ⟨.inl ⟨rfl, hholds⟩, rfl⟩
      | true => exact .inr (.inl ⟨.inl ⟨rfl, hholds⟩, rfl⟩)
    · -- A disjunction gives it when that is true.
      cases h
      refine ⟨k, a, m₁, b, rfl, hleft, hright, ?_⟩
      cases hholds : a.holds with
      | false => exact .inr (.inl ⟨.inr ⟨rfl, hholds⟩, rfl⟩)
      | true => exact .inl ⟨.inr ⟨rfl, hholds⟩, rfl⟩
    · next hand hor =>
      cases h
      refine ⟨k, a, m₁, b, rfl, hleft, hright, .inr (.inr ⟨?_, ?_, rfl⟩)⟩
      · rintro (⟨hop, -⟩ | ⟨hop, -⟩)
        · exact hand hop
        · exact hor hop
      · rintro (⟨hop, -⟩ | ⟨hop, -⟩)
        · exact hand hop
        · exact hor hop

/-- A negative is a number or an empty sequence. -/
theorem isTruth_negated {w : Value} (h : w.negated = .ok v) : v.isTruth = false := by
  unfold Value.negated at h
  split at h
  · cases h; rfl
  · cases h; rfl
  · cases h; rfl
  · split at h
    · cases h; rfl
    · cases h; rfl
    · cases h

/-- A sign runs its operand. -/
theorem exec_unary {operand : Node} (h : exec fuel (.unary type t operand) m = .ok v m') :
    ∃ k w m₁, fuel = k + 1 ∧ exec k operand m = .ok w m₁ ∧
      ((w = .nothing ∧ v = .nothing) ∨
        (w ≠ .nothing ∧ t.text = "!" ∧ v = .bool !w.holds) ∨
        (w ≠ .nothing ∧ t.text ≠ "!" ∧ v.isTruth = false)) := by
  cases fuel with
  | zero => cases h
  | succ k =>
    rw [exec, step] at h
    generalize t.text = sign at h ⊢
    rw [runUnary] at h
    obtain ⟨w, m₁, hoperand, h⟩ := exists_of_bind_eq_ok h
    refine ⟨k, w, m₁, rfl, hoperand, ?_⟩
    split at h
    · cases h
      exact .inl ⟨rfl, rfl⟩
    · next hvalue =>
      right
      split at h
      · cases h
        exact .inl ⟨hvalue, rfl, rfl⟩
      · obtain ⟨hnegated, -⟩ := exists_of_ofExcept_eq_ok h
        exact .inr ⟨hvalue, by decide, isTruth_negated hnegated⟩
      · next hnot _ =>
        cases h
        exact .inr ⟨hvalue, hnot, rfl⟩

end Inversion

/-! ### Runs that give a truth value -/

/-- The runs of expressions, on a machine and to a depth, that give a truth value if they give a
value at all. -/
inductive GivesTruth : (fuel : Nat) → Node → Machine → Prop
  /-- A comparison. -/
  | comparison {fuel : Nat} {type : Option String} {t : Token} {left right : Node} {m : Machine} :
    GivesTruth fuel (.relational type t left right) m
  /-- A negation of an operand that has a value. -/
  | negation {fuel : Nat} {type : Option String} {t : Token} {operand : Node} {w : Value}
    {m m₁ : Machine} (hsign : t.text = "!") (hoperand : exec fuel operand m = .ok w m₁)
    (hw : w ≠ .nothing) : GivesTruth (fuel + 1) (.unary type t operand) m
  /-- A conjunction or disjunction that is decided by its left operand. -/
  | left {fuel : Nat} {type : Option String} {t : Token} {left right : Node} {a : Value}
    {m m₁ : Machine} (hleft : exec fuel left m = .ok a m₁) (hpick : PicksLeft t.text a)
    (h : GivesTruth fuel left m) : GivesTruth (fuel + 1) (.logical type t left right) m
  /-- A conjunction or disjunction that is decided by its right operand. -/
  | right {fuel : Nat} {type : Option String} {t : Token} {left right : Node} {a : Value}
    {m m₁ : Machine} (hleft : exec fuel left m = .ok a m₁) (hpick : PicksRight t.text a)
    (h : GivesTruth fuel right m₁) : GivesTruth (fuel + 1) (.logical type t left right) m
  /-- An operand without a type whose value is a truth value. -/
  | operand {fuel : Nat} {n : Node} {b : Bool} {m m' : Machine} (htype : n.check ≠ .ok .bool)
    (h : exec fuel n m = .ok (.bool b) m') : GivesTruth fuel n m

theorem PicksLeft.not_picksRight {operator : String} {a : Value} (hleft : PicksLeft operator a) :
    ¬ PicksRight operator a := by
  rcases hleft with ⟨rfl, hholds⟩ | ⟨rfl, hholds⟩
  · simp [PicksRight, hholds]
  · simp [PicksRight, hholds]

/-- A run that is decided by a truth value gives one, by induction on what decides it. -/
theorem GivesTruth.isTruth {fuel : Nat} {n : Node} {m m' : Machine} {v : Value}
    (h : GivesTruth fuel n m) (hrun : exec fuel n m = .ok v m') : v.isTruth = true := by
  induction h generalizing v m' with
  | comparison => exact exec_relational hrun
  | negation hsign hoperand hw =>
    obtain ⟨_, w, m₁, ⟨rfl⟩, hoperand', hvalue⟩ := exec_unary hrun
    cases hoperand.symm.trans hoperand'
    rcases hvalue with ⟨hnothing, -⟩ | ⟨-, -, rfl⟩ | ⟨-, hother, -⟩
    · exact absurd hnothing hw
    · rfl
    · exact absurd hsign hother
  | left hleft hpick h ih =>
    obtain ⟨_, a, m₁, b, ⟨rfl⟩, hleft', -, hvalue⟩ := exec_logical hrun
    cases hleft.symm.trans hleft'
    rcases hvalue with ⟨-, rfl⟩ | ⟨hright, -⟩ | ⟨hneither, -, -⟩
    · exact ih hleft
    · exact absurd hright hpick.not_picksRight
    · exact absurd hpick hneither
  | right hleft hpick h ih =>
    obtain ⟨_, a, m₁, b, ⟨rfl⟩, hleft', hright', hvalue⟩ := exec_logical hrun
    cases hleft.symm.trans hleft'
    rcases hvalue with ⟨hother, -⟩ | ⟨-, rfl⟩ | ⟨-, hneither, -⟩
    · exact absurd hpick hother.not_picksRight
    · exact ih hright'
    · exact absurd hpick hneither
  | operand htype h =>
    rw [h] at hrun
    cases hrun
    rfl

/-- A run that gives a truth value is decided by one, by induction on the depth: between two
connectives the run goes down one operand. -/
theorem givesTruth_of_isTruth {fuel : Nat} {n : Node} {m m' : Machine} {v : Value}
    (hrun : exec fuel n m = .ok v m') (hv : v.isTruth = true) : GivesTruth fuel n m := by
  induction fuel generalizing n m m' v with
  | zero => cases hrun
  | succ fuel ih =>
    by_cases htype : n.check = .ok .bool
    · rcases Node.shape_of_check htype with
        ⟨type, t, left, right, rfl⟩ | ⟨type, t, left, right, rfl⟩ | ⟨type, t, operand, rfl⟩
      · exact .comparison
      · obtain ⟨_, a, m₁, b, ⟨rfl⟩, hleft, hright, hvalue⟩ := exec_logical hrun
        rcases hvalue with ⟨hpick, rfl⟩ | ⟨hpick, rfl⟩ | ⟨-, -, rfl⟩
        · exact .left hleft hpick (ih hleft hv)
        · exact .right hleft hpick (ih hright hv)
        · cases hv
      · obtain ⟨_, w, m₁, ⟨rfl⟩, hoperand, hvalue⟩ := exec_unary hrun
        rcases hvalue with ⟨-, rfl⟩ | ⟨hw, hsign, -⟩ | ⟨-, -, hfalse⟩
        · cases hv
        · exact .negation hsign hoperand hw
        · rw [hfalse] at hv
          cases hv
    · obtain ⟨b, rfl⟩ := v.isTruth_iff.mp hv
      exact .operand htype hrun

/-- **Exactly the conditions that are decided by a truth value give one.**  When the run of an
expression gives a value, in particular of one with the type of truth values, then the value is a truth
value if and only if the choice of its connectives leads to a comparison, to a negation of an operand
that has a value, or to an operand without a type whose value is a truth value. -/
theorem exec_isTruth_iff {fuel : Nat} {n : Node} {m m' : Machine} {v : Value}
    (hrun : exec fuel n m = .ok v m') : v.isTruth = true ↔ GivesTruth fuel n m :=
  ⟨givesTruth_of_isTruth hrun, fun h => h.isTruth hrun⟩

/-- The variables `x` and `y` with the numbers five and seven. -/
def fiveAndSeven : Machine :=
  { (default : Machine) with scopes := (Scopes.empty.put "x" (.int 5)).put "y" (.int 7) }

/-- The condition `!x && y`. -/
def negationAndVariable : Node :=
  .logical (some "BOOL") ⟨.and, "&&"⟩
    (.unary none ⟨.not, "!"⟩ (.ident none ⟨.ident, "x"⟩ false)) (.ident none ⟨.ident, "y"⟩ false)

/-- A conjunction that its left operand decides, which is a negation of a number. -/
theorem negationAndVariable_givesTruth :
    exec 3 negationAndVariable fiveAndSeven = .ok (.bool false) fiveAndSeven ∧
      GivesTruth 3 negationAndVariable fiveAndSeven := by
  have hrun : exec 3 negationAndVariable fiveAndSeven = .ok (.bool false) fiveAndSeven := rfl
  exact ⟨hrun, (exec_isTruth_iff hrun).mp rfl⟩

/-- The condition `x && y`. -/
def twoVariables : Node :=
  .logical (some "BOOL") ⟨.and, "&&"⟩ (.ident none ⟨.ident, "x"⟩ false)
    (.ident none ⟨.ident, "y"⟩ false)

/-- A conjunction of two numbers has the type of truth values and gives a number. -/
theorem twoVariables_gives_number :
    twoVariables.check = .ok .bool ∧
      exec 2 twoVariables fiveAndSeven = .ok (.int 7) fiveAndSeven ∧
        (Value.int 7).isTruth = false :=
  ⟨rfl, rfl, rfl⟩

/-! ### Conditions that are built from comparisons -/

/-- A comparison, or a condition that connectives and negations build from comparisons. -/
def Node.isTruthBuilt : Node → Bool
  | .relational .. => true
  | .logical _ t left right =>
    (t.text == "&&" || t.text == "||") && (left.isTruthBuilt && right.isTruthBuilt)
  | .unary _ t operand => t.text == "!" && operand.isTruthBuilt
  | _ => false

/-- The connectives pick one of their operands. -/
theorem picksLeft_or_picksRight {operator : String} (h : operator = "&&" ∨ operator = "||")
    (a : Value) : PicksLeft operator a ∨ PicksRight operator a := by
  rcases h with rfl | rfl
  · cases hholds : a.holds with
    | false => exact .inl (.inl ⟨rfl, hholds⟩)
    | true => exact .inr (.inl ⟨rfl, hholds⟩)
  · cases hholds : a.holds with
    | false => exact .inr (.inr ⟨rfl, hholds⟩)
    | true => exact .inl (.inr ⟨rfl, hholds⟩)

/-- **Conditions that are built from comparisons give truth values only**, on every machine, by
induction on the depth. -/
theorem isTruth_of_isTruthBuilt {fuel : Nat} {n : Node} {m m' : Machine} {v : Value}
    (h : n.isTruthBuilt = true) (hrun : exec fuel n m = .ok v m') : v.isTruth = true := by
  induction fuel generalizing n m m' v with
  | zero => cases hrun
  | succ fuel ih =>
    cases n with
    | relational type t left right => exact exec_relational hrun
    | logical type t left right =>
      simp only [Node.isTruthBuilt, Bool.and_eq_true, Bool.or_eq_true, beq_iff_eq] at h
      obtain ⟨hoperator, hleft, hright⟩ := h
      obtain ⟨_, a, m₁, b, ⟨rfl⟩, ha, hb, hvalue⟩ := exec_logical hrun
      rcases hvalue with ⟨-, rfl⟩ | ⟨-, rfl⟩ | ⟨hnotLeft, hnotRight, -⟩
      · exact ih hleft ha
      · exact ih hright hb
      · exact absurd (picksLeft_or_picksRight hoperator a) (not_or.mpr ⟨hnotLeft, hnotRight⟩)
    | unary type t operand =>
      simp only [Node.isTruthBuilt, Bool.and_eq_true, beq_iff_eq] at h
      obtain ⟨hsign, hoperand⟩ := h
      obtain ⟨_, w, m₁, ⟨rfl⟩, hw, hvalue⟩ := exec_unary hrun
      have htruth := ih hoperand hw
      rcases hvalue with ⟨rfl, -⟩ | ⟨-, -, rfl⟩ | ⟨-, hother, -⟩
      · cases htruth
      · rfl
      · exact absurd hsign hother
    | _ => cases h

end SeqPar
