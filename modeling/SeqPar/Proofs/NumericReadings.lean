import SeqPar.Parse.Grammar
import SeqPar.Proofs.ReturnPath
import SeqPar.Proofs.WholeTexts
import SeqPar.Value.Functions

/-!
# Readings of a text as a number

The built-in conversion gives the number that a text spells: a whole number where the text spells
one, and a double otherwise.  Assignments, arithmetic and comparisons convert texts as well, but in
one way for all texts: they take the whole part of the double that the text spells.

The two readings of a text give the same number exactly if nothing is lost on the way: a whole
number has to be a double, and a double has to be whole.  What is not a number passes unchanged.  Of
all other texts an assignment stores a different number or none at all, and each of the two kinds of
operation tells the text from its number on some other operand.

## Main definitions

* `Numeric.Same` — the same number, whole or double.
* `Numeric.Exact` — numbers on which nothing is lost.
* `CountedAs` — the three ways in which a text that spells a number can be counted.
* `Interchangeable` — two values that an operation does not tell apart.
* `CountsIn`, `StoresAs` — a text that counts as a number in nodes of a kind, and that is stored as
  one.

## Main results

* `Numeric.compare_int_eq_iff` — a number is the same as a whole number if it is simplified to it.
* `numberOfText_countedAs` — a text that spells a number is counted in one of the three ways.
* `readings_agree_iff` — **a text is stored as the number it spells, counts as it in arithmetic and
  counts as it in comparisons, each if and only if that number is exact.**
-/

namespace SeqPar

open Exec SeqPar.Number

/-! ### The same number -/

namespace Numeric

/-- The same number: equal by value, or one and the same. -/
def Same (a b : Numeric) : Prop :=
  a = b ∨ a.compare b = some .eq

/-- Taking the nearest double and then its whole part loses nothing. -/
def Exact : Numeric → Prop
  | .int n => IsDouble n.natAbs
  | .float x => x.isNaN = true ∨ isWhole x = true

theorem simplify_of_isWhole {x : Float} (h : isWhole x = true) :
    ∃ b, Binary.ofFloat? x = some b ∧ b.isWhole = true ∧
      (Numeric.float x).simplify = .int b.truncate := by
  cases hb : Binary.ofFloat? x with
  | none =>
    rw [isWhole, hb] at h
    cases h
  | some b =>
    rw [isWhole, hb] at h
    refine ⟨b, rfl, h, ?_⟩
    rw [simplify, hb]
    exact if_pos h

theorem simplify_of_not_isWhole {x : Float} (h : ¬ isWhole x = true) :
    (Numeric.float x).simplify = .float x := by
  cases hb : Binary.ofFloat? x with
  | none => rw [simplify, hb]
  | some b =>
    rw [isWhole, hb] at h
    rw [simplify, hb]
    exact if_neg h

theorem simplify_simplify (v : Numeric) : v.simplify.simplify = v.simplify := by
  cases v with
  | int n => rfl
  | float x =>
    by_cases hwhole : isWhole x = true
    · obtain ⟨b, -, -, hsimplify⟩ := simplify_of_isWhole hwhole
      rw [hsimplify]
      rfl
    · rw [simplify_of_not_isWhole hwhole, simplify_of_not_isWhole hwhole]

end Numeric

namespace Number

theorem Binary.ratio_pos (b : Binary) : 0 < b.ratio.2 := by
  rw [ratio]
  split
  · exact Nat.one_pos
  · exact powTwo_pos _

theorem Binary.signed_mul (b : Binary) (n d : Nat) : b.signed (n * d) = b.signed n * d := by
  cases hb : b.negative with
  | true => simp only [signed, hb, if_true, Int.natCast_mul, Int.neg_mul]
  | false => simp only [signed, hb, Bool.false_eq_true, if_false, Int.natCast_mul]

/-- A double is the same as a whole number if it is whole and that number is its whole part. -/
theorem compareInt_eq_iff {x : Float} {b : Binary} (hb : Binary.ofFloat? x = some b) (t : Int) :
    compareInt x t = some .eq ↔ b.isWhole = true ∧ t = b.truncate := by
  have hden := b.ratio_pos
  rw [compareInt, hb]
  show some (compare (b.signed b.ratio.1) (t * b.ratio.2)) = some .eq ↔ _
  rw [Option.some.injEq, Std.LawfulEqOrd.compare_eq_iff_eq, Binary.isWhole, beq_iff_eq,
    Binary.truncate]
  constructor
  · intro h
    have hnum : b.ratio.1 = t.natAbs * b.ratio.2 := by
      rw [← b.natAbs_signed b.ratio.1, h, Int.natAbs_mul, Int.natAbs_natCast]
    rw [hnum, b.signed_mul] at h
    rw [hnum, Nat.mul_mod_left, Nat.mul_div_cancel _ hden]
    have hne : (b.ratio.2 : Int) ≠ 0 := by omega
    exact ⟨rfl, (Int.eq_of_mul_eq_mul_right hne h).symm⟩
  · rintro ⟨hwhole, rfl⟩
    rw [← b.signed_mul, Nat.div_mul_cancel (Nat.dvd_of_mod_eq_zero hwhole)]

end Number

/-- A number is the same as a whole number if it is simplified to it. -/
theorem Numeric.compare_int_eq_iff (t : Int) (v : Numeric) :
    (Numeric.int t).compare v = some .eq ↔ v.simplify = .int t := by
  cases v with
  | int n =>
    rw [compare, simplify, Option.some.injEq, Std.LawfulEqOrd.compare_eq_iff_eq, int.injEq]
    exact eq_comm
  | float x =>
    have hswap : ((compareInt x t).map Ordering.swap = some .eq) ↔ compareInt x t = some .eq := by
      cases compareInt x t with
      | none => simp
      | some o => cases o <;> simp
    rw [compare, hswap]
    cases hb : Binary.ofFloat? x with
    | some b =>
      rw [compareInt_eq_iff hb, simplify, hb]
      by_cases hwhole : b.isWhole = true
      · simp [hwhole, eq_comm]
      · simp [hwhole]
    | none =>
      -- an infinity lies on one side of every whole number
      have hother : compareInt x t ≠ some .eq := by
        rw [compareInt, hb]
        dsimp only
        by_cases hnan : x.isNaN = true
        · rw [if_pos hnan]
          simp
        · rw [if_neg hnan]
          by_cases hneg : x < 0 <;> simp [hneg]
      rw [simplify, hb]
      simp [hother]

/-! ### How a text is counted -/

/-- How a text that spells the number `v` can be counted: as that number, which is exact then; as
another whole number; or not at all. -/
inductive CountedAs (v : Numeric) : Except Fault (Option Numeric) → Prop where
  /-- As the same number. -/
  | same {number : Numeric} (hexact : v.Exact) (hsame : number.Same v)
    (hsimplify : number.simplify = v.simplify) : CountedAs v (.ok (some number))
  /-- As another number. -/
  | other {t : Int} (hexact : ¬ v.Exact) (hother : v.simplify ≠ .int t) :
    CountedAs v (.ok (some (.int t)))
  /-- Not at all. -/
  | none {fault : Fault} (hexact : ¬ v.Exact) : CountedAs v (.error fault)

theorem countedAs_of_readInt? {s : String} {n : Int} (h : readInt? s = some n) :
    CountedAs (.int n) (numberOfText s) := by
  obtain ⟨negative, ds, hspells, rfl⟩ := spellsDigits_of_readInt? h
  have hexact : (Numeric.int (withSign negative (ofDigits ds))).Exact ↔ IsDouble (ofDigits ds) := by
    rw [Numeric.Exact, natAbs_withSign]
  obtain ⟨t, hcount, hdouble, heq⟩ | ⟨hdouble, hcount⟩ := numberOfText_digits hspells
  · rw [hcount]
    by_cases hds : IsDouble (ofDigits ds)
    · rw [heq hds]
      exact .same (hexact.mpr hds) (.inl rfl) rfl
    · refine .other (mt hexact.mp hds) ?_
      intro hint
      cases hint
      rw [natAbs_withSign] at hdouble
      exact hds hdouble
  · rw [hcount]
    exact .none (mt hexact.mp hdouble)

theorem countedAs_of_readFloat? {s : String} {x : Float} (h : readFloat? s = some x) :
    CountedAs (.float x) (numberOfText s) := by
  rw [numberOfText, h]
  dsimp only
  by_cases hnan : x.isNaN = true
  · rw [if_pos hnan]
    exact .same (.inl hnan) (.inl rfl) rfl
  rw [if_neg hnan, wholePart]
  cases hb : Binary.ofFloat? x with
  | none =>
    refine .none ?_
    rintro (h' | h')
    · exact hnan h'
    · rw [isWhole, hb] at h'
      cases h'
  | some b =>
    by_cases hexact : isWhole x = true
    · obtain ⟨b', hb', -, hsimplify⟩ := Numeric.simplify_of_isWhole hexact
      obtain rfl : b = b' := Option.some.inj (hb.symm.trans hb')
      refine .same (.inr hexact) (.inr ?_) ?_
      · rw [Numeric.compare_int_eq_iff, hsimplify]
      · rw [hsimplify]
        rfl
    · refine .other ?_ ?_
      · rintro (h' | h')
        · exact hnan h'
        · exact hexact h'
      · rw [Numeric.simplify_of_not_isWhole hexact]
        simp

/-- **A text that spells a number is counted in one of the three ways.** -/
theorem numberOfText_countedAs {s : String} {v : Numeric} (h : spelledNumber? s = some v) :
    CountedAs v (numberOfText s) := by
  rw [spelledNumber?] at h
  split at h
  · next n hn =>
    cases h
    exact countedAs_of_readInt? hn
  · obtain ⟨x, hx, rfl⟩ := Option.map_eq_some_iff.mp h
    exact countedAs_of_readFloat? hx

theorem spelledNumber?_of_toNumber {s : String} {v : Numeric}
    (h : (Value.text s).toNumber = .ok v.toValue) : spelledNumber? s = some v := by
  rw [Value.toNumber] at h
  split at h
  · next n hn =>
    rw [hn]
    cases v <;> cases h
    rfl
  · next x hx =>
    rw [hx]
    cases v <;> cases h
    rfl
  · cases h

/-! ### Storing -/

/-- A text is stored as the number it spells if and only if the number is exact. -/
theorem stored_iff {s : String} {v : Numeric} (h : CountedAs v (numberOfText s)) :
    (∃ w : Numeric, w.Same v ∧ (Value.text s).stored = .ok w.toValue) ↔ v.Exact := by
  rw [Value.stored]
  revert h
  generalize numberOfText s = r
  intro h
  cases h with
  | @same number hexact hsame hsimplify =>
    exact ⟨fun _ => hexact, fun _ => ⟨number, hsame, rfl⟩⟩
  | @other t hexact hother =>
    refine ⟨?_, fun hv => absurd hv hexact⟩
    rintro ⟨w, hsame, hstored⟩
    have hw : w = .int t := by
      cases w <;> cases hstored
      rfl
    rw [hw] at hsame
    obtain rfl | hcompare := hsame
    · exact absurd rfl hother
    · exact absurd ((Numeric.compare_int_eq_iff t v).mp hcompare) hother
  | none hexact =>
    refine ⟨?_, fun hv => absurd hv hexact⟩
    rintro ⟨w, -, hstored⟩
    cases hstored

/-! ### Operands -/

/-- Two values that an operation does not tell apart, on either side. -/
def Interchangeable (f : String → Value → Value → Except Fault Value) (a b : Value) : Prop :=
  ∀ operator w, f operator a w = f operator b w ∧ f operator w a = f operator w b

theorem operand_text {s : String} {number : Numeric} (h : numberOfText s = .ok (some number)) :
    (Value.text s).operand = .ok number.simplify := by
  rw [Value.operand]
  dsimp only
  rw [h]
  rfl

theorem operand_text_error {s : String} {fault : Fault} (h : numberOfText s = .error fault) :
    (Value.text s).operand = .error fault := by
  rw [Value.operand]
  dsimp only
  rw [h]
  rfl

theorem operand_toValue (v : Numeric) : v.toValue.operand = .ok v.simplify := by
  cases v <;> rfl

/-- Arithmetic sees its operands only as the numbers they count as. -/
theorem interchangeable_of_operand {a b : Value} (h : a.operand = b.operand) :
    Interchangeable arithmetic a b := by
  intro operator w
  rw [arithmetic, arithmetic, arithmetic, arithmetic, h]
  exact ⟨rfl, rfl⟩

theorem floatOfInt_eq_error {n : Int} (h : powTwo 1024 ≤ n.natAbs) :
    floatOfInt n = .error .wholeTooLarge := by
  rw [floatOfInt, nearestInt?, nearest?_eq_none h]
  rfl

/-- Adding a whole number to what counts as a number. -/
theorem arithmetic_add_int {a : Value} {number : Numeric} (h : a.operand = .ok number) (n : Int) :
    arithmetic "+" a (.int n) =
      ((number.combine (· + ·) (· + ·) (.int n)).map fun r => r.simplify.toValue).mapError
        .inArithmetic := by
  rw [arithmetic, h]
  cases number <;> rfl

theorem combine_float_int (x : Float) {n : Int} {fault : Fault} (h : floatOfInt n = .error fault) :
    Numeric.combine (· + ·) (· + ·) (.float x) (.int n) = .error fault := by
  show (floatOfInt n >>= fun y => pure (Numeric.float (x + y))) = _
  rw [h]
  rfl

theorem arithmetic_iff {s : String} {v : Numeric} (h : CountedAs v (numberOfText s)) :
    Interchangeable arithmetic (.text s) v.toValue ↔ v.Exact := by
  generalize hr : numberOfText s = r at h
  cases h with
  | same hexact hsame hsimplify =>
    refine ⟨fun _ => hexact, fun _ => interchangeable_of_operand ?_⟩
    rw [operand_text hr, operand_toValue, hsimplify]
  | @other t hexact hother =>
    refine ⟨fun hsame => ?_, fun hv => absurd hv hexact⟩
    have htext (n : Int) : arithmetic "+" (.text s) (.int n) = .ok (.int (t + n)) :=
      arithmetic_add_int (operand_text hr) n
    cases hv : v.simplify with
    | int n =>
      have hzero := (hsame "+" (.int 0)).1
      rw [htext, arithmetic_add_int (operand_toValue v), hv] at hzero
      have hsum : t + 0 = n + 0 := Value.int.inj (Except.ok.inj hzero)
      rw [Int.add_zero, Int.add_zero] at hsum
      rw [hv, hsum] at hother
      exact absurd rfl hother
    | float x =>
      -- whole numbers of any size can be added, but not to a double
      have hfault := floatOfInt_eq_error (Nat.le_of_eq (Int.natAbs_natCast (powTwo 1024)).symm)
      have hlarge := (hsame "+" (.int (powTwo 1024 : Nat))).1
      rw [htext, arithmetic_add_int (operand_toValue v), hv, combine_float_int x hfault] at hlarge
      cases hlarge
  | none hexact =>
    refine ⟨fun hsame => ?_, fun hv => absurd hv hexact⟩
    have hzero := (hsame "+" (.int 0)).1
    rw [arithmetic, operand_text_error hr, arithmetic_add_int (operand_toValue v)] at hzero
    cases hv : v.simplify with
    | int n =>
      rw [hv] at hzero
      cases hzero
    | float x =>
      rw [hv] at hzero
      cases hzero

/-! ### Comparisons -/

/-- The comparison of an operator as an operation on values. -/
def relationalValue (operator : String) (left right : Value) : Except Fault Value :=
  (relational operator left right).map .bool

theorem compared_text {s : String} {number : Numeric} (h : numberOfText s = .ok (some number)) :
    (Value.text s).compared = .ok number.simplify.toValue := by
  rw [Value.compared]
  dsimp only
  rw [h]
  rfl

theorem compared_text_error {s : String} {fault : Fault} (h : numberOfText s = .error fault) :
    (Value.text s).compared = .error fault := by
  rw [Value.compared]
  dsimp only
  rw [h]
  rfl

theorem compared_toValue (v : Numeric) : v.toValue.compared = .ok v.simplify.toValue := by
  cases v <;> rfl

/-- Comparisons see their operands only as `Value.compared` gives them. -/
theorem interchangeable_of_compared {a b : Value} (h : a.compared = b.compared) :
    Interchangeable relationalValue a b := by
  intro operator w
  rw [relationalValue, relationalValue, relationalValue, relationalValue, relational, relational,
    relational, relational, h]
  exact ⟨rfl, rfl⟩

/-- Whether what counts as a number is the same as a whole number. -/
theorem relational_eq_int {a : Value} {number : Numeric} (h : a.compared = .ok number.toValue)
    (t : Int) : relationalValue "==" (.int t) a =
      .ok (.bool ((Numeric.int t).compare number == some .eq)) := by
  have hsame : relational "==" (.int t) a = .ok ((Value.int t).same number.toValue) := by
    rw [relational, h]
    rfl
  rw [relationalValue, hsame, Value.same]
  cases number <;> rfl

theorem relational_iff {s : String} {v : Numeric} (h : CountedAs v (numberOfText s)) :
    Interchangeable relationalValue (.text s) v.toValue ↔ v.Exact := by
  generalize hr : numberOfText s = r at h
  cases h with
  | same hexact hsame hsimplify =>
    refine ⟨fun _ => hexact, fun _ => interchangeable_of_compared ?_⟩
    rw [compared_text hr, compared_toValue, hsimplify]
  | @other t hexact hother =>
    refine ⟨fun hsame => ?_, fun hv => absurd hv hexact⟩
    have heq := (hsame "==" (.int t)).2
    rw [relational_eq_int (compared_text hr), relational_eq_int (compared_toValue v)] at heq
    have htrue : ((Numeric.int t).compare (Numeric.int t).simplify == some .eq) = true := by
      rw [beq_iff_eq, Numeric.compare_int_eq_iff]
      rfl
    have hsome := Value.bool.inj (Except.ok.inj heq)
    rw [htrue, eq_comm, beq_iff_eq, Numeric.compare_int_eq_iff, Numeric.simplify_simplify] at hsome
    exact absurd hsome hother
  | none hexact =>
    refine ⟨fun hsame => ?_, fun hv => absurd hv hexact⟩
    have heq := (hsame "==" (.int 0)).2
    rw [relational_eq_int (compared_toValue v), relationalValue, relational,
      compared_text_error hr] at heq
    cases heq

/-! ### Nodes -/

/-- A kind of node with two operands that computes `f` from their values, the left one first. -/
def Computes (make : Option String → Token → Node → Node → Node)
    (f : String → Value → Value → Except Fault Value) : Prop :=
  ∀ (k : Nat) (type : Option String) (t : Token) (left right : Node) (m m₁ m₂ : Machine)
    (a b : Value), exec k left m = .ok a m₁ → exec k right m₁ = .ok b m₂ →
    exec (k + 1) (make type t left right) m = ofExcept (f t.text a b) m₂

theorem arithmetic_computes : Computes .arithmetic arithmetic := by
  intro k type t left right m m₁ m₂ a b hleft hright
  exact (bind_of_ok _ hleft).trans (bind_of_ok _ hright)

theorem relational_computes : Computes .relational relationalValue := by
  intro k type t left right m m₁ m₂ a b hleft hright
  refine (bind_of_ok _ hleft).trans ((bind_of_ok _ hright).trans ?_)
  rw [relationalValue]
  cases relational t.text a b <;> rfl

/-- In nodes of a kind that computes `f`, a text as either operand counts as the number `v`: the
node computes what it would with the number in its place. -/
def CountsIn (make : Option String → Token → Node → Node → Node)
    (f : String → Value → Value → Except Fault Value) (s : String) (v : Numeric) : Prop :=
  ∀ (k : Nat) (type : Option String) (t : Token) (left right : Node) (m m₁ m₂ : Machine)
    (w : Value),
    (exec k left m = .ok (.text s) m₁ → exec k right m₁ = .ok w m₂ →
      exec (k + 1) (make type t left right) m = ofExcept (f t.text v.toValue w) m₂) ∧
    (exec k left m = .ok w m₁ → exec k right m₁ = .ok (.text s) m₂ →
      exec (k + 1) (make type t left right) m = ofExcept (f t.text w v.toValue) m₂)

theorem ofExcept_injective {r r' : Except Fault Value} {m : Machine}
    (h : ofExcept r m = ofExcept r' m) : r = r' := by
  cases r <;> cases r' <;> cases h <;> rfl

/-- A machine with the variables `x` and `y`. -/
def machineWith (x y : Value) : Machine :=
  { (default : Machine) with scopes := (Scopes.empty.put "y" y).put "x" x }

theorem exec_x (x y : Value) :
    exec 1 (Parser.reference "x") (machineWith x y) = .ok x (machineWith x y) := rfl

theorem exec_y (x y : Value) :
    exec 1 (Parser.reference "y") (machineWith x y) = .ok y (machineWith x y) := rfl

/-- A text counts as a number in nodes if the operation does not tell the two apart: every value can
be the other operand. -/
theorem countsIn_iff {make : Option String → Token → Node → Node → Node}
    {f : String → Value → Value → Except Fault Value} (hcomputes : Computes make f) (s : String)
    (v : Numeric) : CountsIn make f s v ↔ Interchangeable f (.text s) v.toValue := by
  constructor
  · intro h operator w
    have hnode (a b : Value) := hcomputes 1 none ⟨.ident, operator⟩ _ _ _ _ _ a b (exec_x a b)
      (exec_y a b)
    have hcounts (a b : Value) := h 1 none ⟨.ident, operator⟩ (Parser.reference "x")
      (Parser.reference "y") (machineWith a b) (machineWith a b) (machineWith a b) w
    constructor
    · have hleft := (hcounts (.text s) w).1 (exec_x _ _) (exec_y _ _)
      exact ofExcept_injective ((hnode (.text s) w).symm.trans hleft)
    · have hright := (hcounts w (.text s)).2 (exec_x _ _) (exec_y _ _)
      exact ofExcept_injective ((hnode w (.text s)).symm.trans hright)
  · intro h k type t left right m m₁ m₂ w
    constructor
    · intro hleft hright
      rw [hcomputes _ _ _ _ _ _ _ _ _ _ hleft hright, (h t.text w).1]
    · intro hleft hright
      rw [hcomputes _ _ _ _ _ _ _ _ _ _ hleft hright, (h t.text w).2]

/-- Every assignment of a text stores the number `v`, whole or double. -/
def StoresAs (s : String) (v : Numeric) : Prop :=
  ∀ (k : Nat) (type : Option String) (t : Token) (decl : Bool) (right : Node) (m m' : Machine),
    exec k right m = .ok (.text s) m' → ∃ w : Numeric, w.Same v ∧
      exec (k + 1) (.assign (.ident type t decl) right) m =
        .ok w.toValue { m' with scopes := m'.scopes.put t.text w.toValue }

/-- An assignment after its right side has given a value. -/
theorem exec_assign {k : Nat} {type : Option String} {t : Token} {decl : Bool} {right : Node}
    {m m' : Machine} {a : Value} (hright : exec k right m = .ok a m') :
    exec (k + 1) (.assign (.ident type t decl) right) m =
      exitOnInterrupt (wrapFaults .inAssignment do
        let v ← ofExcept a.stored
        bindHere t.text v
        return v) m' := by
  have hbody : (do
      let name ← (Node.ident type t decl).tokenText
      let v ← ofExcept (← exec k right).stored
      bindHere name v
      return v) m = (do
      let v ← ofExcept a.stored
      bindHere t.text v
      return v) m' :=
    (bind_of_ok _ rfl).trans (bind_of_ok _ hright)
  show exitOnInterrupt (recover _ _) m = exitOnInterrupt (recover _ _) m'
  rw [exitOnInterrupt, exitOnInterrupt, recover, recover, hbody]

theorem storesAs_iff (s : String) (v : Numeric) : StoresAs s v ↔
    ∃ w : Numeric, w.Same v ∧ (Value.text s).stored = .ok w.toValue := by
  constructor
  · intro h
    have hx := exec_x (.text s) .nothing
    obtain ⟨w, hsame, hexec⟩ := h 1 none ⟨.ident, "z"⟩ false _ _ _ hx
    refine ⟨w, hsame, ?_⟩
    cases hstored : (Value.text s).stored with
    | error fault =>
      rw [exec_assign hx, hstored] at hexec
      cases hexec
    | ok a =>
      rw [exec_assign hx, hstored] at hexec
      rw [(EStateM.Result.ok.inj hexec).1]
  · rintro ⟨w, hsame, hstored⟩ k type t decl right m m' hright
    refine ⟨w, hsame, ?_⟩
    rw [exec_assign hright, hstored]
    rfl

/-- **A text that spells a number is stored as that number, counts as it in arithmetic and counts as
it in comparisons, each if and only if the number is exact.** -/
theorem readings_agree_iff {s : String} {v : Numeric}
    (h : (Value.text s).toNumber = .ok v.toValue) :
    (StoresAs s v ↔ v.Exact) ∧ (CountsIn .arithmetic arithmetic s v ↔ v.Exact) ∧
      (CountsIn .relational relationalValue s v ↔ v.Exact) := by
  have hcounted := numberOfText_countedAs (spelledNumber?_of_toNumber h)
  refine ⟨?_, ?_, ?_⟩
  · rw [storesAs_iff, stored_iff hcounted]
  · rw [countsIn_iff arithmetic_computes, arithmetic_iff hcounted]
  · rw [countsIn_iff relational_computes, relational_iff hcounted]

/-- The text `2.50e1` spells the double 25, which is whole. -/
theorem readings_agree_on_whole_double :
    (Value.text "2.50e1").toNumber = .ok (.float (Float.ofBits 0x4039000000000000)) ∧
    StoresAs "2.50e1" (.float (Float.ofBits 0x4039000000000000)) ∧
    CountsIn .arithmetic arithmetic "2.50e1" (.float (Float.ofBits 0x4039000000000000)) ∧
    CountsIn .relational relationalValue "2.50e1" (.float (Float.ofBits 0x4039000000000000)) := by
  have hnumber : (Value.text "2.50e1").toNumber =
      .ok (Numeric.float (Float.ofBits 0x4039000000000000)).toValue := rfl
  have hexact : (Numeric.float (Float.ofBits 0x4039000000000000)).Exact := .inr (by decide)
  obtain ⟨hstores, harithmetic, hrelational⟩ := readings_agree_iff hnumber
  exact ⟨hnumber, hstores.mpr hexact, harithmetic.mpr hexact, hrelational.mpr hexact⟩

/-- The text `1.5` spells a double that is not whole.  It is stored as 1, one more than it is 2, and
it is the same as 1. -/
theorem readings_differ_on_fraction :
    (Value.text "1.5").toNumber = .ok (.float (Float.ofBits 0x3ff8000000000000)) ∧
    (Value.text "1.5").stored = .ok (.int 1) ∧
    arithmetic "+" (.text "1.5") (.int 1) = .ok (.int 2) ∧
    relationalValue "==" (.int 1) (.text "1.5") = .ok (.bool true) ∧
    ¬ (Numeric.int 1).Same (.float (Float.ofBits 0x3ff8000000000000)) := by
  have hcount : numberOfText "1.5" = .ok (some (.int 1)) := rfl
  refine ⟨rfl, rfl, rfl, relational_eq_int (compared_text hcount) 1, ?_⟩
  rintro (h | h)
  · cases h
  · exact absurd h (by decide)

end SeqPar
