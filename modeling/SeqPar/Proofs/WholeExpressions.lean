import SeqPar.Proofs.Views
import SeqPar.Proofs.Written

/-!
# Expressions over whole numbers

An expression that is built from variables by sums, differences, products, remainders and minus
signs has a value in the whole numbers, which are of any size; only a remainder by zero has none.
Running the expression gives exactly this value, although every operation first looks at the kinds
of its operands and converts what is no number.  It ends with a fault exactly if some remainder in
it, however deep, is one by zero.  A comparison of two such expressions gives the comparison of
their values.

The run leaves all variables with the values they had.  A variable that is not bound counts as zero,
and it is bound to zero in the innermost scope when it is read.

## Main definitions

* `WholeExpr`, `WholeExpr.value?` — the expressions and their values.
* `signedRemainder` — the remainder that has the sign of the divisor.
* `WholeExpr.DividesByZero` — a remainder by zero somewhere in an expression.
* `Node.Spells` — the syntax trees of an expression.
* `KeepsNumbers` — a machine on which all variables have kept their values.
* `Concludes` — a computation that gives a value or a fault and keeps the variables.
* `comparisonOf` — the comparison of two values, if there are two.

## Main results

* `signedRemainder_spec` — the sign and the size of a remainder.
* `relational_int` — the six comparisons on whole numbers.
* `WholeExpr.value?_eq_none_iff` — an expression has no value exactly if it divides by zero.
* `Concludes.bind`, `Concludes.pair` — going on after one or two whole numbers were computed.
* `concludes_whole` — the run of an expression, by induction on it.
* `exec_whole_exact` — **expressions and comparisons over whole numbers are computed exactly.**
-/

namespace SeqPar

open Exec Written

/-! ### Comparisons of whole numbers -/

/-- Whether an order relation holds between two whole numbers. -/
def Comparison.holds : Comparison → Int → Int → Bool
  | .lt, a, b => decide (a < b)
  | .le, a, b => decide (a ≤ b)
  | .gt, a, b => decide (b < a)
  | .ge, a, b => decide (b ≤ a)

/-- Whether a comparison holds between two whole numbers. -/
def Written.Comparison.holds : Written.Comparison → Int → Int → Bool
  | .eq, a, b => decide (a = b)
  | .neq, a, b => !decide (a = b)
  | .lt, a, b => decide (a < b)
  | .gt, a, b => decide (b < a)
  | .lte, a, b => decide (a ≤ b)
  | .gte, a, b => decide (b ≤ a)

section Comparing

variable (a b : Int)

theorem compare_cases :
    (a < b ∧ Ord.compare a b = .lt) ∨ (a = b ∧ Ord.compare a b = .eq) ∨
      (b < a ∧ Ord.compare a b = .gt) := by
  show (a < b ∧ compareOfLessAndEq a b = .lt) ∨ (a = b ∧ compareOfLessAndEq a b = .eq) ∨
    (b < a ∧ compareOfLessAndEq a b = .gt)
  unfold compareOfLessAndEq
  rcases Int.lt_trichotomy a b with hlt | heq | hgt
  · exact .inl ⟨hlt, if_pos hlt⟩
  · exact .inr (.inl ⟨heq, by simp [heq]⟩)
  · exact .inr (.inr ⟨hgt, by rw [if_neg (by omega), if_neg (by omega)]⟩)

/-- An order relation holds between two whole numbers if it accepts the way they compare. -/
theorem accepts_compare (op : Comparison) : op.accepts (Ord.compare a b) = op.holds a b := by
  rcases compare_cases a b with ⟨h, hcompare⟩ | ⟨h, hcompare⟩ | ⟨h, hcompare⟩
  · rw [hcompare]
    cases op <;> grind [Comparison.accepts, Comparison.holds]
  · rw [hcompare]
    cases op <;> grind [Comparison.accepts, Comparison.holds]
  · rw [hcompare]
    cases op <;> grind [Comparison.accepts, Comparison.holds]

theorem compare_int (op : Comparison) :
    (Value.int a).compare op (.int b) = .ok (op.holds a b) := by
  rw [← accepts_compare]
  unfold Value.compare
  rfl

theorem same_int : (Value.int a).same (.int b) = decide (a = b) := by
  have hsame : (some (Ord.compare a b) == some .eq) = decide (a = b) := by
    rcases compare_cases a b with ⟨h, hcompare⟩ | ⟨h, hcompare⟩ | ⟨h, hcompare⟩
    · rw [hcompare, decide_eq_false (by omega)]
      rfl
    · rw [hcompare, decide_eq_true h]
      rfl
    · rw [hcompare, decide_eq_false (by omega)]
      rfl
  rw [← hsame]
  unfold Value.same
  rfl

/-- **The six comparisons on whole numbers.** -/
theorem relational_int (c : Written.Comparison) :
    relational (spelling c.tag) (.int a) (.int b) = .ok (c.holds a b) := by
  cases c with
  | eq => exact congrArg Except.ok (same_int a b)
  | neq => exact congrArg (fun r => Except.ok !r) (same_int a b)
  | lt => exact compare_int a b .lt
  | gt => exact compare_int a b .gt
  | lte => exact compare_int a b .le
  | gte => exact compare_int a b .ge

end Comparing

/-! ### Expressions and their values -/

/-- The remainder of a division that has the sign of the divisor: a division by a negative number is
the mirror image of one by a positive number. -/
def signedRemainder (a b : Int) : Int :=
  if b < 0 then -(-a % -b) else a % b

theorem fmod_eq_signedRemainder (a b : Int) : a.fmod b = signedRemainder a b := by
  rw [signedRemainder]
  split
  · next hb =>
    have hmirror : a.fmod b = -(-a).fmod (-b) := by rw [Int.neg_fmod_neg, Int.neg_neg]
    rw [hmirror, Int.fmod_eq_emod_of_nonneg _ (by omega)]
  · next hb => exact Int.fmod_eq_emod_of_nonneg a (by omega)

/-- The remainder lies between zero and the divisor, and the divisor divides the difference. -/
theorem signedRemainder_spec (a b : Int) : b ∣ a - signedRemainder a b ∧
    (0 < b → 0 ≤ signedRemainder a b ∧ signedRemainder a b < b) ∧
      (b < 0 → b < signedRemainder a b ∧ signedRemainder a b ≤ 0) := by
  have hdvd : b ∣ a - signedRemainder a b := by
    rw [← fmod_eq_signedRemainder, ← Int.mul_fdiv_self]
    exact Int.dvd_mul_right b _
  refine ⟨hdvd, fun hb => ?_, fun hb => ?_⟩
  · rw [signedRemainder, if_neg (by omega)]
    exact ⟨Int.emod_nonneg a (by omega), Int.emod_lt_of_pos a hb⟩
  · have hnonneg := Int.emod_nonneg (-a) (b := -b) (by omega)
    have hlt := Int.emod_lt_of_pos (-a) (b := -b) (by omega)
    rw [signedRemainder, if_pos hb]
    omega

/-- The operations on whole numbers. -/
inductive WholeOp where
  /-- The sum. -/
  | sum
  /-- The difference. -/
  | difference
  /-- The product. -/
  | product
  /-- The remainder. -/
  | remainder
  deriving DecidableEq, Repr

namespace WholeOp

/-- The sign of an operation. -/
def sign : WholeOp → String
  | sum => "+"
  | difference => "-"
  | product => "*"
  | remainder => "%"

/-- The result of an operation; a remainder by zero has none. -/
def result? : WholeOp → Int → Int → Option Int
  | sum, a, b => some (a + b)
  | difference, a, b => some (a - b)
  | product, a, b => some (a * b)
  | remainder, a, b => if b = 0 then none else some (signedRemainder a b)

theorem result?_eq_none_iff (o : WholeOp) (a b : Int) :
    o.result? a b = none ↔ o = remainder ∧ b = 0 := by
  cases o <;> simp [result?]

end WholeOp

/-- Expressions over whole numbers. -/
inductive WholeExpr where
  /-- A variable. -/
  | var (name : String)
  /-- A minus sign in front of an expression. -/
  | neg (operand : WholeExpr)
  /-- An operation on two expressions. -/
  | op (operation : WholeOp) (left right : WholeExpr)

namespace WholeExpr

/-- The variables of an expression. -/
def names : WholeExpr → List String
  | var x => [x]
  | neg e => e.names
  | op _ l r => l.names ++ r.names

/-- The number of expressions inside each other. -/
def height : WholeExpr → Nat
  | var _ => 1
  | neg e => e.height + 1
  | op _ l r => max l.height r.height + 1

theorem height_pos (e : WholeExpr) : 0 < e.height := by
  cases e <;> simp [height]

theorem exists_depth {e : WholeExpr} {depth : Nat} (h : e.height ≤ depth) : ∃ k, depth = k + 1 :=
  Nat.exists_eq_succ_of_ne_zero (Nat.ne_of_gt (Nat.lt_of_lt_of_le e.height_pos h))

/-- An expression and all expressions inside it. -/
def parts : WholeExpr → List WholeExpr
  | var x => [var x]
  | neg e => neg e :: e.parts
  | op o l r => op o l r :: (l.parts ++ r.parts)

/-- The value of an expression, from the values of its variables. -/
def value? (numbers : String → Int) : WholeExpr → Option Int
  | var x => some (numbers x)
  | neg e => (e.value? numbers).map (- ·)
  | op o l r => (l.value? numbers).bind fun a => (r.value? numbers).bind fun b => o.result? a b

/-- Somewhere in the expression there is a remainder whose divisor has the value zero. -/
def DividesByZero (numbers : String → Int) (e : WholeExpr) : Prop :=
  ∃ l r, op .remainder l r ∈ e.parts ∧ r.value? numbers = some 0

theorem dividesByZero_op_iff (numbers : String → Int) (o : WholeOp) (l r : WholeExpr) :
    (op o l r).DividesByZero numbers ↔ (o = .remainder ∧ r.value? numbers = some 0) ∨
      l.DividesByZero numbers ∨ r.DividesByZero numbers := by
  constructor
  · rintro ⟨l', r', hmem, hzero⟩
    rw [parts, List.mem_cons, List.mem_append] at hmem
    rcases hmem with heq | hl | hr
    · cases heq
      exact .inl ⟨rfl, hzero⟩
    · exact .inr (.inl ⟨l', r', hl, hzero⟩)
    · exact .inr (.inr ⟨l', r', hr, hzero⟩)
  · rintro (⟨rfl, hzero⟩ | ⟨l', r', hl, hzero⟩ | ⟨l', r', hr, hzero⟩)
    · exact ⟨l, r, List.mem_cons_self, hzero⟩
    · exact ⟨l', r', List.mem_cons_of_mem _ (List.mem_append_left _ hl), hzero⟩
    · exact ⟨l', r', List.mem_cons_of_mem _ (List.mem_append_right _ hr), hzero⟩

/-- **An expression has no value exactly if it divides by zero.** -/
theorem value?_eq_none_iff (numbers : String → Int) (e : WholeExpr) :
    e.value? numbers = none ↔ e.DividesByZero numbers := by
  induction e with
  | var x => simp [value?, DividesByZero, parts]
  | neg e ih => simpa [value?, DividesByZero, parts] using ih
  | op o l r ihl ihr =>
    rw [dividesByZero_op_iff, ← ihl, ← ihr, value?]
    -- The divisor counts only when both operands have values.
    cases l.value? numbers with
    | none => simp
    | some a =>
      cases r.value? numbers with
      | none => simp
      | some b => simp [WholeOp.result?_eq_none_iff]

end WholeExpr

/-- The syntax trees of an expression.  The types and the places of the tokens are of no account. -/
inductive Node.Spells : Node → WholeExpr → Prop
  /-- A variable. -/
  | var (type : Option String) (t : Token) (decl : Bool) :
    Spells (.ident type t decl) (.var t.text)
  /-- A minus sign. -/
  | neg (type : Option String) {t : Token} {n : Node} {e : WholeExpr} (ht : t.text = "-")
    (hn : n.Spells e) : Spells (.unary type t n) (.neg e)
  /-- An operation. -/
  | op (type : Option String) {t : Token} {left right : Node} {o : WholeOp} {l r : WholeExpr}
    (ht : t.text = o.sign) (hl : left.Spells l) (hr : right.Spells r) :
    Spells (.arithmetic type t left right) (.op o l r)

/-! ### Machines that keep their numbers -/

namespace Machine

/-- The number that a variable holds in the innermost scope; an unbound variable counts as zero. -/
def numberOf (m : Machine) (x : String) : Int :=
  match m.scopes.top.get? x with
  | some (.int n) => n
  | _ => 0

/-- A variable that is bound to nothing but a whole number in the innermost scope. -/
def HoldsWhole (m : Machine) (x : String) : Prop :=
  ∀ v, m.scopes.top.get? x = some v → ∃ n, v = .int n

end Machine

/-- The machine `m'` is `m`, except that variables that were unbound in the innermost scope may be
bound to zero there. -/
structure KeepsNumbers (m m' : Machine) : Prop where
  /-- Nothing but the scopes has changed. -/
  rest : m' = m.withScopes m'.scopes
  /-- The outer scopes are as before. -/
  outer : m'.scopes.outer = m.scopes.outer
  /-- A variable has the value that it had, unless it had none and is zero now. -/
  top : ∀ x, m'.scopes.top.get? x = m.scopes.top.get? x ∨
    m.scopes.top.get? x = none ∧ m'.scopes.top.get? x = some (.int 0)

namespace KeepsNumbers

variable {m m' m'' : Machine}

theorem refl (m : Machine) : KeepsNumbers m m :=
  ⟨rfl, rfl, fun _ => .inl rfl⟩

theorem trans (h : KeepsNumbers m m') (h' : KeepsNumbers m' m'') : KeepsNumbers m m'' := by
  refine ⟨?_, h'.outer.trans h.outer, fun x => ?_⟩
  · rw [h'.rest, h.rest]
    rfl
  · rcases h'.top x with hsame | ⟨hnone, hzero⟩
    · rw [hsame]
      exact h.top x
    · rcases h.top x with hsame | ⟨-, hbound⟩
      · exact .inr ⟨hsame ▸ hnone, hzero⟩
      · rw [hbound] at hnone
        cases hnone

theorem numberOf (h : KeepsNumbers m m') : m'.numberOf = m.numberOf := by
  funext x
  unfold Machine.numberOf
  rcases h.top x with hsame | ⟨hnone, hzero⟩
  · rw [hsame]
  · rw [hnone, hzero]

theorem holdsWhole (h : KeepsNumbers m m') {x : String} (hx : m.HoldsWhole x) :
    m'.HoldsWhole x := by
  intro v hv
  rcases h.top x with hsame | ⟨-, hzero⟩
  · exact hx v (hsame ▸ hv)
  · rw [hzero] at hv
    cases hv
    exact ⟨0, rfl⟩

/-- An unbound variable is bound to zero. -/
theorem put {x : String} (hx : m.scopes.top.get? x = none) :
    KeepsNumbers m (m.withScopes (m.scopes.put x (.int 0))) := by
  refine ⟨rfl, rfl, fun y => ?_⟩
  by_cases hy : y = x
  · subst hy
    exact .inr ⟨hx, Table.get?_put_self _ _ _⟩
  · exact .inl (Table.get?_put_of_ne _ hy _)

end KeepsNumbers

/-! ### Running expressions -/

/-- On the machine `m` the computation gives the value, or ends with a fault if there is none; the
variables are kept in both cases. -/
inductive Concludes (p : Exec Value) (m : Machine) : Option Value → Prop
  /-- With a value. -/
  | value {v : Value} {m' : Machine} (h : p m = .ok v m') (keeps : KeepsNumbers m m') :
    Concludes p m (some v)
  /-- With a fault. -/
  | fault {cause : Fault} {m' : Machine} (h : p m = .error (.fault cause) m')
    (hkind : cause.kind = .execution) (keeps : KeepsNumbers m m') : Concludes p m none

/-- Going on after a whole number was computed. -/
theorem Concludes.bind {p : Exec Value} {f : Value → Exec Value} {m : Machine} {r : Option Int}
    {next : Int → Option Value} (hp : Concludes p m (r.map .int))
    (hf : ∀ a m', r = some a → KeepsNumbers m m' → Concludes (f (.int a)) m' (next a)) :
    Concludes (p >>= f) m (r.bind next) := by
  cases r with
  | none =>
    cases hp with
    | fault h hkind keeps => exact .fault (bind_of_error f h) hkind keeps
  | some a =>
    cases hp with
    | value h keeps =>
      show Concludes (p >>= f) m (next a)
      -- What the second computation keeps is kept from the start, in both of its endings.
      have hnext := hf a _ rfl keeps
      have hbind := bind_of_ok f h
      generalize next a = r at hnext ⊢
      cases hnext with
      | value h' keeps' => exact .value (hbind.trans h') (keeps.trans keeps')
      | fault h' hkind keeps' => exact .fault (hbind.trans h') hkind (keeps.trans keeps')

theorem concludes_runIdent {m : Machine} {x : String} (hx : m.HoldsWhole x) :
    Concludes (runIdent x) m (some (.int (m.numberOf x))) := by
  have hbinding : binding? x m = .ok (m.scopes.top.get? x) m := rfl
  unfold Machine.numberOf
  cases hget : m.scopes.top.get? x with
  | some v =>
    obtain ⟨n, rfl⟩ := hx v hget
    rw [hget] at hbinding
    exact .value (bind_of_ok _ hbinding) (.refl m)
  | none =>
    rw [hget] at hbinding
    exact .value (bind_of_ok _ hbinding) (.put hget)

/-- An operation on whole numbers. -/
theorem arithmetic_int (o : WholeOp) (a b : Int) :
    (∃ c, o.result? a b = some c ∧ arithmetic o.sign (.int a) (.int b) = .ok (.int c)) ∨
      o.result? a b = none ∧
        arithmetic o.sign (.int a) (.int b) = .error (.inArithmetic .moduloByZero) := by
  cases o with
  | sum => exact .inl ⟨a + b, rfl, rfl⟩
  | difference => exact .inl ⟨a - b, rfl, rfl⟩
  | product => exact .inl ⟨a * b, rfl, rfl⟩
  | remainder =>
    by_cases hb : b = 0
    · subst hb
      exact .inr ⟨rfl, rfl⟩
    · refine .inl ⟨signedRemainder a b, if_neg hb, ?_⟩
      have hzero : Numeric.isZero (.int b) = false := beq_false_of_ne hb
      have hmodulo : Numeric.modulo (.int a) (.int b) = .ok (.int (signedRemainder a b)) := by
        rw [Numeric.modulo, hzero, ← fmod_eq_signedRemainder]
        rfl
      show Except.mapError _ (Numeric.modulo (.int a) (.int b) >>= _) = _
      rw [hmodulo]
      rfl

theorem concludes_arithmetic (o : WholeOp) (a b : Int) (m : Machine) :
    Concludes (ofExcept (arithmetic o.sign (.int a) (.int b))) m ((o.result? a b).map .int) := by
  rcases arithmetic_int o a b with ⟨c, hvalue, hresult⟩ | ⟨hvalue, hresult⟩
  · rw [hvalue, hresult]
    exact .value rfl (.refl m)
  · rw [hvalue, hresult]
    exact .fault rfl rfl (.refl m)

/-- The trees of two expressions run one after the other, and then a computation on their values. -/
theorem Concludes.pair {k : Nat} {left right : Node} {m : Machine} {x y : Option Int}
    {f : Value → Value → Exec Value} {next : Int → Int → Option Value}
    (hleft : Concludes (exec k left) m (x.map .int))
    (hright : ∀ m', KeepsNumbers m m' → Concludes (exec k right) m' (y.map .int))
    (hf : ∀ a b m', Concludes (f (.int a) (.int b)) m' (next a b)) :
    Concludes (exec k left >>= fun v => exec k right >>= f v) m
      (x.bind fun a => y.bind (next a)) := by
  refine hleft.bind fun a m' _ hkeeps => ?_
  exact (hright m' hkeeps).bind fun b m'' _ _ => hf a b m''

/-- The run of an expression, by induction on its syntax tree. -/
theorem concludes_whole {n : Node} {e : WholeExpr} (hn : n.Spells e) {m : Machine} {depth : Nat}
    (hvars : ∀ x ∈ e.names, m.HoldsWhole x) (hdepth : e.height ≤ depth) :
    Concludes (exec depth n) m ((e.value? m.numberOf).map .int) := by
  induction hn generalizing m depth with
  | var type t decl =>
    obtain ⟨k, rfl⟩ := WholeExpr.exists_depth hdepth
    exact concludes_runIdent (hvars t.text List.mem_cons_self)
  | @neg type t n e ht hn ih =>
    obtain ⟨k, rfl⟩ := WholeExpr.exists_depth hdepth
    have hoperand := ih hvars (Nat.le_of_succ_le_succ hdepth)
    have hvalue : ((WholeExpr.neg e).value? m.numberOf).map Value.int =
        (e.value? m.numberOf).bind fun a => some (.int (-a)) := by
      rw [WholeExpr.value?, Option.map_map, Option.map_eq_bind]
      rfl
    show Concludes (runUnary (exec k) t.text n) m _
    rw [hvalue, ht]
    exact hoperand.bind fun a m' _ _ => .value rfl (.refl m')
  | @op type t left right o l r ht hl hr ihl ihr =>
    obtain ⟨k, rfl⟩ := WholeExpr.exists_depth hdepth
    have hmax : max l.height r.height ≤ k := Nat.le_of_succ_le_succ hdepth
    have hleft := ihl (fun x hx => hvars x (List.mem_append_left _ hx))
      (Nat.le_trans (Nat.le_max_left _ _) hmax)
    have hvalue : ((WholeExpr.op o l r).value? m.numberOf).map Value.int =
        (l.value? m.numberOf).bind fun a => (r.value? m.numberOf).bind fun b =>
          (o.result? a b).map .int := by
      rw [WholeExpr.value?, Option.map_bind]
      congr 1
      funext a
      exact Option.map_bind
    show Concludes (runArithmetic (exec k) t.text left right) m _
    rw [hvalue, ht]
    refine hleft.pair (fun m' hkeeps => ?_) (concludes_arithmetic o)
    -- The right operand is run after the left one, on a machine with the same numbers.
    rw [← hkeeps.numberOf]
    exact ihr (fun x hx => hkeeps.holdsWhole (hvars x (List.mem_append_right _ hx)))
      (Nat.le_trans (Nat.le_max_right _ _) hmax)

/-- The comparison of two whole numbers that may be missing. -/
def comparisonOf (c : Written.Comparison) (x y : Option Int) : Option Value :=
  x.bind fun a => y.bind fun b => some (.bool (c.holds a b))

/-- **Expressions over whole numbers are computed exactly, and so are their comparisons.**  A variable
that is not bound counts as zero.  There is a fault exactly when the expression, or one of the two
that are compared, divides by zero, and every variable keeps its number. -/
theorem exec_whole_exact {n n' : Node} {e e' : WholeExpr} (hn : n.Spells e) (hn' : n'.Spells e')
    {m : Machine} {depth : Nat} (hvars : ∀ x ∈ e.names ++ e'.names, m.HoldsWhole x)
    (hdepth : e.height ≤ depth) (hdepth' : e'.height ≤ depth) :
    Concludes (exec depth n) m ((e.value? m.numberOf).map .int) ∧
      (e.value? m.numberOf = none ↔ e.DividesByZero m.numberOf) ∧
      ∀ (c : Written.Comparison) (type : Option String) (t : Token), t.text = spelling c.tag →
        Concludes (exec (depth + 1) (.relational type t n n')) m
          (comparisonOf c (e.value? m.numberOf) (e'.value? m.numberOf)) := by
  have hleft := concludes_whole hn (fun x hx => hvars x (List.mem_append_left _ hx)) hdepth
  refine ⟨hleft, e.value?_eq_none_iff m.numberOf, fun c type t ht => ?_⟩
  show Concludes (runRelational (exec depth) t.text n n') m _
  rw [ht]
  refine hleft.pair (fun m' hkeeps => ?_) fun a b m' => ?_
  · rw [← hkeeps.numberOf]
    exact concludes_whole hn' (fun x hx => hkeeps.holdsWhole (hvars x (List.mem_append_right _ hx)))
      hdepth'
  · rw [relational_int]
    exact .value rfl (.refl m')

/-- The tree of a remainder of variables. -/
def remainderTree (x y : String) : Node :=
  .arithmetic none ⟨.other "%", "%"⟩ (Parser.reference x) (Parser.reference y)

theorem spells_remainderTree (x y : String) :
    (remainderTree x y).Spells (.op .remainder (.var x) (.var y)) :=
  .op none rfl (.var none ⟨.ident, x⟩ false) (.var none ⟨.ident, y⟩ false)

/-- A machine with a large number in `x` and a negative one in `y`. -/
def numbered : Machine :=
  { (default : Machine) with
    scopes := (Scopes.empty.put "y" (.int (-7))).put "x" (.int 1180591620717411303424) }

theorem holdsWhole_numbered : ∀ x ∈ ["x", "y", "y", "z"], numbered.HoldsWhole x := by
  intro x hx v hv
  simp only [List.mem_cons, List.not_mem_nil, or_false] at hx
  rcases hx with rfl | rfl | rfl | rfl
  · exact ⟨1180591620717411303424, (Option.some.inj hv).symm⟩
  · exact ⟨-7, (Option.some.inj hv).symm⟩
  · exact ⟨-7, (Option.some.inj hv).symm⟩
  · cases hv

/-- The large number leaves a negative remainder, which is then negated; the variable `z`, which is
unbound, divides nothing. -/
theorem exec_whole_exact_numbered :
    (∀ x ∈ ["x", "y", "y", "z"], numbered.HoldsWhole x) ∧
      Concludes (exec 3 (.unary none ⟨.minus, "-"⟩ (remainderTree "x" "y"))) numbered
        (some (.int 5)) ∧
      Concludes (exec 4 (.relational none ⟨.lte, "<="⟩
        (.unary none ⟨.minus, "-"⟩ (remainderTree "x" "y")) (remainderTree "y" "z")))
        numbered none := by
  have hnegated : (Node.unary none ⟨.minus, "-"⟩ (remainderTree "x" "y")).Spells
      (.neg (.op .remainder (.var "x") (.var "y"))) := .neg none rfl (spells_remainderTree "x" "y")
  have hexact := exec_whole_exact hnegated (spells_remainderTree "y" "z") holdsWhole_numbered
    (Nat.le_refl 3) (Nat.le_succ 2)
  exact ⟨holdsWhole_numbered, hexact.1, hexact.2.2 .lte none ⟨.lte, "<="⟩ rfl⟩

end SeqPar
