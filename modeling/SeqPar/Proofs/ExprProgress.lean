import SeqPar.Proofs.Settling

/-!
# Progress in expressions

Reading an expression never fails and consumes a token wherever one is ahead: a token that starts no
expression is passed over.  Reading a condition may fail.

The loops of the grammar that read operands with operators between them are chains, so each of them
settles by `chain_keeps`.

## Main results

* `factor_settles`, `term_settles`, `expr_settles`, `argList_settles` — **expressions and arguments
  are  read whatever stands there**, and a token is consumed.
* `condition_keeps` — conditions settle.
-/

namespace SeqPar.Parser

variable {spent : Prop} {n m : Nat} {ts : List Located}

/-! ### The loops of the grammar as chains -/

theorem peekTag_bind {α : Type} (f : Tag → Parser α) :
    (peekTag >>= f) = (peek >>= fun t => f t.tag) :=
  rfl

/-- The operators of sums. -/
def isSumOperator (tag : Tag) : Bool :=
  tag == .plus || tag == .minus

/-- The operators of products. -/
def isProductOperator (tag : Tag) : Bool :=
  tag == .times || tag == .divide

/-- An operation on two operands. -/
def operation (left : Node) (op : Token) (right : Node) : Node :=
  .arithmetic none op left right

theorem exprAfter_eq (n : Nat) (left : Node) :
    exprAfter n left = chain isSumOperator term operation n left := by
  induction n generalizing left with
  | zero => rw [exprAfter, chain]
  | succ n ih =>
    rw [exprAfter, chain]
    refine bind_congr fun op => ?_
    split
    · next htag => simp [htag, isSumOperator, ih, operation]
    · next htag => simp [htag, isSumOperator, ih, operation]
    · next hplus hminus =>
      have hnot : isSumOperator op.tag = false := by
        simpa [isSumOperator] using And.intro hplus hminus
      simp [hnot]

theorem termAfter_eq (n : Nat) (left : Node) :
    termAfter n left = chain isProductOperator factor operation n left := by
  induction n generalizing left with
  | zero => rw [termAfter, chain]
  | succ n ih =>
    rw [termAfter, chain]
    refine bind_congr fun op => ?_
    split
    · next htag => simp [htag, isProductOperator, ih, operation]
    · next htag => simp [htag, isProductOperator, ih, operation]
    · next htimes hdivide =>
      have hnot : isProductOperator op.tag = false := by
        simpa [isProductOperator] using And.intro htimes hdivide
      simp [hnot]

/-- Whether a tag is that of a comma. -/
def isComma (tag : Tag) : Bool :=
  tag == .comma

theorem argsAfter_eq (n : Nat) (args : List Node) :
    argsAfter n args = chain isComma expr (fun args _ next => args ++ [next]) n args := by
  induction n generalizing args with
  | zero => rw [argsAfter, chain]
  | succ n ih =>
    rw [argsAfter, chain]
    rw [peekTag_bind]
    refine bind_congr fun op => ?_
    simp only [isComma, beq_iff_eq, ih]

theorem connected_eq (n : Nat) (left : Node) :
    connected n left = chain isConnective exprBool
      (fun left op right => .logical (some "BOOL") op left right) n left := by
  induction n generalizing left with
  | zero => rw [connected, chain]
  | succ n ih =>
    rw [connected, chain]
    refine bind_congr fun op => ?_
    simp only [ih]

theorem paramsAfter_eq (n : Nat) (params : List Node) :
    paramsAfter n params = chain isComma (fun _ => textThen .ident)
      (fun params _ name => params ++ [declared none name]) n params := by
  induction n generalizing params with
  | zero => rw [paramsAfter, chain]
  | succ n ih =>
    rw [paramsAfter, chain]
    rw [peekTag_bind]
    refine bind_congr fun op => ?_
    simp only [isComma, beq_iff_eq, ih]

/-! ### Expressions -/

/-- The arguments of a call behind the opening parenthesis. -/
def argsInside (n : Nat) : Parser (List Node) := do
  if (← peekTag) = .rparen then
    accept .rparen
    return []
  else
    let args ← expr n >>= fun first =>
      chain isComma expr (fun args _ next => args ++ [next]) n [first]
    accept .rparen
    return args

theorem argList_succ (n : Nat) : argList (n + 1) = (do accept .lparen; argsInside n) := by
  simp only [argList, argsInside, argsAfter_eq, bind_assoc]

/-- What is known of factors while the bound is smaller. -/
def FactorsSettle (spent : Prop) (n : Nat) : Prop :=
  ∀ k < n, SettlesWithin spent False 1 k factor

theorem FactorsSettle.of_lt (h : FactorsSettle spent n) (hm : m ≤ n) : FactorsSettle spent m :=
  fun k hk => h k (Nat.lt_of_lt_of_le hk hm)

theorem term_settles_of (h : FactorsSettle spent n) : SettlesWithin spent False 2 n term := by
  refine SettlesWithin.of_succ (by rw [term]) ?_
  rintro n m c rfl hc
  simp only [term, termAfter_eq]
  exact operands_settle rfl (by omega) h hc

theorem expr_settles_of (h : FactorsSettle spent n) : SettlesWithin spent False 3 n expr := by
  refine SettlesWithin.of_succ (by rw [expr]) ?_
  rintro n m c rfl hc
  have hterm : ∀ k < n + 1, SettlesWithin spent False 2 k term := by
    intro k hk
    exact term_settles_of (h.of_lt (Nat.le_of_lt hk))
  simp only [expr, exprAfter_eq]
  exact operands_settle rfl (by omega) hterm hc

theorem argList_settles_of (h : FactorsSettle spent n) :
    SettlesWithin spent False 4 n argList := by
  refine SettlesWithin.of_succ (by rw [argList]) ?_
  rintro n m c rfl hc
  have hexpr : ∀ k < n + 1, SettlesWithin spent False 3 k expr := by
    intro k hk
    exact expr_settles_of (h.of_lt (Nat.le_of_lt hk))
  -- behind the opening parenthesis, if there is one, the lookahead is passed over in any case
  have hinside : ∀ d : Cursor, d.ahead <:+ c.ahead →
      Settles spent False d.ahead d.ahead.tail (argsInside n) (argsInside m) d := by
    intro d hd
    refine Settles.peekTag ?_
    by_cases hclose : d.look.tag = .rparen
    · rw [if_pos hclose, if_pos hclose]
      exact Settles.accept_self hclose (Settles.pure _ d.advance_suffix_tail)
    · rw [if_neg hclose, if_neg hclose]
      refine (operands_settle rfl (by omega) hexpr (hc.mono hd (Nat.le_refl _))).bind ?_
      intro args e he
      exact Settles.accept fun e' he' => Settles.pure _ (he'.trans he)
  rw [argList_succ, argList_succ]
  refine Settles.accept_cases ?_ ?_
  · intro _
    exact (hinside c.advance c.advance_suffix).mono id c.advance_suffix
      ((List.tail_suffix _).trans c.advance_suffix_tail)
  · intro _
    exact hinside c (List.suffix_refl _)

theorem factor_settles_of (h : FactorsSettle spent n) : SettlesWithin spent False 1 n factor := by
  refine SettlesWithin.of_succ (by rw [factor]) ?_
  rintro n m c rfl hc
  have hbelow : FactorsSettle spent n := h.of_lt (Nat.le_succ n)
  -- a token is passed over before every call
  have hafter : c.look.tag ≠ .endOfInput → Covers spent 4 c.ahead.tail n m := by
    intro htag
    exact hc.callAfter htag (by omega)
  have hfactor (htag : c.look.tag ≠ .endOfInput) :
      Keeps spent False c.ahead.tail (factor n) (factor m) :=
    (h n (Nat.lt_succ_self n)).keeps id ((hafter htag).mono (List.suffix_refl _) (by omega))
  have hexpr (htag : c.look.tag ≠ .endOfInput) :
      Keeps spent False c.ahead.tail (expr n) (expr m) :=
    (expr_settles_of hbelow).keeps id ((hafter htag).mono (List.suffix_refl _) (by omega))
  have hargs (htag : c.look.tag ≠ .endOfInput) :
      Keeps spent False c.ahead.tail (argList n) (argList m) :=
    (argList_settles_of hbelow).keeps id (hafter htag)
  rw [factor, factor]
  refine Settles.peek ?_
  split
  all_goals refine Settles.advance (Settles.of_keeps ?_)
  · next htag => exact (hfactor (by simp [htag])).bind fun operand => Keeps.pure _
  · next htag => exact (hfactor (by simp [htag])).bind fun operand => Keeps.pure _
  · next htag => exact (hexpr (by simp [htag])).bind fun inner => Keeps.accept (Keeps.pure _)
  -- the five tags that may be the name of a call
  iterate 5
    next htag =>
      exact Keeps.peekTag fun tag =>
        Keeps.ite ((hargs (by simp [htag])).bind fun args => Keeps.pure _) (Keeps.pure _)
  · refine Keeps.peekTag fun tag => Keeps.ite (Keeps.advance ?_) (Keeps.pure _)
    exact Keeps.peek fun next => Keeps.ite (Keeps.advance (Keeps.pure _)) (Keeps.pure _)
  · exact Keeps.pure _
  · exact Keeps.pure _
  · exact Keeps.pure _

/-- **A factor is read whatever stands there**, and a token is consumed. -/
theorem factor_settles (n : Nat) : SettlesWithin spent False 1 n factor := by
  induction n using Nat.strongRecOn with
  | ind n ih => exact factor_settles_of ih

theorem factorsSettle (n : Nat) : FactorsSettle spent n :=
  fun k _ => factor_settles k

theorem term_settles (n : Nat) : SettlesWithin spent False 2 n term :=
  term_settles_of (factorsSettle n)

theorem expr_settles (n : Nat) : SettlesWithin spent False 3 n expr :=
  expr_settles_of (factorsSettle n)

theorem argList_settles (n : Nat) : SettlesWithin spent False 4 n argList :=
  argList_settles_of (factorsSettle n)

/-! ### Conditions -/

theorem exprBool_keeps_of (h : ∀ k < n, KeepsWithin spent True 4 k exprBool) :
    KeepsWithin spent True 4 n exprBool := by
  refine KeepsWithin.of_succ (by rw [exprBool]) ?_
  rintro n m ts rfl hts
  intro c hc
  have hcovers := hts.mono hc (Nat.le_refl _)
  have hexpr : Keeps spent True ts (expr n) (expr m) :=
    (expr_settles n).keeps False.elim (hts.call (List.suffix_refl _) (Nat.le_refl _))
  have hconnected (left : Node) : Keeps spent True ts (connected n left) (connected m left) := by
    rw [connected_eq, connected_eq]
    refine chain_keeps rfl (fun k hk => ?_) left m ts (hts.call (List.suffix_refl _) (by omega))
    exact (h k (Nat.lt_succ_of_lt hk)).mono (by omega)
  rw [exprBool, exprBool]
  refine Settles.peekTag ?_
  by_cases hnot : c.look.tag = .not
  · rw [if_pos hnot, if_pos hnot]
    have hafter : Covers spent 4 c.ahead.tail n m := hcovers.callAfter (by simp [hnot]) (by omega)
    have hinner := h n (Nat.lt_succ_self n) m _ hafter
    have hrest := hinner.bind fun _ => @Keeps.fail Node _ _ Fault.negatedCondition
    exact Settles.advance ((Settles.of_keeps hrest).mono id hc ((List.tail_suffix _).trans hc))
  · rw [if_neg hnot, if_neg hnot]
    refine hexpr.bind (fun left => Keeps.peek fun op => Keeps.ite (Keeps.advance ?_) ?_) c hc
    · exact hexpr.bind fun right => hconnected _
    · exact hconnected left

theorem exprBool_keeps (n : Nat) : KeepsWithin spent True 4 n exprBool := by
  induction n using Nat.strongRecOn with
  | ind n ih => exact exprBool_keeps_of ih

/-- Conditions settle, in parentheses or not. -/
theorem condition_keeps (hts : Covers spent 4 ts n m) :
    Keeps spent True ts (condition n) (condition m) := by
  have hinner : Keeps spent True ts (exprBool n) (exprBool m) := exprBool_keeps n m ts hts
  rw [condition, condition]
  refine Keeps.peekTag fun tag => Keeps.ite (Keeps.advance ?_) hinner
  exact hinner.bind fun c => Keeps.accept (Keeps.pure c)

end SeqPar.Parser
