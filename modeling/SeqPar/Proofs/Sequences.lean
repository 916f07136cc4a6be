import SeqPar.Proofs.ReadExpr
import SeqPar.Proofs.Slashes

/-!
# Sequences of operands

A sequence is a row of literals, variables and sequences in parentheses, with an operator between
each two neighbours.  It says nothing about grouping.  The grouping comes from adding one operator
and operand after the other at the right end of a tree, each below the operators that bind weaker;
in the tree so built an operator never has a weaker one on its left, nor one that binds no stronger
on its right, and the operands and operators stand in the order in which they were written.

The parser of sums gives this tree exactly if no slash of the sequence stands right behind a number.
Where one does, the number takes it and a quotient is missing from the tree, whatever is read after
it.

## Main definitions

* `Operand`, `Sequence` — sequences, with their tokens.
* `Expr.extend` — an operator and its right operand added at the end of an expression.
* `Sequence.expr` — the grouped form of a sequence.
* `Expr.LeftGrouped` — operators of one strength are grouped from the left, stronger ones first.
* `Expr.flat` — the tokens of an expression, with no parentheses but its own.

## Main results

* `Sequence.leftGrouped_expr`, `Sequence.flat_expr` — the grouped form of a sequence is grouped from
  the left, and its tokens are those of the sequence.
* `Expr.tokens_eq_flat` — where slashes are free, no further parentheses are needed.
* `expr_sequence_iff` — **the parser of sums reads a sequence as its grouped form if and only if no
  slash stands right behind a number.**
-/

namespace SeqPar.Written

open SeqPar.Parser

/-! ### Sequences -/

mutual

/-- An operand of a sequence. -/
inductive Operand where
  /-- A literal with its text. -/
  | literal (kind : Literal) (text : String)
  /-- A variable. -/
  | var (name : String)
  /-- A sequence in parentheses. -/
  | group (inner : Sequence)

/-- Operands with operators between them. -/
inductive Sequence where
  /-- An operand alone. -/
  | single (operand : Operand)
  /-- A sequence, an operator and one more operand. -/
  | snoc (front : Sequence) (op : BinaryOp) (last : Operand)

end

mutual

/-- The tokens of an operand. -/
def Operand.tokens : Operand → List Token
  | .literal kind text => [⟨kind.tag, text⟩]
  | .var name => [named name]
  | .group inner => parens inner.tokens

/-- The tokens of a sequence. -/
def Sequence.tokens : Sequence → List Token
  | .single operand => operand.tokens
  | .snoc front op last => front.tokens ++ mark op.tag :: last.tokens

end

/-! ### Grouping -/

theorem BinaryOp.strength_le_one (op : BinaryOp) : op.strength ≤ 1 := by
  cases op <;> decide

namespace Expr

/-- Operators of the same strength are grouped from the left, and stronger ones before weaker. -/
inductive LeftGrouped : Expr → Prop where
  /-- A literal. -/
  | literal (kind : Literal) (text : String) : LeftGrouped (.literal kind text)
  /-- A variable. -/
  | var (name : String) : LeftGrouped (.var name)
  /-- Parentheses, with their own grouping inside. -/
  | grouped {inner : Expr} (h : LeftGrouped inner) : LeftGrouped (.grouped inner)
  /-- An operation: nothing weaker on its left, only what is stronger on its right. -/
  | binary {op : BinaryOp} {left right : Expr} (hl : LeftGrouped left) (hr : LeftGrouped right)
    (hleft : op.strength ≤ left.strength) (hright : op.strength < right.strength) :
    LeftGrouped (.binary op left right)

/-- The tokens of an expression with its own parentheses only. -/
def flat : Expr → List Token
  | .binary op left right => left.flat ++ mark op.tag :: right.flat
  | .grouped inner => parens inner.flat
  | e => e.tokens

/-- Adds an operator and its right operand at the end of an expression, below the operators that
bind weaker. -/
def extend : Expr → BinaryOp → Expr → Expr
  | .binary o left right, op, last =>
    if o.strength < op.strength then .binary o left (right.extend op last)
    else .binary op (.binary o left right) last
  | e, op, last => .binary op e last

theorem strength_extend (op : BinaryOp) (last e : Expr) :
    (e.extend op last).strength = min e.strength op.strength := by
  have hop := op.strength_le_one
  cases e with
  | binary o left right =>
    rw [extend]
    split
    · simp only [strength]
      omega
    · simp only [strength]
      omega
  | _ =>
    simp only [extend, strength]
    omega

theorem flat_extend (op : BinaryOp) (last : Expr) : ∀ e : Expr,
    (e.extend op last).flat = e.flat ++ mark op.tag :: last.flat
  | .binary o left right => by
    rw [extend]
    split
    · rw [flat, flat_extend op last right, flat, List.append_assoc, List.cons_append]
    · rw [flat]
  | .literal .. | .var .. | .call .. | .unary .. | .grouped .. => rfl

/-- The new operator finds its place: above what binds at least as strong, below what binds
weaker. -/
theorem LeftGrouped.extend {op : BinaryOp} {e last : Expr} (he : e.LeftGrouped)
    (hlast : last.LeftGrouped) (hstrong : op.strength < last.strength) :
    (e.extend op last).LeftGrouped := by
  have hop := op.strength_le_one
  have hle : op.strength ≤ 2 := by omega
  induction he with
  | literal kind text => exact .binary (.literal kind text) hlast hle hstrong
  | var name => exact .binary (.var name) hlast hle hstrong
  | grouped h _ => exact .binary (.grouped h) hlast hle hstrong
  | @binary o left right hl hr hleft hright _ ih =>
    rw [Expr.extend]
    split
    · next hweak =>
      refine .binary hl ih hleft ?_
      rw [strength_extend]
      omega
    · next hweak =>
      refine .binary (.binary hl hr hleft hright) hlast ?_ hstrong
      simp only [strength]
      omega

/-! ### Slashes of grouped expressions -/

/-- Some tokens with a free slash behind them do not end in a number. -/
theorem endsInNumber_of_freeSlashes {ts : List Token} {gs : List Tag}
    (h : FreeSlashes (ts.map Token.tag ++ .divide :: gs)) : endsInNumber ts = false := by
  obtain ⟨-, -, hjoin⟩ := List.isChain_append.mp h
  cases hlast : ts.getLast? with
  | none => rw [endsInNumber, hlast, Option.any_none]
  | some t =>
    have hfree := hjoin t.tag (by simp [List.getLast?_map, hlast]) .divide (by simp)
    rw [endsInNumber, hlast, Option.any_some, decide_eq_false_iff_not]
    intro htag
    exact hfree ⟨htag, rfl⟩

/-- Where slashes are free, a grouped expression needs no parentheses but its own. -/
theorem tokens_eq_flat {e : Expr} (he : e.LeftGrouped)
    (hfree : FreeSlashes (e.flat.map Token.tag)) : e.tokens = e.flat := by
  induction he with
  | literal kind text => rfl
  | var name => rfl
  | @grouped inner h ih =>
    simp only [flat, parens, List.map_cons, List.map_append] at hfree
    have hinner : FreeSlashes (inner.flat.map Token.tag) :=
      (@FreeSlashes.of_append_cons [] _ _ hfree).of_append
    rw [tokens, flat, ih hinner]
  | @binary op left right hl hr hleft hright ihl ihr =>
    simp only [flat, List.map_append, List.map_cons, mark_tag] at hfree
    have htl : left.tokens = left.flat := ihl hfree.of_append
    have htr : right.tokens = right.flat := ihr hfree.of_append_cons
    -- the left side binds strong enough, and a quotient finds no number at its end
    have hwl : wrapsLeft op left left.tokens = false := by
      rw [wrapsLeft, htl, Bool.or_eq_false_iff, decide_eq_false_iff_not, Bool.and_eq_false_imp,
        decide_eq_true_iff]
      refine ⟨by omega, ?_⟩
      rintro rfl
      exact endsInNumber_of_freeSlashes hfree
    have hwr : wrapsRight op right = false := by
      rw [wrapsRight, decide_eq_false_iff_not]
      omega
    rw [tokens, flat, hwl, hwr, parensIf, parensIf, if_neg (by decide), if_neg (by decide), htl,
      htr]

/-- A grouped expression has a quotient for each of its slashes. -/
theorem quotients_node {e : Expr} (he : e.LeftGrouped) :
    e.node.quotients = slashes (e.flat.map Token.tag) := by
  induction he with
  | literal kind text => cases kind <;> rfl
  | var name => rfl
  | grouped h ih =>
    rw [node, ih, flat, parens, List.map_cons, List.map_append, slashes_cons_of_ne (by decide),
      slashes_append]
    rfl
  | @binary op left right hl hr hleft hright ihl ihr =>
    rw [node, Node.quotients, ihl, ihr, flat, List.map_append, List.map_cons, mark_tag,
      slashes_append]
    by_cases hop : op.tag = .divide
    · rw [if_pos hop, hop, slashes_cons_self]
      omega
    · rw [if_neg hop, slashes_cons_of_ne hop, Nat.zero_add]

end Expr

mutual

/-- The grouped form of an operand. -/
def Operand.expr : Operand → Expr
  | .literal kind text => .literal kind text
  | .var name => .var name
  | .group inner => .grouped inner.expr

/-- The grouped form of a sequence: its operators and operands added one after the other. -/
def Sequence.expr : Sequence → Expr
  | .single operand => operand.expr
  | .snoc front op last => front.expr.extend op last.expr

end

theorem Operand.strength_expr (f : Operand) : f.expr.strength = 2 := by
  cases f <;> rfl

mutual

theorem Operand.leftGrouped_expr : ∀ f : Operand, f.expr.LeftGrouped
  | .literal kind text => .literal kind text
  | .var name => .var name
  | .group inner => .grouped inner.leftGrouped_expr

/-- The grouped form of a sequence is grouped from the left. -/
theorem Sequence.leftGrouped_expr : ∀ s : Sequence, s.expr.LeftGrouped
  | .single operand => operand.leftGrouped_expr
  | .snoc front op last => by
    refine front.leftGrouped_expr.extend last.leftGrouped_expr ?_
    have := op.strength_le_one
    rw [last.strength_expr]
    omega

end

mutual

theorem Operand.flat_expr : ∀ f : Operand, f.expr.flat = f.tokens
  | .literal kind text => rfl
  | .var name => rfl
  | .group inner => by rw [Operand.expr, Expr.flat, inner.flat_expr, Operand.tokens]

/-- The grouped form of a sequence has the tokens of the sequence. -/
theorem Sequence.flat_expr : ∀ s : Sequence, s.expr.flat = s.tokens
  | .single operand => operand.flat_expr
  | .snoc front op last => by
    rw [Sequence.expr, Expr.flat_extend, front.flat_expr, last.flat_expr, Sequence.tokens]

end

/-! ### Reading -/

/-- **The form of a sequence in which operators are grouped from the left, products before sums, has
the operands and operators of the sequence in their order.  The parser of sums, in front of the
sequence and a semicolon, passes over exactly the sequence and gives that form if and only if no
slash stands right behind a number.** -/
theorem expr_sequence_iff (s : Sequence) :
    s.expr.LeftGrouped ∧ s.expr.flat = s.tokens ∧
    ∀ (n : Nat) (us rest : List Located) (line : Int), 4 * s.tokens.length + 2 ≤ n →
      us.map Located.token = s.tokens → frontTag rest = .semicolon →
      (Parser.expr n ⟨us ++ rest, line⟩ = .ok s.expr.node ⟨rest, lastLine line us⟩ ↔
        FreeSlashes (s.tokens.map Token.tag)) := by
  refine ⟨s.leftGrouped_expr, s.flat_expr, fun n us rest line hn hus hrest => ?_⟩
  have htags : tagsOf us = s.tokens.map Token.tag := by rw [← hus, List.map_map]; rfl
  constructor
  · -- the tree has a quotient for every slash, so none of them was taken by a number
    intro h
    rw [← htags]
    refine freeSlashes_of_expr h ?_
    rw [htags, ← s.flat_expr, Expr.quotients_node s.leftGrouped_expr]
  · -- the sequence is how its grouped form is written down
    intro hfree
    rw [← s.flat_expr] at hfree
    have htokens : s.expr.tokens = s.tokens := by
      rw [Expr.tokens_eq_flat s.leftGrouped_expr hfree, s.flat_expr]
    have hreads : Reads (Parser.expr n) s.expr.tokens EndsSum s.expr.node :=
      s.expr.reads_expr (by rwa [htokens])
    refine hreads us rest line (by rw [hus, htokens]) ?_
    rw [hrest]
    exact ⟨⟨by simp, by simp, by simp⟩, by simp, by simp⟩

/-- The tokens of a sequence and a semicolon, on one line. -/
def Sequence.closed (s : Sequence) : List Located :=
  s.tokens.map (⟨·, 1⟩) ++ [⟨mark .semicolon, 1⟩]

/-- The sequence `1 - a / 2 * (b - 3)`. -/
def mixedSequence : Sequence :=
  .snoc (.snoc (.snoc (.single (.literal .number "1")) .sub (.var "a")) .div
    (.literal .number "2")) .mul
    (.group (.snoc (.single (.var "b")) .sub (.literal .number "3")))

theorem expr_mixedSequence :
    frontTag [⟨mark .semicolon, 1⟩] = .semicolon ∧
    FreeSlashes (mixedSequence.tokens.map Token.tag) ∧
    Parser.expr 46 ⟨mixedSequence.closed, 1⟩ =
      .ok (.arithmetic none (mark .minus) (.constant (some "NUMBER") ⟨.number, "1"⟩)
        (.arithmetic none (mark .times)
          (.arithmetic none (mark .divide) (reference "a")
            (.constant (some "NUMBER") ⟨.number, "2"⟩))
          (.arithmetic none (mark .minus) (reference "b")
            (.constant (some "NUMBER") ⟨.number, "3"⟩))))
        ⟨[⟨mark .semicolon, 1⟩], 1⟩ := by
  have hfree : FreeSlashes (mixedSequence.tokens.map Token.tag) := by decide
  refine ⟨rfl, hfree, ?_⟩
  exact ((expr_sequence_iff mixedSequence).2.2 46 _ _ 1 (by decide) rfl rfl).mpr hfree

/-- The quotient `8 / 2`. -/
def quotientOfNumbers : Sequence :=
  .snoc (.single (.literal .number "8")) .div (.literal .number "2")

/-- `8 / 2` is read as the number 8.2. -/
theorem expr_quotientOfNumbers :
    runOn Parser.expr quotientOfNumbers.closed =
      .ok (.ok (.constant (some "NUMBER") ⟨.number, "8.2"⟩) ⟨[⟨mark .semicolon, 1⟩], 1⟩) ∧
    quotientOfNumbers.expr.node =
      .arithmetic none (mark .divide) (.constant (some "NUMBER") ⟨.number, "8"⟩)
        (.constant (some "NUMBER") ⟨.number, "2"⟩) :=
  ⟨rfl, rfl⟩

end SeqPar.Written
