import SeqPar.Proofs.Passing
import SeqPar.Proofs.Written

/-!
# Reading written expressions

The grammar reads sums and products by loops that carry what was read so far, while a written
expression nests its operands on the left.  The two meet in `Legible`: the parser of a product
passes over a written product to its own loop, with the tree of the product as what was read so
far, and the parser of a sum does so with a written sum.

Every parser takes a bound on its depth.  Four times the number of tokens suffices for an
expression, and passing over an expression costs no more than its number of tokens.

## Main definitions

* `Ends`, `EndsProduct`, `EndsSum` — what may stand right after an operand, a product and a sum.
* `Expr.Legible` — the parsers of the three levels read an expression.

## Main results

* `Expr.legible` — **every written expression is legible.**
* `Expr.reads_expr` — the parser of sums reads a written expression and gives its tree.
* `Condition.reads` — the parser of conditions reads a written condition and gives its tree.
-/

namespace SeqPar.Written

open SeqPar.Parser

/-! ### What may follow -/

/-- The tags that may stand right after an operand with the given tokens. -/
def Ends (ts : List Token) (g : Tag) : Prop :=
  g ≠ .lparen ∧ (endsInNumber ts = true → g ≠ .divide)

/-- The tags that may stand right after a product. -/
def EndsProduct (g : Tag) : Prop :=
  g ≠ .lparen ∧ g ≠ .times ∧ g ≠ .divide

/-- The tags that may stand right after a sum. -/
def EndsSum (g : Tag) : Prop :=
  EndsProduct g ∧ g ≠ .plus ∧ g ≠ .minus

theorem EndsProduct.ends {g : Tag} (h : EndsProduct g) (ts : List Token) : Ends ts g :=
  ⟨h.1, fun _ => h.2.2⟩

theorem EndsSum.endsProduct {g : Tag} (h : EndsSum g) : EndsProduct g := h.1

theorem endsInNumber_append {us : List Token} (h : us ≠ []) (ts : List Token) :
    endsInNumber (ts ++ us) = endsInNumber us := by
  rw [endsInNumber, endsInNumber, List.getLast?_append, List.getLast?_eq_some_getLast h,
    Option.some_or]

theorem endsInNumber_cons {us : List Token} (h : us ≠ []) (t : Token) :
    endsInNumber (t :: us) = endsInNumber us :=
  endsInNumber_append h [t]

theorem Ends.of_append {ts us : List Token} {g : Tag} (hus : us ≠ []) (h : Ends (ts ++ us) g) :
    Ends us g := by
  rwa [Ends, endsInNumber_append hus] at h

theorem Ends.of_cons {t : Token} {us : List Token} {g : Tag} (hus : us ≠ [])
    (h : Ends (t :: us) g) : Ends us g :=
  @Ends.of_append [t] us g hus h

theorem endsInNumber_parens (ts : List Token) : endsInNumber (parens ts) = false := by
  rw [parens, endsInNumber_cons (by simp), endsInNumber_append (by simp)]
  rfl

@[simp] theorem length_parens (ts : List Token) : (parens ts).length = ts.length + 2 := by
  simp [parens]

theorem parensIf_ne_nil {b : Bool} {ts : List Token} (h : ts ≠ []) : parensIf b ts ≠ [] := by
  cases b with
  | true => simp [parensIf, parens]
  | false => simpa [parensIf] using h

theorem length_le_parensIf (b : Bool) (ts : List Token) :
    ts.length ≤ (parensIf b ts).length := by
  cases b <;> simp [parensIf]

/-! ### The loops stop -/

theorem termAfter_reads_nil (k : Nat) (left : Node) :
    Reads (termAfter (k + 1) left) [] EndsProduct left := by
  rw [termAfter]
  refine Passes.peek_nil fun t ht => ?_
  split
  · next h => exact absurd h ht.2.1
  · next h => exact absurd h ht.2.2
  · exact Reads.pure left _

theorem exprAfter_reads_nil (k : Nat) (left : Node) :
    Reads (exprAfter (k + 1) left) [] EndsSum left := by
  rw [exprAfter]
  refine Passes.peek_nil fun t ht => ?_
  split
  · next h => exact absurd h ht.2.1
  · next h => exact absurd h ht.2.2
  · exact Reads.pure left _

theorem argsAfter_reads_nil (k : Nat) (args : List Node) :
    Reads (argsAfter (k + 1) args) [] (· = .rparen) args := by
  rw [argsAfter]
  refine Passes.peekTag_bind fun g hg => ?_
  rw [leadTag_nil, hg, if_neg (by decide)]
  exact Reads.pure args _

-- The equations of the parsers that several lemmas unfold are proved here, once for all of them.
attribute [local simp] Parser.factor

namespace Expr

theorem tokens_ne_nil (e : Expr) : e.tokens ≠ [] := by
  cases e <;> simp [tokens, parens]

theorem length_tokens_pos (e : Expr) : 0 < e.tokens.length :=
  List.length_pos_iff.mpr e.tokens_ne_nil

/-- The tags that start an expression. -/
def Opens (g : Tag) : Prop :=
  g = .number ∨ g = .string ∨ g = .bool ∨ g = .ident ∨ g = .not ∨ g = .minus ∨ g = .lparen

theorem opens_parensIf {b : Bool} {ts : List Token} {g : Tag} (h : Opens (leadTag g ts)) :
    Opens (leadTag g (parensIf b ts)) := by
  cases b with
  | true => simp [parensIf, parens, Opens]
  | false => exact h

theorem opens : ∀ (e : Expr) (g : Tag), Opens (leadTag g e.tokens)
  | .literal kind text, g => by cases kind <;> simp [tokens, Literal.tag, Opens]
  | .var name, g => by simp [tokens, Opens]
  | .call name args, g => by simp [tokens, Opens]
  | .binary op left right, g => by
    rw [tokens, leadTag_append]
    exact opens_parensIf (left.opens _)
  | .unary op operand, g => by cases op <;> simp [tokens, UnaryOp.tag, Opens]
  | .grouped inner, g => by simp [tokens, parens, Opens]

theorem leadTag_ne {t : Tag} (ht : ¬ Opens t) (e : Expr) (g : Tag) : leadTag g e.tokens ≠ t :=
  fun h => ht (h ▸ e.opens g)

theorem strength_le (e : Expr) : e.strength ≤ 2 := by
  cases e with
  | binary op left right => cases op <;> simp [strength, BinaryOp.strength]
  | _ => exact Nat.le_refl 2

/-- The parsers of the three levels read an expression.  The ones of products and sums leave the
end of the expression to their loops, since an operand on its right may still belong to it. -/
structure Legible (e : Expr) : Prop where
  /-- The parser of factors reads it, unless it is a sum or product. -/
  factor : e.strength = 2 → ∀ n, 4 * e.tokens.length ≤ n →
    Reads (Parser.factor n) e.tokens (Ends e.tokens) e.node
  /-- The parser of products passes over it, unless it is a sum. -/
  term : 1 ≤ e.strength → ∀ n, 4 * e.tokens.length + 1 ≤ n →
    ∃ k, n ≤ k + e.tokens.length ∧
      Passes (Parser.term n) e.tokens (Ends e.tokens) (termAfter k e.node)
  /-- The parser of sums passes over it. -/
  expr : ∀ n, 4 * e.tokens.length + 2 ≤ n →
    ∃ k, n ≤ k + e.tokens.length ∧ Passes (Parser.expr n) e.tokens EndsProduct (exprAfter k e.node)

namespace Legible

variable {e : Expr}

theorem reads_expr (h : e.Legible) {n : Nat} (hn : 4 * e.tokens.length + 2 ≤ n) :
    Reads (Parser.expr n) e.tokens EndsSum e.node := by
  obtain ⟨k, hk, hpass⟩ := h.expr n hn
  obtain ⟨k, rfl⟩ : ∃ j, k = j + 1 := ⟨k - 1, by have := e.length_tokens_pos; omega⟩
  have := hpass.trans (exprAfter_reads_nil k e.node) fun g hg => hg.endsProduct
  rwa [List.append_nil] at this

/-- In parentheses every expression is a factor. -/
theorem reads_parens (h : e.Legible) {n : Nat} (hn : 4 * (parens e.tokens).length ≤ n)
    (next : Tag → Prop) : Reads (Parser.factor n) (parens e.tokens) next e.node := by
  rw [length_parens] at hn
  obtain ⟨n, rfl⟩ : ∃ j, n = j + 1 := ⟨n - 1, by omega⟩
  rw [Parser.factor, parens]
  refine Passes.peek_cons (Passes.advance_cons ?_)
  refine (h.reads_expr (by omega)).bind (Passes.accept_cons rfl (Reads.pure _ _)) ?_
  intro g _
  exact ⟨⟨by simp, by simp, by simp⟩, by simp, by simp⟩

theorem reads_factor_parensIf (h : e.Legible) {b : Bool} (hb : b = false → e.strength = 2)
    {n : Nat} (hn : 4 * (parensIf b e.tokens).length ≤ n) :
    Reads (Parser.factor n) (parensIf b e.tokens) (Ends (parensIf b e.tokens)) e.node := by
  cases b with
  | true => exact h.reads_parens hn _
  | false => exact h.factor (hb rfl) n hn

/-- An operand of a product on the left: a factor in parentheses, or a product itself. -/
theorem passes_term_parensIf (h : e.Legible) {b : Bool} (hb : b = false → 1 ≤ e.strength)
    {n : Nat} (hn : 4 * (parensIf b e.tokens).length + 1 ≤ n) :
    ∃ k, n ≤ k + (parensIf b e.tokens).length ∧
      Passes (Parser.term n) (parensIf b e.tokens) (Ends (parensIf b e.tokens))
        (termAfter k e.node) := by
  cases b with
  | false => exact h.term (hb rfl) n hn
  | true =>
    obtain ⟨n, rfl⟩ : ∃ j, n = j + 1 := ⟨n - 1, by omega⟩
    refine ⟨n, by simp [parensIf], ?_⟩
    rw [Parser.term]
    have hparens := h.reads_parens (n := n) (by simp [parensIf] at hn ⊢; omega)
    exact (hparens _).bind_last (fun _ hg => hg) (Passes.refl _ _)

/-- An operand of a sum on the right: a factor in parentheses, or a product. -/
theorem reads_term_parensIf (h : e.Legible) {b : Bool} (hb : b = false → 1 ≤ e.strength)
    {n : Nat} (hn : 4 * (parensIf b e.tokens).length + 1 ≤ n) :
    Reads (Parser.term n) (parensIf b e.tokens) EndsProduct e.node := by
  obtain ⟨k, hk, hpass⟩ := h.passes_term_parensIf hb hn
  have hlen := length_le_parensIf b e.tokens
  obtain ⟨k, rfl⟩ : ∃ j, k = j + 1 := ⟨k - 1, by have := e.length_tokens_pos; omega⟩
  have := hpass.trans (termAfter_reads_nil k e.node) fun g hg => hg.ends _
  rwa [List.append_nil] at this

/-- A sum is legible when the parser of sums passes over it. -/
theorem of_expr (hs : e.strength = 0) (h : ∀ n, 4 * e.tokens.length + 2 ≤ n →
    ∃ k, n ≤ k + e.tokens.length ∧
      Passes (Parser.expr n) e.tokens EndsProduct (exprAfter k e.node)) : e.Legible where
  factor := fun hs' => by omega
  term := fun hs' => by omega
  expr := h

/-- A product is legible when the parser of products passes over it. -/
theorem of_term (hs : e.strength = 1) (h : ∀ n, 4 * e.tokens.length + 1 ≤ n →
    ∃ k, n ≤ k + e.tokens.length ∧
      Passes (Parser.term n) e.tokens (Ends e.tokens) (termAfter k e.node)) : e.Legible where
  factor := fun hs' => by omega
  term := fun _ => h
  expr := by
    intro n hn
    obtain ⟨n, rfl⟩ : ∃ j, n = j + 1 := ⟨n - 1, by omega⟩
    obtain ⟨k, hk, hpass⟩ := h n (by omega)
    have hpos := e.length_tokens_pos
    obtain ⟨k, rfl⟩ : ∃ j, k = j + 1 := ⟨k - 1, by omega⟩
    have hterm : Reads (Parser.term n) e.tokens EndsProduct e.node := by
      have := hpass.trans (termAfter_reads_nil k e.node) fun g hg => hg.ends e.tokens
      rwa [List.append_nil] at this
    refine ⟨n, by omega, ?_⟩
    rw [Parser.expr]
    exact hterm.bind_last (fun _ hg => hg) (Passes.refl _ _)

/-- An expression that is no sum or product is legible when the parser of factors reads it. -/
theorem of_factor (h : ∀ n, 4 * e.tokens.length ≤ n →
    Reads (Parser.factor n) e.tokens (Ends e.tokens) e.node) : e.Legible where
  factor := fun _ => h
  term := by
    intro _ n hn
    have hpos := e.length_tokens_pos
    obtain ⟨n, rfl⟩ : ∃ j, n = j + 1 := ⟨n - 1, by omega⟩
    refine ⟨n, by omega, ?_⟩
    rw [Parser.term]
    exact (h n (by omega)).bind_last (fun _ hg => hg) (Passes.refl _ _)
  expr := by
    intro n hn
    have hpos := e.length_tokens_pos
    obtain ⟨n, rfl⟩ : ∃ j, n = j + 2 := ⟨n - 2, by omega⟩
    obtain ⟨m, rfl⟩ : ∃ j, n = j + 1 := ⟨n - 1, by omega⟩
    refine ⟨m + 2, by omega, ?_⟩
    rw [Parser.expr, Parser.term, bind_assoc]
    refine (h (m + 1) (by omega)).bind_last (fun g hg => EndsProduct.ends hg e.tokens) ?_
    exact (termAfter_reads_nil m e.node).bind_last (fun _ hg => hg) (Passes.refl _ _)

end Legible

/-! ### Operations -/

/-- The loop of products takes an operator and its right operand, and goes on with the product. -/
theorem termAfter_passes {op : BinaryOp} (hop : op.strength = 1) {right : Expr}
    (hr : right.Legible) {c : Bool} (hc : c = false → right.strength = 2) {n : Nat}
    (hn : 4 * (parensIf c right.tokens).length ≤ n) (left : Node) :
    Passes (termAfter (n + 1) left) (mark op.tag :: parensIf c right.tokens)
      (Ends (parensIf c right.tokens))
      (termAfter n (.arithmetic none (mark op.tag) left right.node)) := by
  have hoperand := hr.reads_factor_parensIf hc hn
  rw [termAfter]
  refine Passes.peek_cons ?_
  cases op with
  | add => cases hop
  | sub => cases hop
  | mul => exact Passes.advance_cons (hoperand.bind_last (fun _ hg => hg) (Passes.refl _ _))
  | div => exact Passes.advance_cons (hoperand.bind_last (fun _ hg => hg) (Passes.refl _ _))

/-- The loop of sums takes an operator and its right operand, and goes on with the sum. -/
theorem exprAfter_passes {op : BinaryOp} (hop : op.strength = 0) {right : Expr}
    (hr : right.Legible) {c : Bool} (hc : c = false → 1 ≤ right.strength) {n : Nat}
    (hn : 4 * (parensIf c right.tokens).length + 1 ≤ n) (left : Node) :
    Passes (exprAfter (n + 1) left) (mark op.tag :: parensIf c right.tokens) EndsProduct
      (exprAfter n (.arithmetic none (mark op.tag) left right.node)) := by
  have hoperand := hr.reads_term_parensIf hc hn
  rw [exprAfter]
  refine Passes.peek_cons ?_
  cases op with
  | add => exact Passes.advance_cons (hoperand.bind_last (fun _ hg => hg) (Passes.refl _ _))
  | sub => exact Passes.advance_cons (hoperand.bind_last (fun _ hg => hg) (Passes.refl _ _))
  | mul => cases hop
  | div => cases hop

theorem endsInNumber_parensIf_left {op : BinaryOp} {left : Expr} (hop : op = .div) :
    endsInNumber (parensIf (wrapsLeft op left left.tokens) left.tokens) = false := by
  cases hw : wrapsLeft op left left.tokens with
  | true => exact endsInNumber_parens left.tokens
  | false =>
    simp only [wrapsLeft, hop, decide_true, Bool.true_and, Bool.or_eq_false_iff] at hw
    exact hw.2

theorem legible_product {op : BinaryOp} (hop : op.strength = 1) {left right : Expr}
    (hl : left.Legible) (hr : right.Legible) : (binary op left right).Legible := by
  refine Legible.of_term hop fun n hn => ?_
  have hwl : wrapsLeft op left left.tokens = false → 1 ≤ left.strength := by
    intro hw
    simp only [wrapsLeft, hop, Bool.or_eq_false_iff, decide_eq_false_iff_not] at hw
    omega
  have hwr : wrapsRight op right = false → right.strength = 2 := by
    intro hw
    simp only [wrapsRight, hop, decide_eq_false_iff_not] at hw
    have := right.strength_le
    omega
  have hne := parensIf_ne_nil (b := wrapsRight op right) right.tokens_ne_nil
  have hpos := List.length_pos_iff.mpr hne
  simp only [tokens, node, List.length_append, List.length_cons] at hn ⊢
  obtain ⟨k, hk, hpass⟩ := hl.passes_term_parensIf hwl (n := n) (by omega)
  obtain ⟨k, rfl⟩ : ∃ j, k = j + 1 := ⟨k - 1, by omega⟩
  refine ⟨k, by omega, ?_⟩
  refine (hpass.trans (termAfter_passes hop hr hwr (by omega) left.node) ?_).weaken ?_
  · -- the operator may follow the left operand: a quotient does not end its left side in a number
    intro g _
    refine ⟨?_, fun hnum hdiv => ?_⟩
    · cases op <;> simp [BinaryOp.tag]
    · have hop' : op = .div := by cases op <;> simp_all [BinaryOp.tag]
      rw [endsInNumber_parensIf_left hop'] at hnum
      cases hnum
  · intro g hg
    exact Ends.of_cons hne (Ends.of_append (by simp) hg)

theorem legible_sum {op : BinaryOp} (hop : op.strength = 0) {left right : Expr}
    (hl : left.Legible) (hr : right.Legible) : (binary op left right).Legible := by
  refine Legible.of_expr hop fun n hn => ?_
  have hwl : wrapsLeft op left left.tokens = false := by
    cases op <;> simp_all [wrapsLeft, BinaryOp.strength]
  have hwr : wrapsRight op right = false → 1 ≤ right.strength := by
    intro hw
    simp only [wrapsRight, hop, decide_eq_false_iff_not] at hw
    omega
  have hpos := List.length_pos_iff.mpr
    (parensIf_ne_nil (b := wrapsRight op right) right.tokens_ne_nil)
  have hleft : parensIf false left.tokens = left.tokens := rfl
  simp only [tokens, node, List.length_append, List.length_cons, hwl, hleft] at hn ⊢
  obtain ⟨k, hk, hpass⟩ := hl.expr n (by omega)
  obtain ⟨k, rfl⟩ : ∃ j, k = j + 1 := ⟨k - 1, by omega⟩
  refine ⟨k, by omega, ?_⟩
  refine hpass.trans (exprAfter_passes hop hr hwr (by omega) left.node) fun g _ => ?_
  cases op <;> simp_all [BinaryOp.tag, BinaryOp.strength, EndsProduct]

theorem legible_unary {op : UnaryOp} {operand : Expr} (h : operand.Legible) :
    (unary op operand).Legible := by
  refine Legible.of_factor fun n hn => ?_
  have hw : decide (operand.strength < 2) = false → operand.strength = 2 := by
    intro hw
    have := operand.strength_le
    simp only [decide_eq_false_iff_not] at hw
    omega
  simp only [tokens, node, List.length_cons] at hn ⊢
  obtain ⟨n, rfl⟩ : ∃ j, n = j + 1 := ⟨n - 1, by omega⟩
  have hne := parensIf_ne_nil (b := decide (operand.strength < 2)) operand.tokens_ne_nil
  have hoperand := h.reads_factor_parensIf hw (n := n) (by omega)
  rw [Parser.factor]
  refine Passes.peek_cons ?_
  cases op with
  | not =>
    refine Passes.advance_cons (hoperand.bind_last (fun _ hg => hg.of_cons hne) ?_)
    exact Reads.pure _ _
  | neg =>
    refine Passes.advance_cons (hoperand.bind_last (fun _ hg => hg.of_cons hne) ?_)
    exact Reads.pure _ _

/-! ### Factors without operators -/

theorem legible_literal (kind : Literal) (text : String) : (literal kind text).Legible := by
  refine Legible.of_factor fun n hn => ?_
  simp only [tokens, node, List.length_cons, List.length_nil] at hn ⊢
  obtain ⟨n, rfl⟩ : ∃ j, n = j + 1 := ⟨n - 1, by omega⟩
  rw [Parser.factor]
  refine Passes.peek_cons ?_
  cases kind with
  | number =>
    refine Passes.advance_cons (Passes.peekTag_bind fun g hg => ?_)
    rw [leadTag_nil, if_neg (hg.2 rfl)]
    exact Reads.pure _ _
  | string => exact Passes.advance_cons (Reads.pure _ _)
  | bool => exact Passes.advance_cons (Reads.pure _ _)

theorem legible_var (name : String) : (var name).Legible := by
  refine Legible.of_factor fun n hn => ?_
  simp only [tokens, node, List.length_cons, List.length_nil] at hn ⊢
  obtain ⟨n, rfl⟩ : ∃ j, n = j + 1 := ⟨n - 1, by omega⟩
  rw [Parser.factor]
  -- In front of a parenthesis the name would be that of a call.
  refine Passes.peek_cons (Passes.advance_cons (Passes.peekTag_bind fun g hg => ?_))
  rw [leadTag_nil, if_neg hg.1]
  exact Reads.pure _ _

theorem legible_grouped {inner : Expr} (h : inner.Legible) : (grouped inner).Legible := by
  refine Legible.of_factor fun n hn => ?_
  simp only [tokens, node] at hn ⊢
  exact h.reads_parens hn _

/-! ### Calls -/

theorem argsAfter_passes (args : List Expr) (h : ∀ e ∈ args, e.Legible) (done : List Node)
    {n : Nat} (hn : 4 * (moreArgTokens args).length + 1 ≤ n) :
    Reads (argsAfter n done) (moreArgTokens args) (· = .rparen) (done ++ nodes args) := by
  induction args generalizing n done with
  | nil =>
    obtain ⟨n, rfl⟩ : ∃ j, n = j + 1 := ⟨n - 1, by omega⟩
    rw [nodes, List.append_nil]
    exact argsAfter_reads_nil n done
  | cons e es ih =>
    simp only [moreArgTokens, List.length_cons, List.length_append] at hn
    have hpos := e.length_tokens_pos
    obtain ⟨n, rfl⟩ : ∃ j, n = j + 1 := ⟨n - 1, by omega⟩
    have hfirst := (h e List.mem_cons_self).reads_expr (n := n) (by omega)
    have hrest := ih (fun e he => h e (List.mem_cons_of_mem _ he)) (done ++ [e.node]) (n := n)
      (by omega)
    rw [List.append_assoc, List.singleton_append] at hrest
    rw [argsAfter, moreArgTokens, nodes]
    refine Passes.peekTag_cons (Passes.advance_cons (hfirst.bind hrest fun g hg => ?_))
    subst hg
    cases es <;> simp [moreArgTokens, EndsSum, EndsProduct]

theorem argList_reads (args : List Expr) (h : ∀ e ∈ args, e.Legible) {n : Nat}
    (hn : 4 * (argTokens args).length + 4 ≤ n) (next : Tag → Prop) :
    Reads (argList n) (mark .lparen :: (argTokens args ++ [mark .rparen])) next (nodes args) := by
  obtain ⟨n, rfl⟩ : ∃ j, n = j + 1 := ⟨n - 1, by omega⟩
  rw [argList]
  refine Passes.accept_cons rfl ?_
  cases args with
  | nil =>
    exact Passes.peekTag_cons (Passes.accept_cons rfl (Reads.pure _ _))
  | cons e es =>
    simp only [argTokens, List.length_append] at hn
    have hpos := e.length_tokens_pos
    have hfirst := (h e List.mem_cons_self).reads_expr (n := n) (by omega)
    have hrest := argsAfter_passes es (fun e he => h e (List.mem_cons_of_mem _ he)) [e.node]
      (n := n) (by omega)
    refine Passes.peekTag_bind fun g hg => ?_
    rw [argTokens, List.append_assoc, leadTag_append, if_neg (leadTag_ne (by simp [Opens]) e _)]
    refine hfirst.bind (hrest.bind (Passes.accept_cons rfl (Reads.pure _ _)) fun _ _ => rfl) ?_
    intro g _
    cases es <;> simp [moreArgTokens, EndsSum, EndsProduct]

theorem legible_call {name : String} {args : List Expr} (h : ∀ e ∈ args, e.Legible) :
    (call name args).Legible := by
  refine Legible.of_factor fun n hn => ?_
  simp only [tokens, node, List.length_cons, List.length_append, List.length_nil] at hn ⊢
  obtain ⟨n, rfl⟩ : ∃ j, n = j + 1 := ⟨n - 1, by omega⟩
  have hargs := argList_reads args h (n := n) (by omega)
  rw [Parser.factor]
  refine Passes.peek_cons (Passes.advance_cons (Passes.peekTag_cons ?_))
  exact (hargs _).bind_last (fun _ hg => hg) (Reads.pure _ _)

/-! ### All expressions -/

mutual

/-- **Every written expression is legible.** -/
theorem legible : ∀ e : Expr, e.Legible
  | .literal kind text => legible_literal kind text
  | .var name => legible_var name
  | .call _ args => legible_call (legible_of_mem args)
  | .binary .add left right => legible_sum rfl left.legible right.legible
  | .binary .sub left right => legible_sum rfl left.legible right.legible
  | .binary .mul left right => legible_product rfl left.legible right.legible
  | .binary .div left right => legible_product rfl left.legible right.legible
  | .unary _ operand => legible_unary operand.legible
  | .grouped inner => legible_grouped inner.legible

theorem legible_of_mem : ∀ (args : List Expr), ∀ e ∈ args, e.Legible
  | [] => fun _ h => by cases h
  | e :: es => List.forall_mem_cons.mpr ⟨e.legible, legible_of_mem es⟩

end

/-- The parser of sums reads a written expression and gives its tree. -/
theorem reads_expr (e : Expr) {n : Nat} (hn : 4 * e.tokens.length + 2 ≤ n) :
    Reads (Parser.expr n) e.tokens EndsSum e.node :=
  e.legible.reads_expr hn

@[simp] theorem node_leading (e : Expr) : e.leading.node = e.node := by
  rw [leading]
  split
  · rw [node]
  · rfl

theorem leadTag_leading_ne_not (e : Expr) (g : Tag) : leadTag g e.leading.tokens ≠ .not := by
  rw [leading]
  split
  · simp [tokens, parens]
  · next h =>
    cases hts : e.tokens with
    | nil => exact absurd hts e.tokens_ne_nil
    | cons t ts =>
      simp only [hts, startsWithNot, List.head?_cons, Option.any_some, decide_eq_true_eq] at h
      exact h

end Expr

/-! ### Conditions -/

/-- The tags that may stand right after a test. -/
def EndsTest (g : Tag) : Prop :=
  EndsSum g ∧ isComparison g = false

/-- The tags that may stand right after a condition. -/
def EndsCondition (g : Tag) : Prop :=
  EndsTest g ∧ isConnective g = false

theorem connected_reads_nil (k : Nat) (left : Node) :
    Reads (connected (k + 1) left) [] EndsCondition left := by
  rw [connected]
  refine Passes.peek_nil fun t ht => ?_
  rw [if_neg (by simp [ht.2])]
  exact Reads.pure left _

theorem Comparison.isComparison_tag (op : Comparison) : isComparison op.tag = true := by
  cases op <;> rfl

theorem Comparison.endsSum_tag (op : Comparison) : EndsSum op.tag := by
  cases op <;> simp [Comparison.tag, EndsSum, EndsProduct]

theorem Connective.isConnective_tag (op : Connective) : isConnective op.tag = true := by
  cases op <;> rfl

theorem Connective.endsTest_tag (op : Connective) : EndsTest op.tag := by
  cases op <;> simp [Connective.tag, EndsTest, EndsSum, EndsProduct, isComparison]

theorem Test.leadTag_ne_not (t : Test) (g : Tag) : leadTag g t.tokens ≠ .not := by
  cases t with
  | plain e => exact e.leadTag_leading_ne_not g
  | compare op left right =>
    rw [Test.tokens, leadTag_append]
    exact left.leadTag_leading_ne_not _

/-- The parser of conditions takes a test and goes on with its connectives. -/
theorem Test.passes (t : Test) {n : Nat} (hn : 4 * t.tokens.length + 2 ≤ n) :
    Passes (exprBool (n + 1)) t.tokens EndsTest (connected n t.node) := by
  rw [exprBool]
  -- A condition that starts with `!` is rejected, which is why a test never starts with one.
  refine Passes.peekTag_bind fun g _ => ?_
  rw [if_neg (t.leadTag_ne_not g)]
  cases t with
  | plain e =>
    have hfirst := e.leading.reads_expr (n := n) hn
    rw [Expr.node_leading] at hfirst
    refine hfirst.bind_last (fun g hg => hg.1) (Passes.peek_nil fun t ht => ?_)
    rw [if_neg (by simp [ht.2])]
    exact Passes.refl _ _
  | compare op left right =>
    simp only [Test.tokens, List.length_append, List.length_cons] at hn ⊢
    have hfirst := left.leading.reads_expr (n := n) (by omega)
    have hsecond := right.reads_expr (n := n) (by omega)
    rw [Expr.node_leading] at hfirst
    refine hfirst.bind (Passes.peek_cons ?_) fun _ _ => op.endsSum_tag
    rw [mark_tag, if_pos op.isComparison_tag]
    exact Passes.advance_cons (hsecond.bind_last (fun _ hg => hg.1) (Passes.refl _ _))

/-- **The parser of conditions reads a written condition and gives its tree.** -/
theorem Condition.reads (c : Condition) {n : Nat} (hn : 4 * c.tokens.length + 4 ≤ n) :
    Reads (exprBool n) c.tokens EndsCondition c.node := by
  induction c generalizing n with
  | test t =>
    obtain ⟨n, rfl⟩ : ∃ j, n = j + 2 := ⟨n - 2, by omega⟩
    have := (t.passes (n := n + 1) (by simp only [Condition.tokens] at hn; omega)).trans
      (connected_reads_nil n t.node) fun g hg => hg.1
    rwa [List.append_nil] at this
  | chain t op rest ih =>
    simp only [Condition.tokens, List.length_append, List.length_cons] at hn ⊢
    obtain ⟨n, rfl⟩ : ∃ j, n = j + 3 := ⟨n - 3, by omega⟩
    -- The right side takes all later connectives, so that chains nest to the right.
    have hrest := ih (n := n + 1) (by omega)
    refine (t.passes (n := n + 2) (by omega)).trans ?_ fun _ _ => op.endsTest_tag
    rw [connected]
    refine Passes.peek_cons ?_
    rw [mark_tag, if_pos op.isConnective_tag]
    exact Passes.advance_cons (hrest.bind_last (fun _ hg => hg) (connected_reads_nil n _))

end SeqPar.Written
