import SeqPar.Proofs.ExprProgress
import SeqPar.Proofs.Passing

/-!
# Chains of conditions

A condition is a chain of clauses with connectives between them, and a clause is an expression or a
comparison of two.  The parser of conditions reads the first clause in a way of its own and leaves
the rest to a loop that groups from the left; but the loop asks the parser of conditions for what
stands behind a connective, and that is the whole rest of the chain.  The loop never turns a second
time, and a chain is grouped from the right, whichever connectives it has.

Of the expressions nothing is assumed but that the parser of sums, run on its own, passes over
exactly their tokens.  What it does then does not depend on the bound on its depth nor on the line
it comes from, so it does the same inside a chain.

## Main definitions

* `Arrives` — a parser that comes to a result in front of given tokens.
* `ReadsOff` — the same for a parser that is run on its own.
* `Clause`, `ClauseChain` — clauses and chains of them, with their tokens and trees.

## Main results

* `expr_arrives` — the parser of sums does in any place what it does on its own.
* `clause_step` — the parser of conditions passes over a clause to its loop.
* `exprBool_clauseChain` — **the parser of conditions passes over exactly a chain and groups it from
  the right.**
-/

namespace SeqPar.Parser

variable {α β : Type}

/-! ### Coming to a result -/

/-- From the place `c`, the parser comes to the result `a` in front of `rest`. -/
def Arrives (p : Parser α) (c : Cursor) (a : α) (rest : List Located) : Prop :=
  ∃ d, p c = .ok a d ∧ d.ahead = rest

namespace Arrives

variable {p : Parser α} {c : Cursor} {a : α} {b : β} {t : Located} {ts rest : List Located}

theorem pure (h : c.ahead = rest) : Arrives (pure a) c a rest :=
  ⟨c, rfl, h⟩

theorem bind {f : α → Parser β} (h : Arrives p c a ts)
    (hrest : ∀ d : Cursor, d.ahead = ts → Arrives (f a) d b rest) :
    Arrives (p >>= f) c b rest := by
  obtain ⟨d, hd, hahead⟩ := h
  obtain ⟨e, he, hafter⟩ := hrest d hahead
  refine ⟨e, ?_, hafter⟩
  change EStateM.bind p f c = _
  rw [EStateM.bind, hd]
  exact he

theorem peek {f : Token → Parser β} (h : Arrives (f c.look) c b rest) :
    Arrives (peek >>= f) c b rest :=
  h

theorem peekTag {f : Tag → Parser β} (h : Arrives (f c.look.tag) c b rest) :
    Arrives (peekTag >>= f) c b rest :=
  h

theorem peek_cons {f : Token → Parser β} (hc : c.ahead = t :: ts)
    (h : Arrives (f t.token) c b rest) : Arrives (Parser.peek >>= f) c b rest := by
  have hlook : c.look = t.token := by rw [Cursor.look, hc]
  rw [← hlook] at h
  exact peek h

theorem advance_cons {f : Unit → Parser β} (hc : c.ahead = t :: ts)
    (h : ∀ d : Cursor, d.ahead = ts → Arrives (f ()) d b rest) :
    Arrives (advance >>= f) c b rest :=
  h c.advance (by rw [Cursor.ahead_advance, hc, List.tail_cons])

end Arrives

/-- The parser, run on its own on `us ++ rest`, passes over exactly `us` and gives `a`. -/
def ReadsOff (p : Nat → Parser α) (us rest : List Located) (a : α) : Prop :=
  ∃ d, runOn p (us ++ rest) = .ok (.ok a d) ∧ d.ahead = rest

/-! ### Expressions in any place -/

/-- In front of a token, the parser does the same whatever line it comes from. -/
def IgnoresLine (p : Parser α) : Prop :=
  ∀ t ts line line', p ⟨t :: ts, line⟩ = p ⟨t :: ts, line'⟩

namespace IgnoresLine

theorem peek {f : Token → Parser β} (h : ∀ t, IgnoresLine (f t)) : IgnoresLine (peek >>= f) :=
  fun t ts line line' => h t.token t ts line line'

theorem advance (f : Unit → Parser β) : IgnoresLine (advance >>= f) :=
  fun _ _ _ _ => rfl

theorem bind {p : Parser α} (h : IgnoresLine p) (f : α → Parser β) : IgnoresLine (p >>= f) := by
  intro t ts line line'
  change EStateM.bind p f _ = EStateM.bind p f _
  rw [EStateM.bind, EStateM.bind, h t ts line line']

end IgnoresLine

/-- Every factor passes over its first token, so it does not matter from which line it comes. -/
theorem factor_ignoresLine (n : Nat) : IgnoresLine (factor (n + 1)) := by
  rw [factor]
  refine IgnoresLine.peek fun t => ?_
  split
  all_goals exact IgnoresLine.advance _

theorem expr_ignoresLine (n : Nat) : IgnoresLine (expr (n + 3)) := by
  rw [expr, term]
  exact ((factor_ignoresLine n).bind _).bind _

/-- The parser of sums does in any place what it does on its own. -/
theorem expr_arrives {us rest : List Located} {e : Node} (h : ReadsOff expr us rest e)
    {n : Nat} (hn : 16 * (us ++ rest).length + 3 ≤ n) {c : Cursor} (hc : c.ahead = us ++ rest) :
    Arrives (expr n) c e rest := by
  obtain ⟨d, hrun, hd⟩ := h
  obtain ⟨ahead, line⟩ := c
  dsimp only at hc
  subst hc
  cases hts : us ++ rest with
  | nil =>
    rw [hts] at hrun
    cases hrun
  | cons t ts =>
    rw [hts] at hrun hn
    have hstart : expr (fuelFor (t :: ts).length) ⟨t :: ts, t.line⟩ = .ok e d := Except.ok.inj hrun
    have hcovers : Covers False 3 (t :: ts) (fuelFor (t :: ts).length) n :=
      .inl ⟨by rw [fuelFor]; omega, hn⟩
    have hsame := (expr_settles _ n ⟨t :: ts, t.line⟩ hcovers).same
    obtain ⟨n, rfl⟩ : ∃ k, n = k + 3 := ⟨n - 3, by omega⟩
    refine ⟨d, ?_, hd⟩
    rw [expr_ignoresLine n t ts line t.line, ← hsame, hstart]

/-- An expression that is read off has a token. -/
theorem ReadsOff.ne_nil {us rest : List Located} {e : Node} (h : ReadsOff expr us rest e) :
    us ≠ [] := by
  rintro rfl
  obtain ⟨d, hrun, hd⟩ := h
  rw [List.nil_append] at hrun
  cases rest with
  | nil => cases hrun
  | cons t ts =>
    have hstart : expr (fuelFor (t :: ts).length) ⟨t :: ts, t.line⟩ = .ok e d := Except.ok.inj hrun
    have hsettles := expr_settles _ _ ⟨t :: ts, t.line⟩ (Covers.self 3 _ (fuelFor (t :: ts).length))
    have hle := (hsettles.suffix_of_ok hstart).length_le
    rw [hd, List.tail_cons, List.length_cons] at hle
    omega

/-! ### Clauses -/

/-- A clause, with the tokens and trees of its expressions. -/
inductive Clause where
  /-- An expression. -/
  | plain (us : List Located) (e : Node)
  /-- A comparison of two expressions. -/
  | compare (us : List Located) (left : Node) (op : Located) (vs : List Located) (right : Node)

namespace Clause

/-- The tokens of a clause. -/
def tokens : Clause → List Located
  | .plain us _ => us
  | .compare us _ op vs _ => us ++ op :: vs

/-- The tree of a clause. -/
def tree : Clause → Node
  | .plain _ e => e
  | .compare _ left op _ right => .relational (some "BOOL") op.token left right

/-- In front of `rest`, the parser of sums passes over exactly each expression of the clause, the
operator between two expressions is a comparison, and the clause does not start with a negation. -/
def Fits (rest : List Located) : Clause → Prop
  | .plain us e => ReadsOff expr us rest e ∧ frontTag us ≠ .not
  | .compare us left op vs right =>
    ReadsOff expr us (op :: (vs ++ rest)) left ∧ frontTag us ≠ .not ∧
      isComparison op.token.tag = true ∧ ReadsOff expr vs rest right

end Clause

theorem look_tag_eq_frontTag {c : Cursor} {rest : List Located} (hc : c.ahead = rest) :
    c.look.tag = frontTag rest := by
  obtain ⟨ahead, line⟩ := c
  subst hc
  exact look_tag ahead line

theorem look_tag_of_ahead {c : Cursor} {us rest : List Located} (hc : c.ahead = us ++ rest)
    (hus : us ≠ []) : c.look.tag = frontTag us := by
  rw [look_tag_eq_frontTag hc]
  cases us with
  | nil => exact absurd rfl hus
  | cons t ts => rfl

/-- The parser of conditions passes over a clause to its loop. -/
theorem clause_step {clause : Clause} {ts rest : List Located} (hfits : clause.Fits ts)
    (hfollow : isComparison (frontTag ts) = false) {n : Nat}
    (hn : 16 * (clause.tokens ++ ts).length + 3 ≤ n) {c : Cursor}
    (hc : c.ahead = clause.tokens ++ ts) {a : Node}
    (hloop : ∀ d : Cursor, d.ahead = ts → Arrives (connected n clause.tree) d a rest) :
    Arrives (exprBool (n + 1)) c a rest := by
  rw [exprBool]
  refine Arrives.peekTag ?_
  cases clause with
  | plain us e =>
    obtain ⟨hreads, hnot⟩ := hfits
    rw [Clause.tokens] at hc hn
    rw [look_tag_of_ahead hc hreads.ne_nil, if_neg hnot]
    refine (expr_arrives hreads hn hc).bind fun d hd => Arrives.peek ?_
    rw [look_tag_eq_frontTag hd, if_neg (by simp [hfollow])]
    exact hloop d hd
  | compare us left op vs right =>
    obtain ⟨hleft, hnot, hop, hright⟩ := hfits
    simp only [Clause.tokens, List.append_assoc, List.cons_append] at hc hn
    rw [look_tag_of_ahead hc hleft.ne_nil, if_neg hnot]
    have hbound : 16 * (vs ++ ts).length + 3 ≤ n := by
      simp only [List.length_append, List.length_cons] at hn ⊢
      omega
    refine (expr_arrives hleft hn hc).bind fun d hd => Arrives.peek_cons hd ?_
    rw [if_pos hop]
    refine Arrives.advance_cons hd fun d' hd' => ?_
    exact (expr_arrives hright hbound hd').bind hloop

/-! ### Chains -/

/-- Clauses with connectives between them. -/
inductive ClauseChain where
  /-- The last clause. -/
  | last (clause : Clause)
  /-- A clause, a connective and the rest of the chain. -/
  | link (clause : Clause) (op : Located) (more : ClauseChain)

namespace ClauseChain

/-- The tokens of a chain. -/
def tokens : ClauseChain → List Located
  | .last clause => clause.tokens
  | .link clause op more => clause.tokens ++ op :: more.tokens

/-- The tree of a chain: each connective joins its clause with all that follows. -/
def tree : ClauseChain → Node
  | .last clause => clause.tree
  | .link clause op more => .logical (some "BOOL") op.token clause.tree more.tree

/-- Each clause fits in front of what follows it, and the operators between clauses are
connectives. -/
def Fits (rest : List Located) : ClauseChain → Prop
  | .last clause => clause.Fits rest
  | .link clause op more =>
    clause.Fits (op :: (more.tokens ++ rest)) ∧ isConnective op.token.tag = true ∧ more.Fits rest

end ClauseChain

/-- Where no connective follows, the loop of conditions stops. -/
theorem connected_stops {rest : List Located} (hrest : isConnective (frontTag rest) = false)
    (n : Nat) (left : Node) {c : Cursor} (hc : c.ahead = rest) :
    Arrives (connected (n + 1) left) c left rest := by
  rw [connected]
  refine Arrives.peek ?_
  rw [look_tag_eq_frontTag hc, if_neg (by simp [hrest])]
  exact Arrives.pure hc

theorem isComparison_of_isConnective {g : Tag} (h : isConnective g = true) :
    isComparison g = false := by
  cases g <;> simp_all [isConnective, isComparison]

/-- A chain from any place, by induction on its links: behind a connective the parser of conditions
reads the whole rest of the chain, and the loop finds nothing more to do. -/
theorem clauseChain_arrives {rest : List Located}
    (hcomparison : isComparison (frontTag rest) = false)
    (hconnective : isConnective (frontTag rest) = false) :
    ∀ (chain : ClauseChain), chain.Fits rest → ∀ (n : Nat),
      16 * (chain.tokens ++ rest).length + 5 ≤ n → ∀ c : Cursor, c.ahead = chain.tokens ++ rest →
      Arrives (exprBool n) c chain.tree rest
  | .last clause, hfits, n, hn, c, hc => by
    obtain ⟨n, rfl⟩ : ∃ k, n = k + 2 := ⟨n - 2, by omega⟩
    refine clause_step hfits hcomparison (by rw [ClauseChain.tokens] at hn; omega) hc ?_
    intro d hd
    exact connected_stops hconnective n _ hd
  | .link clause op more, ⟨hfits, hop, hmore⟩, n, hn, c, hc => by
    obtain ⟨n, rfl⟩ : ∃ k, n = k + 2 := ⟨n - 2, by omega⟩
    simp only [ClauseChain.tokens, List.append_assoc, List.cons_append] at hn hc
    refine clause_step hfits (isComparison_of_isConnective hop) (by omega) hc ?_
    intro d hd
    have hbound : 16 * (more.tokens ++ rest).length + 5 ≤ n := by
      simp only [List.length_append, List.length_cons] at hn ⊢
      omega
    obtain ⟨n, rfl⟩ : ∃ k, n = k + 1 := ⟨n - 1, by omega⟩
    -- one turn of the loop takes all that is left of the chain
    rw [connected]
    refine Arrives.peek_cons hd ?_
    rw [if_pos hop]
    refine Arrives.advance_cons hd fun d' hd' => ?_
    have hmore := clauseChain_arrives hcomparison hconnective more hmore (n + 1) hbound d' hd'
    exact hmore.bind fun e he => connected_stops hconnective n _ he

/-- **A chain of clauses in front of a token that is no operator: the parser of conditions passes
over exactly the chain, with any sufficient bound and from any line, and gives the tree in which
each connective joins its clause with all that follows.** -/
theorem exprBool_clauseChain (chain : ClauseChain) (rest : List Located) (hfits : chain.Fits rest)
    (hcomparison : isComparison (frontTag rest) = false)
    (hconnective : isConnective (frontTag rest) = false) (n : Nat)
    (hn : fuelFor (chain.tokens ++ rest).length ≤ n) (line : Int) :
    ∃ d, exprBool n ⟨chain.tokens ++ rest, line⟩ = .ok chain.tree d ∧ d.ahead = rest := by
  refine clauseChain_arrives hcomparison hconnective chain hfits n ?_ _ rfl
  rw [fuelFor] at hn
  omega

/-- The chain `x && 1 < y || z`. -/
def mixedChain : ClauseChain :=
  .link (.plain [⟨⟨.ident, "x"⟩, 1⟩] (reference "x")) ⟨⟨.and, "&&"⟩, 1⟩
    (.link (.compare [⟨⟨.number, "1"⟩, 1⟩] (.constant (some "NUMBER") ⟨.number, "1"⟩)
      ⟨⟨.lt, "<"⟩, 1⟩ [⟨⟨.ident, "y"⟩, 1⟩] (reference "y")) ⟨⟨.or, "||"⟩, 1⟩
      (.last (.plain [⟨⟨.ident, "z"⟩, 1⟩] (reference "z"))))

theorem exprBool_mixedChain :
    mixedChain.Fits [⟨⟨.rparen, ")"⟩, 1⟩] ∧
    ∃ d, exprBool (fuelFor 8) ⟨mixedChain.tokens ++ [⟨⟨.rparen, ")"⟩, 1⟩], 1⟩ =
      .ok (.logical (some "BOOL") ⟨.and, "&&"⟩ (reference "x")
        (.logical (some "BOOL") ⟨.or, "||"⟩
          (.relational (some "BOOL") ⟨.lt, "<"⟩ (.constant (some "NUMBER") ⟨.number, "1"⟩)
            (reference "y"))
          (reference "z"))) d ∧ d.ahead = [⟨⟨.rparen, ")"⟩, 1⟩] := by
  have hfits : mixedChain.Fits [⟨⟨.rparen, ")"⟩, 1⟩] := by
    refine ⟨⟨⟨_, rfl, rfl⟩, by decide⟩, rfl, ?_⟩
    refine ⟨⟨⟨_, rfl, rfl⟩, by decide, rfl, ⟨_, rfl, rfl⟩⟩, rfl, ?_⟩
    exact ⟨⟨_, rfl, rfl⟩, by decide⟩
  exact ⟨hfits, exprBool_clauseChain mixedChain _ hfits rfl rfl _ (Nat.le_refl _) 1⟩

end SeqPar.Parser
