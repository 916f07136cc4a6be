import Mathlib.Data.List.Chain
import SeqPar.Proofs.NestedBlocks

/-!
# Programs that are rejected

The top level leaves out what cannot be read, so a program is rejected only from inside a block.  A
block without recovery, which is a parallel one or a sequential one in braces, passes on the fault
of each of its statements; a second branch on its own passes on the fault of the statement behind
it, and so does a function without braces.  `Leads` says from which statement which other one is
reached without recovery in between.

All faults of statements are syntactic but one.  A condition that starts with a negation, or has one
after a connective, is rejected for want of a node that would stand for it.

## Main definitions

* `Through` — a parser gets from one place to another, with as much fuel as it needs.
* `MeetsNegation`, `NegatedGuard` — conditions with a negated test, and statements guarded by one.
* `Leads` — from one statement to another without recovery.
* `ReachesNegation` — the programs whose reading comes to a guard with a negated test.

## Main results

* `exprBool_faults` — conditions fail only on negated tests.
* `stmt_faults` — how statements fail other than syntactically.
* `program_outcome` — **every program is read, rejected for its syntax, or comes to a guard with a
  negated test.**
* `program_of_no_strict_block` — **a program without parallel blocks and braces after `SEQ` is read
  to the end of its tokens.**
-/

namespace SeqPar.Parser

open Written (AtBlock resultOn_eq_ok_iff mark named)

variable {n m k : Nat} {c d e : Cursor} {f : Fault}

/-! ### Parsers with as much fuel as they need -/

/-- With as much fuel as it needs the parser gives a result and gets from `c` to `d`. -/
def Through {α : Type} (p : Nat → Parser α) (c d : Cursor) : Prop :=
  ∃ a, p (fuelFor c.ahead.length) c = .ok a d

theorem Through.unique {α : Type} {p : Nat → Parser α} (h : Through p c d) (h' : Through p c e) :
    d = e := by
  obtain ⟨a, ha⟩ := h
  obtain ⟨b, hb⟩ := h'
  have heq := ha.symm.trans hb
  cases heq
  rfl

/-- A bound that is enough for the tokens ahead is as good as any other. -/
theorem Covers.fuelFor {spare : Nat} (hc : Covers False spare c.ahead n n) (hspare : spare ≤ 32) :
    Covers False spare c.ahead n (fuelFor c.ahead.length) := by
  rcases hc with ⟨hn, -⟩ | ⟨hspent, -⟩
  · exact .inl ⟨hn, by rw [Parser.fuelFor]; omega⟩
  · exact hspent.elim

theorem Covers.exists_succ {spare : Nat} {ts : List Located} (h : Covers False (spare + 1) ts n m) :
    ∃ k, n = k + 1 := by
  rcases h with ⟨hn, -⟩ | ⟨hspent, -⟩
  · exact ⟨n - 1, by omega⟩
  · exact hspent.elim

/-- A parser that may neither fail nor spend its bound gets through. -/
theorem Settles.through {α : Type} {p : Nat → Parser α} {xs ys : List Located}
    (h : Settles False False xs ys (p n) (p (fuelFor c.ahead.length)) c) :
    ∃ a d, p n c = .ok a d ∧ Through p c d ∧ d.ahead <:+ ys := by
  obtain ⟨a, d, hok, hd⟩ := h.exists_ok
  exact ⟨a, d, hok, ⟨a, h.same ▸ hok⟩, hd⟩

theorem expr_through (hc : Covers False 3 c.ahead n n) :
    ∃ node d, expr n c = .ok node d ∧ Through expr c d ∧ d.ahead <:+ c.ahead.tail :=
  (expr_settles n _ c (hc.fuelFor (by omega))).through

theorem params_through (hc : Covers False 4 c.ahead n n) :
    ∃ ps d, params n c = .ok ps d ∧ Through params c d ∧ d.ahead <:+ c.ahead :=
  (params_keeps (hc.fuelFor (by omega)) c (List.suffix_refl _)).through

theorem stmt_faults_fuelFor (hc : Covers False 2 c.ahead n n) :
    Faults (stmt n) c f ↔ Faults (stmt (fuelFor c.ahead.length)) c f :=
  (stmt_settles n _ c (hc.fuelFor (by omega))).faults_iff

/-! ### Conditions -/

/-- A test, which is a sum or a comparison of two, is read from `c` to `d`. -/
def TestThrough (c d : Cursor) : Prop :=
  ∃ e, Through expr c e ∧ if isComparison e.look.tag then Through expr e.advance d else d = e

theorem TestThrough.unique (h : TestThrough c d) (h' : TestThrough c e) : d = e := by
  obtain ⟨x, hx, hd⟩ := h
  obtain ⟨y, hy, he⟩ := h'
  obtain rfl := hx.unique hy
  split at hd
  · next hcomparison =>
    rw [if_pos hcomparison] at he
    exact hd.unique he
  · next hcomparison =>
    rw [if_neg hcomparison] at he
    exact hd.trans he.symm

/-- After a test without a negation and a connective the next test starts at `d`. -/
def NextTest (c d : Cursor) : Prop :=
  c.look.tag ≠ .not ∧ ∃ e, TestThrough c e ∧ isConnective e.look.tag = true ∧ d = e.advance

/-- One of the tests of the condition that starts here is negated. -/
def MeetsNegation (c : Cursor) : Prop :=
  ∃ d, Relation.ReflTransGen NextTest c d ∧ d.look.tag = .not

theorem meetsNegation_iff (hnot : c.look.tag ≠ .not) (htest : TestThrough c e) :
    MeetsNegation c ↔ isConnective e.look.tag = true ∧ MeetsNegation e.advance := by
  constructor
  · rintro ⟨d, hpath, hd⟩
    rcases Relation.ReflTransGen.cases_head hpath with rfl | ⟨x, ⟨-, e', htest', hconn, rfl⟩, hrest⟩
    · exact absurd hd hnot
    · obtain rfl := htest.unique htest'
      exact ⟨hconn, d, hrest, hd⟩
  · rintro ⟨hconn, d, hpath, hd⟩
    exact ⟨d, .head ⟨hnot, e, htest, hconn, rfl⟩ hpath, hd⟩

/-- A condition that does not start with a negation is a test and what is connected to it. -/
theorem exprBool_of_test (hc : Covers False 4 c.ahead (n + 1) (n + 1)) (hnot : c.look.tag ≠ .not) :
    ∃ left e, TestThrough c e ∧ e.ahead <:+ c.ahead ∧ exprBool (n + 1) c = connected n left e := by
  have hcovers : Covers False 3 c.ahead n n := hc.call (List.suffix_refl _) (Nat.le_refl _)
  obtain ⟨left, d, hleft, hthrough, hd⟩ := expr_through hcovers
  have hdc : d.ahead <:+ c.ahead := hd.trans (List.tail_suffix _)
  have hread : exprBool (n + 1) c = (do
      let op ← peek
      if isComparison op.tag then
        advance
        let right ← expr n
        connected n (.relational (some "BOOL") op left right)
      else connected n left : Parser Node) d := by
    rw [exprBool]
    change (if c.look.tag = .not then _ else _ : Parser Node) c = _
    rw [if_neg hnot]
    change EStateM.bind _ _ c = _
    rw [EStateM.bind, hleft]
  by_cases hcomparison : isComparison d.look.tag = true
  · -- The test goes on to the end of the right side.
    have hadvance : d.advance.ahead <:+ c.ahead := d.advance_suffix.trans hdc
    obtain ⟨right, e, hright, hthrough', he⟩ := expr_through (hcovers.mono hadvance (Nat.le_refl _))
    refine ⟨.relational (some "BOOL") d.look left right, e, ⟨d, hthrough, ?_⟩,
      he.trans ((List.tail_suffix _).trans hadvance), ?_⟩
    · rw [if_pos hcomparison]
      exact hthrough'
    · rw [hread]
      change (if isComparison d.look.tag = true then _ else _ : Parser Node) d = _
      rw [if_pos hcomparison]
      change EStateM.bind _ _ d.advance = _
      rw [EStateM.bind, hright]
  · -- The left side is the whole test.
    refine ⟨left, d, ⟨d, hthrough, ?_⟩, hdc, ?_⟩
    · rw [if_neg hcomparison]
    · rw [hread]
      change (if isComparison d.look.tag = true then _ else _ : Parser Node) d = _
      rw [if_neg hcomparison]

/-- A chain stops in front of a token that is no operator. -/
theorem chain_ok {α β : Type} {isOperator : Tag → Bool} {operand : Nat → Parser β}
    {join : α → Token → β → α} {done a : α} (h : chain isOperator operand join n done c = .ok a d) :
    isOperator d.look.tag = false := by
  induction n generalizing c done with
  | zero => cases h
  | succ n ih =>
    rw [chain] at h
    change (if isOperator c.look.tag = true then _ else _ : Parser α) c = _ at h
    by_cases hop : isOperator c.look.tag = true
    · rw [if_pos hop] at h
      obtain ⟨_, _, -, h⟩ := bind_ok_iff.mp h
      obtain ⟨_, _, -, h⟩ := bind_ok_iff.mp h
      exact ih h
    · rw [if_neg hop] at h
      cases h
      simpa using hop

/-- A condition is read up to a token that is no connective. -/
theorem exprBool_ok {node : Node} (hc : Covers False 4 c.ahead n n)
    (h : exprBool n c = .ok node d) : isConnective d.look.tag = false := by
  obtain ⟨n, rfl⟩ := hc.exists_succ
  by_cases hnot : c.look.tag = .not
  · -- a negated condition is never accepted
    rw [exprBool] at h
    change (if c.look.tag = .not then _ else _ : Parser Node) c = _ at h
    rw [if_pos hnot] at h
    obtain ⟨_, _, -, h⟩ := bind_ok_iff.mp h
    obtain ⟨_, _, -, h⟩ := bind_ok_iff.mp h
    cases h
  · obtain ⟨left, e, -, -, hread⟩ := exprBool_of_test hc hnot
    rw [hread, connected_eq] at h
    exact chain_ok h

theorem connected_of_not_connective {left : Node} (h : isConnective c.look.tag = false) :
    connected (n + 1) left c = .ok left c := by
  rw [connected]
  change (if isConnective c.look.tag = true then _ else _ : Parser Node) c = _
  rw [h]
  rfl

/-- What is known of conditions while the bound is smaller. -/
def ConditionsFault (n : Nat) : Prop :=
  ∀ k < n, ∀ c f, Covers False 4 c.ahead k k →
    (Faults (exprBool k) c f ↔ f = .negatedCondition ∧ MeetsNegation c)

theorem connected_faults (h : ConditionsFault n) {left : Node} (hc : Covers False 3 c.ahead n n) :
    Faults (connected n left) c f ↔
      isConnective c.look.tag = true ∧ f = .negatedCondition ∧ MeetsNegation c.advance := by
  obtain ⟨n, rfl⟩ := hc.exists_succ
  by_cases hconn : isConnective c.look.tag = true
  · have hend : c.look.tag ≠ .endOfInput := by
      intro htag
      rw [htag] at hconn
      cases hconn
    have hcovers : Covers False 4 c.advance.ahead n n :=
      (hc.callAfter hend (by omega)).mono c.advance_suffix_tail (Nat.le_refl _)
    rw [connected, faults_peek, if_pos hconn, faults_advance, faults_bind,
      h n (Nat.lt_succ_self n) c.advance f hcovers]
    constructor
    · rintro (hfault | ⟨right, d, hright, hfault⟩)
      · exact ⟨hconn, hfault⟩
      · -- behind another condition there is no connective
        obtain ⟨e, he⟩ := hfault
        cases n with
        | zero => cases he
        | succ n =>
          rw [connected_of_not_connective (exprBool_ok hcovers hright)] at he
          cases he
    · rintro ⟨-, hfault⟩
      exact .inl hfault
  · rw [Faults, connected_of_not_connective (Bool.eq_false_iff.mpr hconn)]
    simp [hconn]

/-- **Conditions fail exactly on negated tests.** -/
theorem exprBool_faults (hc : Covers False 4 c.ahead n n) :
    Faults (exprBool n) c f ↔ f = .negatedCondition ∧ MeetsNegation c := by
  induction n using Nat.strongRecOn generalizing c f with
  | ind n ih =>
    obtain ⟨n, rfl⟩ := hc.exists_succ
    by_cases hnot : c.look.tag = .not
    · have hcovers : Covers False 4 c.advance.ahead n n :=
        (hc.callAfter (by simp [hnot]) (by omega)).mono c.advance_suffix_tail (Nat.le_refl _)
      have hmeets : MeetsNegation c := ⟨c, .refl, hnot⟩
      have hinner := exprBool_keeps n n _ hcovers c.advance (List.suffix_refl _)
      rw [exprBool, faults_peekTag, if_pos hnot, faults_advance, faults_bind]
      constructor
      · rintro (hfault | ⟨_, _, -, hfault⟩)
        · exact ⟨((ih n (Nat.lt_succ_self n) hcovers).mp hfault).1, hmeets⟩
        · exact ⟨(faults_fail.mp hfault).symm, hmeets⟩
      · rintro ⟨rfl, -⟩
        rcases hinner.ok_or_faults with ⟨a, d, hok⟩ | ⟨f, hfault⟩
        · exact .inr ⟨a, d, hok, faults_fail.mpr rfl⟩
        · obtain rfl := ((ih n (Nat.lt_succ_self n) hcovers).mp hfault).1
          exact .inl hfault
    · obtain ⟨left, e, htest, he, hread⟩ := exprBool_of_test hc hnot
      have hbelow : ConditionsFault n := fun k hk c f => ih k (Nat.lt_succ_of_lt hk)
      have hcovers : Covers False 3 e.ahead n n := hc.call he (Nat.le_refl _)
      rw [Faults, hread, meetsNegation_iff hnot htest]
      exact (connected_faults hbelow hcovers).trans and_left_comm

theorem condition_faults (hc : Covers False 4 c.ahead n n) :
    Faults (condition n) c f ↔ f = .negatedCondition ∧ MeetsNegation (c.past .lparen) := by
  rw [condition, faults_peekTag]
  by_cases hparen : c.look.tag = .lparen
  · rw [if_pos hparen, faults_advance, faults_bind, Cursor.past_self hparen,
      exprBool_faults (hc.mono c.advance_suffix (Nat.le_refl _))]
    refine or_iff_left ?_
    rintro ⟨a, d, -, hfault⟩
    rw [faults_accept] at hfault
    exact not_faults_pure _ hfault
  · rw [if_neg hparen, Cursor.past_ne hparen]
    exact exprBool_faults hc

/-! ### Statements -/

/-- The loop of blocks, started at `c`, comes to the statement that starts at `d`. -/
def StatementAt (c d : Cursor) : Prop :=
  StatementLoop.Turns .block c d ∧ StatementLoop.ends .block d.look.tag = false ∧
    d.look.tag ≠ .semicolon

theorem stmts_faults {done : List Node} (hc : Covers False 3 c.ahead n n) :
    Faults (stmts n done) c f ↔
      ∃ d, StatementAt c d ∧ Faults (stmt (fuelFor d.ahead.length)) d f := by
  refine (StatementLoop.parser_faults (l := .block) hc).trans (exists_congr fun d => ?_)
  rw [StatementAt, and_assoc, and_assoc]
  refine and_congr_right fun _ => and_congr_right fun _ => ?_
  rw [StatementLoop.turn]
  by_cases hsemi : d.look.tag = .semicolon
  · rw [if_pos hsemi, faults_advance]
    simp [hsemi, not_faults_pure]
  · rw [if_neg hsemi, StatementLoop.read, faults_bind]
    simp [hsemi, not_faults_pure]

/-- Statements in braces fail as the statements do. -/
theorem braced_faults {α : Type} {finish : List Node → α} (hc : Covers False 3 c.ahead n n) :
    Faults (do let body ← stmts n []; accept .rbrace; return finish body) c f ↔
      ∃ d, StatementAt c d ∧ Faults (stmt (fuelFor d.ahead.length)) d f := by
  rw [faults_bind, stmts_faults hc]
  refine or_iff_left ?_
  rintro ⟨a, d, -, hfault⟩
  rw [faults_accept] at hfault
  exact not_faults_pure _ hfault

/-- A loop that recovers after each statement does not fail. -/
theorem not_faults_of_recovering {l : StatementLoop} (hl : l = .lenient ∨ l = .function)
    {done : List Node} (hc : Covers False 3 c.ahead n n) : ¬ Faults (l.parser n done) c f := by
  rw [StatementLoop.parser_faults hc]
  rintro ⟨d, -, -, hfault⟩
  rw [StatementLoop.turn] at hfault
  split at hfault
  · exact not_faults_pure _ hfault
  · rcases hl with rfl | rfl
    · exact not_faults_readOrSkip hfault
    · exact not_faults_readOrSkip hfault

/-- The lookahead is the word of a conditional or loop, and a test of the condition is negated. -/
def NegatedGuard (c : Cursor) : Prop :=
  (c.look.tag = .ifWord ∨ c.look.tag = .whileWord) ∧ MeetsNegation (c.advance.past .lparen)

/-- Reading the statement at `c` comes to the one at `d`, with no recovery in between. -/
def Leads (c d : Cursor) : Prop :=
  match c.look.tag with
  | .seq => c.advance.look.tag = .lbrace ∧ StatementAt c.advance.advance d
  | .par => StatementAt (c.advance.past .lbrace) d
  | .elseWord => d = c.advance
  | .function => ∃ e, Through params ((c.advance.past .ident).past .lparen) e ∧
      (e.past .rparen).look.tag ≠ .lbrace ∧ d = e.past .rparen
  | _ => False

section Compound

variable (hc : Covers False 1 c.ahead n n)

include hc

theorem seqBlock_faults (htag : c.look.tag = .seq) :
    Faults (seqBlock n) c f ↔ c.advance.look.tag = .lbrace ∧
      ∃ d, StatementAt c.advance.advance d ∧ Faults (stmt (fuelFor d.ahead.length)) d f := by
  obtain ⟨n, rfl⟩ := hc.exists_succ
  have hcovers : Covers False 3 c.advance.ahead n n :=
    (hc.callAfter (by simp [htag]) (by omega)).mono c.advance_suffix_tail (Nat.le_refl _)
  rw [seqBlock, faults_accept, Cursor.past_self htag, faults_peekTag]
  by_cases hbrace : c.advance.look.tag = .lbrace
  · rw [if_pos hbrace, faults_advance,
      braced_faults (hcovers.mono c.advance.advance_suffix (Nat.le_refl _))]
    simp [hbrace]
  · have hloop : ¬ Faults (lenientStmts n []) c.advance f :=
      not_faults_of_recovering (l := .lenient) (.inl rfl) hcovers
    rw [if_neg hbrace, faults_bind]
    simp [hbrace, hloop, not_faults_pure]

theorem parBlock_faults (htag : c.look.tag = .par) :
    Faults (parBlock n) c f ↔
      ∃ d, StatementAt (c.advance.past .lbrace) d ∧ Faults (stmt (fuelFor d.ahead.length)) d f := by
  obtain ⟨n, rfl⟩ := hc.exists_succ
  have hcovers : Covers False 3 c.advance.ahead n n :=
    (hc.callAfter (by simp [htag]) (by omega)).mono c.advance_suffix_tail (Nat.le_refl _)
  rw [parBlock, faults_accept, Cursor.past_self htag, faults_peekTag]
  by_cases hbrace : c.advance.look.tag = .lbrace
  · rw [if_pos hbrace, faults_advance, Cursor.past_self hbrace]
    exact braced_faults (hcovers.mono c.advance.advance_suffix (Nat.le_refl _))
  · rw [if_neg hbrace, faults_bind, Cursor.past_ne hbrace, stmts_faults hcovers]
    simp [not_faults_pure]

omit hc in
theorem not_faults_skip {stops : StopSet} :
    ¬ Faults (do skipTo stops; return ([] : List Node)) c f := by
  rw [faults_skipTo]
  exact not_faults_pure _

theorem ifStmt_faults (htag : c.look.tag = .ifWord) :
    Faults (ifStmt n) c f ↔ f = .negatedCondition ∧ MeetsNegation (c.advance.past .lparen) := by
  obtain ⟨n, rfl⟩ := hc.exists_succ
  have hcovers : Covers False 4 c.advance.ahead n n :=
    (hc.callAfter (by simp [htag]) (by omega)).mono c.advance_suffix_tail (Nat.le_refl _)
  rw [ifStmt, faults_accept, Cursor.past_self htag, faults_bind, condition_faults hcovers]
  refine or_iff_left ?_
  -- behind the condition both branches recover
  rintro ⟨test, d, -, hfault⟩
  rw [faults_bind] at hfault
  rcases hfault with hfault | ⟨thenBody, e, -, hfault⟩
  · exact not_faults_recover (fun _ => not_faults_skip) hfault
  · rw [faults_peekTag] at hfault
    split at hfault
    · rw [faults_advance, faults_bind] at hfault
      rcases hfault with hfault | ⟨elseBody, e', -, hfault⟩
      · exact not_faults_recover (fun _ => not_faults_skip) hfault
      · exact not_faults_pure _ hfault
    · exact not_faults_pure _ hfault

theorem whileStmt_faults (htag : c.look.tag = .whileWord) :
    Faults (whileStmt n) c f ↔ f = .negatedCondition ∧ MeetsNegation (c.advance.past .lparen) := by
  obtain ⟨n, rfl⟩ := hc.exists_succ
  have hcovers : Covers False 4 c.advance.ahead n n :=
    (hc.callAfter (by simp [htag]) (by omega)).mono c.advance_suffix_tail (Nat.le_refl _)
  rw [whileStmt, faults_accept, Cursor.past_self htag, faults_bind, condition_faults hcovers]
  refine or_iff_left ?_
  rintro ⟨test, d, -, hfault⟩
  rw [faults_bind] at hfault
  rcases hfault with hfault | ⟨inner, e, -, hfault⟩
  · refine not_faults_recover (fun x hx => ?_) hfault
    rw [faults_skipTo, optionalSemicolon, faults_accept] at hx
    exact not_faults_pure _ hx
  · exact not_faults_pure _ hfault

theorem funcDecl_faults (htag : c.look.tag = .function) :
    Faults (funcDecl n) c f ↔
      ∃ d, Leads c d ∧ Faults (stmt (fuelFor d.ahead.length)) d f := by
  obtain ⟨n, rfl⟩ := hc.exists_succ
  have hcovers : Covers False 4 c.advance.ahead n n :=
    (hc.callAfter (by simp [htag]) (by omega)).mono c.advance_suffix_tail (Nat.le_refl _)
  have hhead : ((c.advance.past .ident).past .lparen).ahead <:+ c.advance.ahead :=
    (Cursor.past_suffix _ _).trans (Cursor.past_suffix _ _)
  obtain ⟨ps, e, hps, hthrough, he⟩ := params_through (hcovers.mono hhead (Nat.le_refl _))
  have hbody : Covers False 3 (e.past .rparen).ahead n n :=
    hcovers.mono ((Cursor.past_suffix _ _).trans (he.trans hhead)) (by omega)
  rw [funcDecl, faults_accept, Cursor.past_self htag, faults_textThen, faults_accept,
    faults_bind_of_ok hps, faults_accept, faults_peekTag]
  simp only [Leads, htag]
  by_cases hbrace : (e.past .rparen).look.tag = .lbrace
  · -- the statements in braces recover one by one
    rw [if_pos hbrace, faults_advance, faults_bind]
    have hloop : ¬ Faults (funcStmts n []) (e.past .rparen).advance f :=
      not_faults_of_recovering (l := .function) (.inr rfl)
        (hbody.mono (Cursor.advance_suffix _) (Nat.le_refl _))
    constructor
    · rintro (hfault | ⟨inner, x, -, hfault⟩)
      · exact absurd hfault hloop
      · rw [faults_accept] at hfault
        exact absurd hfault (not_faults_pure _)
    · rintro ⟨d, ⟨e', hthrough', hne, rfl⟩, -⟩
      obtain rfl := hthrough.unique hthrough'
      exact absurd hbrace hne
  · rw [if_neg hbrace, faults_bind,
      stmt_faults_fuelFor (hbody.mono (List.suffix_refl _) (by omega))]
    constructor
    · rintro (hfault | ⟨inner, x, -, hfault⟩)
      · exact ⟨_, ⟨e, hthrough, hbrace, rfl⟩, hfault⟩
      · exact absurd hfault (not_faults_pure _)
    · rintro ⟨d, ⟨e', hthrough', hne, rfl⟩, hfault⟩
      obtain rfl := hthrough.unique hthrough'
      exact .inl hfault

end Compound

/-- The semicolon behind a statement makes no difference. -/
theorem faults_withSemicolon {p : Parser Node} :
    Faults (do let node ← p; optionalSemicolon; return node) c f ↔ Faults p c f := by
  rw [faults_bind]
  refine or_iff_left ?_
  rintro ⟨node, d, -, h⟩
  rw [optionalSemicolon, faults_accept] at h
  exact not_faults_pure _ h

theorem channelPart_faults {cause : Int → Fault} (h : Faults (channelPart cause) c f) :
    f = cause c.line := by
  rw [channelPart, faults_peek] at h
  split at h
  · exact absurd h (not_faults_pure _)
  · exact absurd h (not_faults_pure _)
  · exact absurd h (not_faults_pure _)
  · exact (faults_failAt.mp h).symm

/-- Declarations fail only syntactically. -/
theorem varDecl_faults (h : Faults (varDecl n) c f) : f.kind = .syntactic := by
  have hinit (left : Node) (d : Cursor) : ¬ Faults (initialised n left) d f :=
    (initialised_keeps (Covers.self 4 d.ahead n) left d (List.suffix_refl _)).not_faults
  rw [varDecl, faults_peek] at h
  split at h
  · rw [faults_advance, faults_textThen, faults_bind] at h
    rcases h with h | ⟨host, d, -, h⟩
    · rw [channelPart_faults h]
      rfl
    · rw [faults_bind] at h
      rcases h with h | ⟨port, e, -, h⟩
      · rw [channelPart_faults h]
        rfl
      · exact absurd h (not_faults_pure _)
  -- the three types
  iterate 3
    · rw [faults_advance, faults_peekTag] at h
      split at h
      · rw [faults_textThen] at h
        exact absurd h (hinit _ _)
      · rw [← faults_failAt.mp h]
        rfl
  · rw [faults_advance, faults_peekTag] at h
    split at h
    · rw [faults_advance, faults_peekText, faults_advance] at h
      exact absurd h (hinit _ _)
    · rw [← faults_failAt.mp h]
      rfl
  · rw [← faults_failAt.mp h]
    rfl

/-- **How statements fail other than syntactically**: at a guard with a negated test, or as another
statement does that they lead to. -/
theorem stmt_faults (hf : f.kind ≠ .syntactic) (hc : Covers False 2 c.ahead n n) :
    Faults (stmt n) c f ↔ f = .negatedCondition ∧ NegatedGuard c ∨
      ∃ d, Leads c d ∧ Faults (stmt (fuelFor d.ahead.length)) d f := by
  obtain ⟨n, rfl⟩ := hc.exists_succ
  have hcall : Covers False 1 c.ahead n n := hc.call (List.suffix_refl _) (Nat.le_refl _)
  have hself : Covers True 1 c.ahead n n := Covers.self 1 c.ahead n
  have hdecl : ¬ Faults (varDecl n) c f := fun h => hf (varDecl_faults h)
  rw [stmt, faults_peek]
  -- The first token tells the statements apart, in the order of `stmt`.
  split
  · next htag => simp [hdecl, NegatedGuard, Leads, htag]
  · next htag => simp [hdecl, NegatedGuard, Leads, htag]
  · next htag => simp [hdecl, NegatedGuard, Leads, htag]
  · next htag => simp [hdecl, NegatedGuard, Leads, htag]
  · -- A statement that settles without a fault, here and below, leads nowhere.
    next htag =>
    have hnot : ¬ Faults (assignOrCall n) c f := (assignOrCall_settles n n c htag hself).not_faults
    simp [hnot, NegatedGuard, Leads, htag]
  · -- Only the two guards can raise the fault by themselves.
    next htag => simp [ifStmt_faults hcall htag, NegatedGuard, Leads, htag]
  · next htag => simp [whileStmt_faults hcall htag, NegatedGuard, Leads, htag]
  · next htag =>
    have hnot : ¬ Faults (sendStmt n) c f := (sendStmt_settles n n c htag hself).not_faults
    simp [hnot, NegatedGuard, Leads, htag]
  · next htag =>
    have hnot : ¬ Faults receiveStmt c f := (receiveStmt_settles n n c htag hself).not_faults
    simp [hnot, NegatedGuard, Leads, htag]
  · next htag =>
    have hnot : ¬ Faults (outputStmt n) c f := (outputStmt_settles n n c htag hself).not_faults
    rw [faults_withSemicolon]
    simp [hnot, NegatedGuard, Leads, htag]
  · next htag => simp [funcDecl_faults hcall htag, NegatedGuard, htag]
  · next htag => simp [seqBlock_faults hcall htag, NegatedGuard, Leads, htag, and_assoc]
  · next htag => simp [parBlock_faults hcall htag, NegatedGuard, Leads, htag]
  · next htag =>
    have hnot : ¬ Faults (inputStmt n) c f := (inputStmt_settles n n c htag hself).not_faults
    simp [hnot, NegatedGuard, Leads, htag]
  · next htag =>
    have hnot : ¬ Faults (returnStmt n) c f := (returnStmt_settles n n c htag hself).not_faults
    simp [hnot, NegatedGuard, Leads, htag]
  · -- An `else` that belongs to nothing is passed over.
    next htag =>
    have hafter : Covers False 2 c.advance.ahead n n :=
      (hc.callAfter (by simp [htag]) (by omega)).mono c.advance_suffix_tail (Nat.le_refl _)
    rw [faults_advance, faults_peekTag]
    split
    · simp [stmt_faults_fuelFor hafter, NegatedGuard, Leads, htag]
    · simp [stmt_faults_fuelFor hafter, NegatedGuard, Leads, htag]
    · rw [faults_withSemicolon]
      simp [stmt_faults_fuelFor hafter, NegatedGuard, Leads, htag]
  · next htag =>
    have hsettles : Settles True False c.ahead c.ahead.tail numberStmt numberStmt c :=
      numberStmt_settles
    have hnot : ¬ Faults numberStmt c f := hsettles.not_faults
    simp [hnot, NegatedGuard, Leads, htag]
  · -- No statement starts with any other token, which is a fault of syntax.
    constructor
    · intro h
      exact absurd (faults_failAt.mp h ▸ rfl) hf
    · rintro (⟨-, htag | htag, -⟩ | ⟨d, hleads, -⟩)
      · contradiction
      · contradiction
      · rw [Leads] at hleads
        split at hleads
        all_goals contradiction

/-! ### From statement to statement -/

theorem StatementAt.suffix (h : StatementAt c d) : d.ahead <:+ c.ahead :=
  StatementLoop.Turns.suffix h.1

theorem Through.suffix_params (h : Through params c d) : d.ahead <:+ c.ahead := by
  obtain ⟨ps, hps⟩ := h
  have hkeeps : Keeps True False c.ahead (params (fuelFor c.ahead.length)) (params _) :=
    params_keeps (Covers.self 4 c.ahead _)
  exact (hkeeps c (List.suffix_refl _)).suffix_of_ok hps

/-- The statement that another one leads to starts behind the first token of that. -/
theorem Leads.suffix_tail (h : Leads c d) : d.ahead <:+ c.ahead.tail := by
  have htail := c.advance_suffix_tail
  rw [Leads] at h
  split at h
  · exact h.2.suffix.trans (c.advance.advance_suffix.trans htail)
  · exact h.suffix.trans ((Cursor.past_suffix _ _).trans htail)
  · rw [h]
    exact htail
  · obtain ⟨e, hthrough, -, rfl⟩ := h
    refine (Cursor.past_suffix _ _).trans (hthrough.suffix_params.trans ?_)
    exact (Cursor.past_suffix _ _).trans ((Cursor.past_suffix _ _).trans htail)
  · exact h.elim

theorem Leads.length_lt (h : Leads c d) : d.ahead.length < c.ahead.length := by
  refine Cursor.length_lt_of_suffix_tail h.suffix_tail ?_
  intro hnil
  simp [Leads, Cursor.look, hnil, Token.endOfInput] at h

theorem stmt_faults_path (hf : f.kind ≠ .syntactic) :
    Faults (stmt (fuelFor c.ahead.length)) c f ↔
      f = .negatedCondition ∧ ∃ d, Relation.ReflTransGen Leads c d ∧ NegatedGuard d := by
  have hcovers (c : Cursor) : Covers False 2 c.ahead (fuelFor c.ahead.length) _ :=
    covers_fuelFor (by omega) (Nat.le_refl _) (Nat.le_refl _)
  constructor
  · intro h
    -- a statement that is led to has fewer tokens ahead
    induction hlength : c.ahead.length using Nat.strongRecOn generalizing c with
    | ind length ih =>
      rcases (stmt_faults hf (hcovers c)).mp h with ⟨rfl, hguard⟩ | ⟨d, hleads, hd⟩
      · exact ⟨rfl, c, .refl, hguard⟩
      · obtain ⟨rfl, e, hpath, hguard⟩ := ih _ (hlength ▸ hleads.length_lt) hd rfl
        exact ⟨rfl, e, .head hleads hpath, hguard⟩
  · rintro ⟨rfl, d, hpath, hguard⟩
    induction hpath using Relation.ReflTransGen.head_induction_on with
    | refl => exact (stmt_faults hf (hcovers d)).mpr (.inl ⟨rfl, hguard⟩)
    | head hleads _ ih => exact (stmt_faults hf (hcovers _)).mpr (.inr ⟨_, hleads, ih⟩)

/-! ### Programs -/

/-- A block is read as the statement that it is. -/
theorem block_eq_stmt (hblock : AtBlock c) :
    block (fuelFor c.ahead.length) c = stmt (fuelFor c.ahead.length) c := by
  have hcovers : Covers False 2 c.ahead (fuelFor c.ahead.length) (fuelFor c.ahead.length + 1) :=
    covers_fuelFor (by omega) (Nat.le_refl _) (Nat.le_succ _)
  have hpeek (p : Token → Parser Node) : (peek >>= p) c = p c.look c := rfl
  rw [(stmt_settles _ _ c hcovers).same, block, stmt, hpeek, hpeek]
  rcases hblock with htag | htag
  · simp only [htag]
  · simp only [htag]

/-- **A program fails exactly as a block at its top level does.** -/
theorem program_faults (hc : Covers False 3 c.ahead n n) :
    Faults (program n) c f ↔ ∃ d, StatementLoop.Turns .topLevel c d ∧ AtBlock d ∧
      Faults (stmt (fuelFor d.ahead.length)) d f := by
  have hprogram : Faults (program n) c f ↔ Faults (topLevelAfter n []) c f := by
    rw [program, topLevel, faults_bind]
    simp [not_faults_pure]
  rw [hprogram]
  refine (StatementLoop.parser_faults (l := .topLevel) hc).trans (exists_congr fun d => ?_)
  refine and_congr_right fun _ => ?_
  by_cases hblock : AtBlock d
  · have hsemi : d.look.tag ≠ .semicolon := by
      rcases hblock with htag | htag <;> simp [htag]
    have hend : StatementLoop.ends .topLevel d.look.tag = false := by
      rcases hblock with htag | htag <;> simp [StatementLoop.ends, htag]
    have hread : StatementLoop.read .topLevel (fuelFor d.ahead.length) d.look.tag [] =
        block (fuelFor d.ahead.length) >>= fun node => pure ([] ++ [node]) := if_pos hblock
    have hsame : Faults (block (fuelFor d.ahead.length)) d f ↔
        Faults (stmt (fuelFor d.ahead.length)) d f := by
      rw [Faults, Faults, block_eq_stmt hblock]
    rw [StatementLoop.turn, if_neg hsemi, hread, faults_bind, hsame]
    simp [hend, hblock, not_faults_pure]
  · -- in front of anything else the turn recovers
    have hturn :
        ¬ Faults (StatementLoop.turn .topLevel (fuelFor d.ahead.length) d.look.tag []) d f := by
      rw [StatementLoop.turn]
      split
      · exact not_faults_pure _
      · rw [StatementLoop.read]
        split
        · next htag => exact absurd htag hblock
        split
        · exact not_faults_readOrSkip
        · rw [skipStatement, bind_assoc, faults_skipTo, optionalSemicolon, faults_accept]
          exact not_faults_pure _
    simp [hturn, hblock]

theorem program_settles (ts : List Located) (line : Int) :
    Settles False True ts ts (program (fuelFor ts.length)) (program (fuelFor ts.length))
      ⟨ts, line⟩ :=
  program_keeps (covers_fuelFor (by omega) (Nat.le_refl _) (Nat.le_refl _)) _ (List.suffix_refl _)

/-- Reading the program comes to a guard with a negated test, with no recovery around it. -/
def ReachesNegation (ts : List Located) : Prop :=
  ∃ start block guard, Cursor.start? ts = some start ∧ StatementLoop.Turns .topLevel start block ∧
    AtBlock block ∧ Relation.ReflTransGen Leads block guard ∧ NegatedGuard guard

theorem reachesNegation_iff (t : Located) (ts : List Located) (hf : f.kind ≠ .syntactic) :
    Faults (program (fuelFor (t :: ts).length)) ⟨t :: ts, t.line⟩ f ↔
      f = .negatedCondition ∧ ReachesNegation (t :: ts) := by
  rw [program_faults (c := ⟨t :: ts, t.line⟩)
    (covers_fuelFor (by omega) (Nat.le_refl _) (Nat.le_refl _))]
  constructor
  · rintro ⟨b, hturns, hblock, hfault⟩
    obtain ⟨rfl, d, hpath, hguard⟩ := (stmt_faults_path hf).mp hfault
    exact ⟨rfl, _, b, d, rfl, hturns, hblock, hpath, hguard⟩
  · rintro ⟨rfl, _, b, d, ⟨⟩, hturns, hblock, hpath, hguard⟩
    exact ⟨b, hturns, hblock, (stmt_faults_path hf).mpr ⟨rfl, d, hpath, hguard⟩⟩

theorem resultOn_eq_fault_iff {α : Type} (p : Nat → Parser α) (t : Located) (ts : List Located) :
    resultOn p (t :: ts) = .error (.fault f) ↔
      Faults (p (fuelFor (t :: ts).length)) ⟨t :: ts, t.line⟩ f := by
  rw [resultOn, runOn, Cursor.start?, Faults]
  dsimp only
  cases p (fuelFor (t :: ts).length) ⟨t :: ts, t.line⟩ with
  | ok a d => simp
  | error halt d => simp

/-- **Every program is read, rejected for its syntax, or comes to a guard with a negated test**,
which is rejected in a way of its own. -/
theorem program_outcome (t : Located) (ts : List Located) :
    (((∃ nodes, resultOn program (t :: ts) = .ok (.program nodes)) ∨
        ∃ f, resultOn program (t :: ts) = .error (.fault f) ∧ f.kind = .syntactic) ↔
      ¬ ReachesNegation (t :: ts)) ∧
    (resultOn program (t :: ts) = .error (.fault .negatedCondition) ↔
      ReachesNegation (t :: ts)) := by
  have hkind : Fault.negatedCondition.kind ≠ .syntactic := by decide
  have hnegated : resultOn program (t :: ts) = .error (.fault .negatedCondition) ↔
      ReachesNegation (t :: ts) := by
    rw [resultOn_eq_fault_iff, reachesNegation_iff t ts hkind]
    simp
  refine ⟨⟨?_, ?_⟩, hnegated⟩
  · intro h hreaches
    rw [hnegated.mpr hreaches] at h
    rcases h with ⟨nodes, h⟩ | ⟨f, h, hf⟩
    · cases h
    · cases h
      exact hkind hf
  · intro hreaches
    rcases (program_settles (t :: ts) t.line).ok_or_faults with ⟨node, d, hok⟩ | ⟨f, hfault⟩
    · obtain ⟨nodes, e, -, hnode⟩ := bind_ok_iff.mp hok
      cases hnode
      exact .inl ⟨nodes, (resultOn_eq_ok_iff _ _ _ _).mpr ⟨d, hok⟩⟩
    · have hkind : f.kind = .syntactic := Decidable.byContradiction fun hf =>
        hreaches ((reachesNegation_iff t ts hf).mp hfault).2
      exact .inr ⟨f, (resultOn_eq_fault_iff _ _ _).mpr hfault, hkind⟩

/-- The tokens of `SEQ { if (!x) { y = 1; } }`. -/
def negatedTokens : List Located :=
  [mark .seq, mark .lbrace, mark .ifWord, mark .lparen, mark .not, named "x", mark .rparen,
    mark .lbrace, named "y", mark .assign, ⟨.number, "1"⟩, mark .semicolon, mark .rbrace,
    mark .rbrace].map (Located.mk · 1)

/-- A guard with a negated test in a block is neither read nor rejected for its syntax. -/
theorem negatedTokens_rejected :
    resultOn program negatedTokens = .error (.fault .negatedCondition) ∧
      Fault.negatedCondition.kind = .missingMember :=
  ⟨rfl, rfl⟩

/-! ### Programs without strict blocks -/

/-- A sequential block fails only behind an opening brace. -/
theorem stmt_faults_seq (htag : c.look.tag = .seq) (hc : Covers False 2 c.ahead n n)
    (h : Faults (stmt n) c f) : c.advance.look.tag = .lbrace := by
  obtain ⟨n, rfl⟩ := hc.exists_succ
  have hseq : Faults (seqBlock n) c f := by
    simpa only [stmt, faults_peek, htag] using h
  exact ((seqBlock_faults (hc.call (List.suffix_refl _) (Nat.le_refl _)) htag).mp hseq).1

/-- **A program without parallel blocks and braces after `SEQ` is read to the end of its tokens**,
whatever else stands in it. -/
theorem program_of_no_strict_block (t : Located) (ts : List Located)
    (hpar : ∀ u ∈ t :: ts, u.token.tag ≠ .par)
    (hseq : (t :: ts).IsChain fun u v => u.token.tag = .seq → v.token.tag ≠ .lbrace) :
    ∃ nodes d, runOn program (t :: ts) = .ok (.ok (.program nodes) d) ∧
      d.look.tag = .endOfInput := by
  have hcovers : Covers False 3 (t :: ts) (fuelFor (t :: ts).length) _ :=
    covers_fuelFor (by omega) (Nat.le_refl _) (Nat.le_refl _)
  rcases (program_settles (t :: ts) t.line).ok_or_faults with ⟨node, d, hok⟩ | ⟨f, hfault⟩
  · obtain ⟨nodes, e, hloop, hnode⟩ := bind_ok_iff.mp hok
    cases hnode
    obtain ⟨-, hend, -⟩ :=
      StatementLoop.parser_ok (l := .topLevel) (c := ⟨t :: ts, t.line⟩) hcovers hloop
    refine ⟨nodes, d, ?_, by simpa [StatementLoop.ends] using hend⟩
    rw [runOn, Cursor.start?]
    exact congrArg _ hok
  · -- a fault comes from a block, and the tokens hold none that passes it on
    obtain ⟨d, hturns, hblock, hd⟩ := (program_faults (c := ⟨t :: ts, t.line⟩) hcovers).mp hfault
    have hsuffix : d.ahead <:+ t :: ts := StatementLoop.Turns.suffix hturns
    obtain ⟨u, us, hahead⟩ : ∃ u us, d.ahead = u :: us := by
      refine d.exists_cons ?_
      rcases hblock with htag | htag <;> simp [htag]
    have hlook : d.look = u.token := by rw [Cursor.look, hahead]
    rw [hahead] at hsuffix
    rcases hblock with htag | htag
    · have hbrace : d.advance.look.tag = .lbrace :=
        stmt_faults_seq htag (covers_fuelFor (by omega) (Nat.le_refl _) (Nat.le_refl _)) hd
      obtain ⟨v, vs, hnext⟩ := d.advance.exists_cons (by simp [hbrace])
      have hus : us = v :: vs := by
        rw [← hnext, Cursor.ahead_advance, hahead, List.tail_cons]
      rw [Cursor.look, hnext] at hbrace
      have hchain := hseq.suffix hsuffix
      rw [hus] at hchain
      exact absurd hbrace ((List.isChain_cons_cons.mp hchain).1 (hlook ▸ htag))
    · exact absurd (hlook ▸ htag) (hpar u (hsuffix.mem List.mem_cons_self))

/-- The tokens of `SEQ if !y = (1; else x = 2 +; string 5 }`. -/
def looseTokens : List Located :=
  [mark .seq, mark .ifWord, mark .not, named "y", mark .assign, mark .lparen, ⟨.number, "1"⟩,
    mark .semicolon, mark .elseWord, named "x", mark .assign, ⟨.number, "2"⟩, mark .plus,
    mark .semicolon, mark .stringType, ⟨.number, "5"⟩, mark .rbrace].map (Located.mk · 1)

theorem looseTokens_read :
    ((∀ u ∈ looseTokens, u.token.tag ≠ .par) ∧
      looseTokens.IsChain fun u v => u.token.tag = .seq → v.token.tag ≠ .lbrace) ∧
    ∃ nodes d, runOn program looseTokens = .ok (.ok (.program nodes) d) ∧
      d.look.tag = .endOfInput :=
  ⟨by decide, program_of_no_strict_block _ _ (by decide) (by decide)⟩

end SeqPar.Parser
