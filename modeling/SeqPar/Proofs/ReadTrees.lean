import SeqPar.Proofs.ReadStmt
import SeqPar.Proofs.StmtProgress

/-!
# The trees that are read

Trees are made for many purposes, and most trees are no programs: plain data may stand where a
statement belongs, and statements where an expression belongs.  The trees that reading gives are of a
narrower kind, also where a part that could not be read was left out or replaced.  Their expressions
consist of literals, variables, calls, arithmetic and signs; conditions are expressions, comparisons
of two of them, and conjunctions and disjunctions of conditions; the left side of an assignment is a
variable.  Plain data stands only in the places that hold a text: the channel of a `send` or
`receive`, the host and port of a client channel, and a missing result.

The signs of expressions are tokens of the source, and so is the name of a call, unless it is one of
the words that are always read with an argument.  What is known of all tokens of a source is therefore
known of them: a condition on tokens is carried along.  The other tokens of a tree may be made up, but
only with few tags: those of names and numbers, and those of the two calls that have words of their
own.

Where reading fails is carried along too: a fault of syntax names the line of the lookahead where the
parser stopped, which is some way on from where it started.

## Main definitions

* `Token.IsCarried` — the tokens of the trees that reading gives.
* `Node.IsExpr`, `Node.IsCondition`, `Node.IsDatum`, `Node.IsStmt` — the trees that reading gives.
* `Cursor.Reaches` — one place is some way on from another.
* `Parser.Gives` — what holds of every result of a parser, and of every fault.

## Main results

* `Parser.Gives.bind`, `Parser.Gives.recover` and their like — one rule for each parser that all
  others are made of.
* `Parser.expr_gives`, `Parser.condition_gives`, `Parser.stmt_gives` — expressions, conditions and
  statements, by induction on the bound.
* `Parser.isStmt_of_program` — **a program that is read consists of statements.**
* `Parser.isAt_of_program` — **a fault of syntax names the line of the lookahead.**
-/

namespace SeqPar

/-- The tags that reading gives to tokens of its own. -/
def Tag.madeUp : List Tag :=
  [.ident, .number, .other "send", .other "output"]

/-- A token as it stands in a tree that was read from tokens that satisfy `P`: its tag is that of one
of them, or made up. -/
def Token.IsCarried (P : Token → Prop) (t : Token) : Prop :=
  t.tag ∈ Tag.madeUp ∨ ∃ u, P u ∧ u.tag = t.tag

theorem Token.IsCarried.of {P : Token → Prop} {t : Token} (h : P t) : t.IsCarried P :=
  .inr ⟨t, h, rfl⟩

theorem Token.IsCarried.of_mem {P : Token → Prop} {tag : Tag} (h : tag ∈ Tag.madeUp)
    (text : String) : IsCarried P ⟨tag, text⟩ :=
  .inl h

namespace Node

variable (P : Token → Prop)

/-- The expressions that reading gives, with signs that satisfy `P`. -/
inductive IsExpr : Node → Prop
  /-- A literal. -/
  | constant (type : Option String) {t : Token} (ht : t.IsCarried P) : IsExpr (.constant type t)
  /-- A variable. -/
  | ident (type : Option String) {t : Token} (ht : t.IsCarried P) : IsExpr (.ident type t false)
  /-- An operation on two operands. -/
  | arithmetic {type : Option String} {t : Token} {left right : Node} (hsign : P t)
    (hleft : IsExpr left) (hright : IsExpr right) : IsExpr (.arithmetic type t left right)
  /-- A sign in front of an operand. -/
  | unary {type : Option String} {t : Token} {operand : Node} (hsign : P t)
    (htag : t.tag = .not ∨ t.tag = .minus) (hoperand : IsExpr operand) :
    IsExpr (.unary type t operand)
  /-- A call. -/
  | call {type : Option String} {t : Token} {args : List Node} (ht : t.IsCarried P)
    (hargs : ∀ a ∈ args, IsExpr a) : IsExpr (.call type t args)

/-- The conditions that reading gives. -/
inductive IsCondition : Node → Prop
  /-- A mere expression. -/
  | expr {n : Node} (h : IsExpr P n) : IsCondition n
  /-- A comparison. -/
  | relational {type : Option String} {t : Token} {left right : Node} (hsign : P t)
    (hleft : IsExpr P left) (hright : IsExpr P right) :
    IsCondition (.relational type t left right)
  /-- A conjunction or disjunction. -/
  | logical {type : Option String} {t : Token} {left right : Node} (hsign : P t)
    (hleft : IsCondition left) (hright : IsCondition right) :
    IsCondition (.logical type t left right)

/-- The plain data that reading puts in the place of a tree. -/
inductive IsDatum : Node → Prop
  /-- A text. -/
  | text (s : String) : IsDatum (.datum (.text s))
  /-- The result of a `return` without one. -/
  | nothing : IsDatum (.datum .nothing)

/-- An expression, or plain data in its place. -/
def IsExprOrDatum (n : Node) : Prop :=
  IsExpr P n ∨ IsDatum n

/-- The statements that reading gives. -/
inductive IsStmt : Node → Prop
  /-- A number on its own. -/
  | constant (type : Option String) {t : Token} (ht : t.IsCarried P) : IsStmt (.constant type t)
  /-- A variable on its own, or its declaration. -/
  | ident (type : Option String) {t : Token} (decl : Bool) (ht : t.IsCarried P) :
    IsStmt (.ident type t decl)
  /-- A call; a channel is given by its name.  The word `output` never stands alone. -/
  | call {type : Option String} {t : Token} {args : List Node} (ht : t.IsCarried P)
    (hname : args = [] → P t ∧ t.tag ≠ .output) (hargs : ∀ a ∈ args, IsExprOrDatum P a) :
    IsStmt (.call type t args)
  /-- An assignment to a variable. -/
  | assign {type : Option String} {t : Token} {decl : Bool} {right : Node} (ht : t.IsCarried P)
    (hright : IsExprOrDatum P right) : IsStmt (.assign (.ident type t decl) right)
  /-- A conditional. -/
  | cond {condition : Node} {body orElse : List Node} (hcondition : IsCondition P condition)
    (hbody : ∀ n ∈ body, IsStmt n) (horElse : ∀ n ∈ orElse, IsStmt n) :
    IsStmt (.cond condition body (some orElse))
  /-- A loop. -/
  | loop {condition : Node} {body : List Node} (hcondition : IsCondition P condition)
    (hbody : ∀ n ∈ body, IsStmt n) : IsStmt (.loop condition body)
  /-- A function definition. -/
  | funcDef {name : String} {ret : Option String} {params body : List Node}
    (hparams : ∀ p ∈ params, ∃ type param, p = Parser.declared type param)
    (hbody : ∀ n ∈ body, IsStmt n) : IsStmt (.funcDef name ret params body)
  /-- A sequential block. -/
  | seq {body : List Node} (hbody : ∀ n ∈ body, IsStmt n) : IsStmt (.seq body)
  /-- A parallel block. -/
  | par {body : List Node} (hbody : ∀ n ∈ body, IsStmt n) : IsStmt (.par body)
  /-- A client channel. -/
  | clientChannel {name : String} {host port : Node} (hhost : IsDatum host)
    (hport : IsDatum port) : IsStmt (.clientChannel name host port)
  /-- A `return`. -/
  | ret {expr : Node} (hexpr : IsExprOrDatum P expr) : IsStmt (.ret expr)

variable {P}

/-- A call with an argument may have a name that is made up. -/
theorem IsStmt.of_cons {type : Option String} {t : Token} {a : Node} {args : List Node}
    (ht : t.tag ∈ Tag.madeUp) (hargs : ∀ b ∈ a :: args, IsExprOrDatum P b) :
    IsStmt P (.call type t (a :: args)) :=
  .call (.inl ht) (fun hnil => absurd hnil (List.cons_ne_nil a args)) hargs

theorem IsStmt.of_args {type : Option String} {t : Token} {args : List Node} (ht : P t)
    (htag : t.tag ≠ .output) (hargs : ∀ a ∈ args, IsExpr P a) : IsStmt P (.call type t args) :=
  .call (.of ht) (fun _ => ⟨ht, htag⟩) fun a ha => .inl (hargs a ha)

end Node

/-- All tokens ahead satisfy a condition. -/
def Cursor.All (P : Token → Prop) (c : Cursor) : Prop :=
  ∀ t ∈ c.ahead, P t.token

section All

variable {P : Token → Prop} {c d : Cursor}

theorem Cursor.All.of_suffix (h : c.All P) (hd : d.ahead <:+ c.ahead) : d.All P :=
  fun t ht => h t (hd.subset ht)

/-- The lookahead satisfies a condition on all tokens that the end of the input satisfies too. -/
theorem Cursor.All.look (h : c.All P) (hend : P .endOfInput) : P c.look := by
  rw [Cursor.look]
  split
  · exact hend
  · next t rest hahead => exact h t (hahead ▸ List.mem_cons_self)

end All

/-! ### Places -/

/-- The place `d` is where `c` is after some tokens are passed over. -/
def Cursor.Reaches (c d : Cursor) : Prop :=
  ∃ us, c.ahead = us ++ d.ahead ∧ d.passed = lastLine c.passed us

namespace Cursor.Reaches

variable {c d e : Cursor}

theorem refl (c : Cursor) : c.Reaches c :=
  ⟨[], rfl, rfl⟩

theorem trans (h : c.Reaches d) (h' : d.Reaches e) : c.Reaches e := by
  obtain ⟨us, hahead, hpassed⟩ := h
  obtain ⟨us', hahead', hpassed'⟩ := h'
  refine ⟨us ++ us', ?_, ?_⟩
  · rw [hahead, hahead', List.append_assoc]
  · rw [hpassed', hpassed, lastLine_append]

theorem suffix (h : c.Reaches d) : d.ahead <:+ c.ahead := by
  obtain ⟨us, hahead, -⟩ := h
  exact ⟨us, hahead.symm⟩

theorem advance (c : Cursor) : c.Reaches c.advance := by
  obtain ⟨ahead, passed⟩ := c
  cases ahead with
  | nil => exact refl _
  | cons t rest => exact ⟨[t], rfl, rfl⟩

/-- A search passes over tokens one by one. -/
theorem skipTo (stop : Tag → Bool) (c : Cursor) : c.Reaches (c.skipTo stop) := by
  obtain ⟨ahead, passed⟩ := c
  induction ahead generalizing passed with
  | nil => exact refl _
  | cons t rest ih =>
    cases hstop : stop t.token.tag with
    | true =>
      rw [skipTo_of_stop hstop]
      exact refl _
    | false =>
      rw [skipTo_of_not_stop hstop]
      exact (advance _).trans (ih t.line)

end Cursor.Reaches

/-- A fault of syntax names the given line. -/
def Fault.IsAt (line : Int) (fault : Fault) : Prop :=
  fault.kind = .syntactic → ∃ text, fault.message = syntaxText line text

/-- The reason why a parser stops without a result is no fault of syntax or names the given line. -/
def Halt.IsAt (line : Int) : Halt → Prop
  | .fault cause => cause.IsAt line
  | .outOfFuel => True

namespace Parser

/-! ### Results of parsers -/

variable {P : Token → Prop} {α β : Type} {Q : α → Prop} {R : β → Prop} {c d : Cursor}

/-- How a parser that starts at `c` may stop: some way on, with a result that satisfies `Q` or with a
fault on the line of the lookahead. -/
def Yields (c : Cursor) (Q : α → Prop) : EStateM.Result Halt Cursor α → Prop
  | .ok a d => Q a ∧ c.Reaches d
  | .error halt d => halt.IsAt d.line ∧ c.Reaches d

/-- A parser that starts some way on stops some way on. -/
theorem Yields.of_reaches {r : EStateM.Result Halt Cursor α} (h : Yields d Q r) (hd : c.Reaches d) :
    Yields c Q r := by
  cases r with
  | ok a e => exact ⟨h.1, hd.trans h.2⟩
  | error halt e => exact ⟨h.1, hd.trans h.2⟩

/-- From the place `c` every result of the parser satisfies `Q`. -/
def GivesAt (c : Cursor) (Q : α → Prop) (p : Parser α) : Prop :=
  Yields c Q (p c)

/-- On tokens that satisfy `P` every result of the parser satisfies `Q`. -/
def Gives (P : Token → Prop) (Q : α → Prop) (p : Parser α) : Prop :=
  ∀ c : Cursor, c.All P → GivesAt c Q p

namespace Gives

variable {p : Parser α} {f : α → Parser β}

theorem pure {a : α} (h : Q a) : Gives P Q (pure a) :=
  fun c _ => ⟨h, .refl c⟩

theorem pure_nil : Gives P (fun as => ∀ a ∈ as, Q a) (Pure.pure []) :=
  pure (List.forall_mem_nil Q)

theorem fail {fault : Fault} (h : fault.kind ≠ .syntactic) : Gives P Q (Parser.fail fault) :=
  fun c _ => ⟨fun hkind => absurd hkind h, .refl c⟩

theorem failAt {fault : Int → Fault} (h : ∀ line, (fault line).IsAt line) :
    Gives P Q (Parser.failAt fault) :=
  fun c _ => ⟨h c.line, .refl c⟩

theorem outOfFuel : Gives P Q (Parser.outOfFuel) :=
  fun c _ => ⟨trivial, .refl c⟩

/-- One parser after another: the second starts with what is known of the result of the first. -/
theorem bind (hp : Gives P Q p) (hf : ∀ a, Q a → Gives P R (f a)) : Gives P R (p >>= f) := by
  intro c hc
  have hfirst := hp c hc
  change Yields c R (EStateM.bind p f c)
  rw [EStateM.bind]
  rw [GivesAt] at hfirst
  cases hpc : p c with
  | ok a d =>
    rw [hpc] at hfirst
    obtain ⟨ha, hd⟩ := hfirst
    exact (hf a ha d (hc.of_suffix hd.suffix)).of_reaches hd
  | error halt d =>
    rw [hpc] at hfirst
    exact hfirst

/-- Going on after a fault. -/
theorem recover {handler : Parser α} (hp : Gives P Q p) (hhandler : Gives P Q handler) :
    Gives P Q (Parser.recover p handler) := by
  intro c hc
  have hfirst := hp c hc
  rw [GivesAt] at hfirst
  rw [GivesAt, Parser.recover]
  cases hpc : p c with
  | ok a d =>
    rw [hpc] at hfirst
    exact hfirst
  | error halt d =>
    rw [hpc] at hfirst
    cases halt with
    | fault cause =>
      have hd := hfirst.2
      exact (hhandler d (hc.of_suffix hd.suffix)).of_reaches hd
    | outOfFuel => exact hfirst

/-! ### The parsers that all others are made of -/

theorem peek {f : Token → Parser β} (hend : P .endOfInput) (h : ∀ t, P t → Gives P R (f t)) :
    Gives P R (Parser.peek >>= f) :=
  fun c hc => h c.look (hc.look hend) c hc

theorem peekTag {f : Tag → Parser β} (h : ∀ tag, Gives P R (f tag)) :
    Gives P R (Parser.peekTag >>= f) :=
  fun c hc => h c.look.tag c hc

/-- The tag of the lookahead is that of a token that satisfies the condition on all tokens. -/
theorem peekTag_of {f : Tag → Parser β} (hend : P .endOfInput)
    (h : ∀ t, P t → Gives P R (f t.tag)) : Gives P R (Parser.peekTag >>= f) :=
  fun c hc => h c.look (hc.look hend) c hc

theorem peekText {f : String → Parser β} (h : ∀ text, Gives P R (f text)) :
    Gives P R (Parser.peekText >>= f) :=
  fun c hc => h c.look.text c hc

theorem advance {f : Unit → Parser β} (h : Gives P R (f ())) :
    Gives P R (Parser.advance >>= f) :=
  fun c hc => (h c.advance (hc.of_suffix c.advance_suffix)).of_reaches (.advance c)

theorem accept {f : Unit → Parser β} {tag : Tag} (h : Gives P R (f ())) :
    Gives P R (Parser.accept tag >>= f) := by
  rw [Parser.accept, bind_assoc]
  refine peekTag fun found => ?_
  by_cases htag : found = tag
  · rw [if_pos htag]
    exact advance h
  · rw [if_neg htag]
    exact h

theorem textThen {f : String → Parser β} {tag : Tag} (h : ∀ text, Gives P R (f text)) :
    Gives P R (Parser.textThen tag >>= f) := by
  simp only [Parser.textThen, bind_assoc, pure_bind]
  exact peekText fun text => accept (h text)

theorem skipTo {f : Unit → Parser β} {stops : StopSet} (h : Gives P R (f ())) :
    Gives P R (Parser.skipTo stops >>= f) :=
  fun c hc => (h _ (hc.of_suffix (c.skipTo_suffix _))).of_reaches (.skipTo _ c)

theorem ite {condition : Prop} [Decidable condition] {q : Parser α} (hp : Gives P Q p)
    (hq : Gives P Q q) : Gives P Q (if condition then p else q) := by
  split
  · exact hp
  · exact hq

/-! ### The lookahead at a place -/

theorem peek_at {f : Token → Parser β} (h : GivesAt c R (f c.look)) :
    GivesAt c R (Parser.peek >>= f) :=
  h

theorem textThen_at {f : String → Parser β} {tag : Tag} (hc : c.All P)
    (h : Gives P R (f c.look.text)) : GivesAt c R (Parser.textThen tag >>= f) := by
  simp only [Parser.textThen, bind_assoc, pure_bind]
  exact accept h c hc

end Gives

/-- Without fuel there is no result. -/
theorem Gives.of_succ {p : Nat → Parser α} {n : Nat} (hzero : p 0 = Parser.outOfFuel)
    (h : ∀ k, n = k + 1 → Gives P Q (p (k + 1))) : Gives P Q (p n) := by
  cases n with
  | zero =>
    rw [hzero]
    exact Gives.outOfFuel
  | succ n => exact h n rfl

/-- A chain keeps what holds of its start, if every join with an operand does. -/
theorem chain_gives {isOperator : Tag → Bool} {operand : Nat → Parser β}
    {join : α → Token → β → α} {n : Nat} (hend : P .endOfInput)
    (hoperand : ∀ k < n, Gives P R (operand k))
    (hjoin : ∀ a t b, P t → Q a → R b → Q (join a t b)) {done : α} (hdone : Q done) :
    Gives P Q (chain isOperator operand join n done) := by
  induction n generalizing done with
  | zero => exact Gives.outOfFuel
  | succ n ih =>
    rw [chain]
    refine Gives.peek hend fun op hop => Gives.ite (Gives.advance ?_) (Gives.pure hdone)
    refine (hoperand n (Nat.lt_succ_self n)).bind fun next hnext => ?_
    exact ih (fun k hk => hoperand k (Nat.lt_succ_of_lt hk)) (hjoin done op next hop hdone hnext)

/-! ### Expressions -/

open Node (IsExpr IsCondition IsStmt IsDatum IsExprOrDatum)

section Reading

variable (hend : P .endOfInput) {n : Nat}

/-- What is known of factors while the bound is smaller. -/
def FactorsGive (P : Token → Prop) (n : Nat) : Prop :=
  ∀ k < n, Gives P (IsExpr P) (factor k)

theorem FactorsGive.of_le {m : Nat} (h : FactorsGive P n) (hm : m ≤ n) : FactorsGive P m :=
  fun k hk => h k (Nat.lt_of_lt_of_le hk hm)

include hend

theorem term_gives_of (h : FactorsGive P n) : Gives P (IsExpr P) (term n) := by
  refine Gives.of_succ (by rw [term]) ?_
  rintro n rfl
  simp only [term, termAfter_eq]
  refine (h n (Nat.lt_succ_self n)).bind fun left hleft => ?_
  exact chain_gives hend (h.of_le (Nat.le_succ n)) (fun _ _ _ => .arithmetic) hleft

theorem expr_gives_of (h : FactorsGive P n) : Gives P (IsExpr P) (expr n) := by
  refine Gives.of_succ (by rw [expr]) ?_
  rintro n rfl
  have hterm : ∀ k < n + 1, Gives P (IsExpr P) (term k) :=
    fun k hk => term_gives_of hend (h.of_le (Nat.le_of_lt hk))
  simp only [expr, exprAfter_eq]
  refine (hterm n (Nat.lt_succ_self n)).bind fun left hleft => ?_
  exact chain_gives hend (fun k hk => hterm k (Nat.lt_succ_of_lt hk)) (fun _ _ _ => .arithmetic)
    hleft

theorem argList_gives_of (h : FactorsGive P n) :
    Gives P (fun args => ∀ a ∈ args, IsExpr P a) (argList n) := by
  refine Gives.of_succ (by rw [argList]) ?_
  rintro n rfl
  have hexpr : ∀ k < n + 1, Gives P (IsExpr P) (expr k) :=
    fun k hk => expr_gives_of hend (h.of_le (Nat.le_of_lt hk))
  simp only [argList, argsAfter_eq]
  refine Gives.accept (Gives.peekTag fun tag => Gives.ite (Gives.accept Gives.pure_nil) ?_)
  refine (hexpr n (Nat.lt_succ_self n)).bind fun first hfirst => ?_
  have hargs : Gives P (fun args => ∀ a ∈ args, IsExpr P a)
      (chain isComma expr (fun args _ next => args ++ [next]) n [first]) := by
    refine chain_gives hend (fun k hk => hexpr k (Nat.lt_succ_of_lt hk)) ?_
      (List.forall_mem_singleton.mpr hfirst)
    intro args comma next hcomma hargs hnext
    exact List.forall_mem_append.mpr ⟨hargs, List.forall_mem_singleton.mpr hnext⟩
  exact hargs.bind fun args hargs => Gives.accept (Gives.pure hargs)

/-- A factor gives an expression if the factors with a smaller bound do. -/
theorem factor_gives_of (h : FactorsGive P n) : Gives P (IsExpr P) (factor n) := by
  refine Gives.of_succ (by rw [factor]) ?_
  rintro n rfl
  have hoperand := h n (Nat.lt_succ_self n)
  have hexpr := expr_gives_of hend (h.of_le (Nat.le_succ n))
  have hargs := argList_gives_of hend (h.of_le (Nat.le_succ n))
  rw [factor]
  refine Gives.peek hend fun first hfirst => ?_
  split
  all_goals refine Gives.advance ?_
  · next htag =>
    exact hoperand.bind fun operand hoperand => Gives.pure (.unary hfirst (.inl htag) hoperand)
  · next htag =>
    exact hoperand.bind fun operand hoperand => Gives.pure (.unary hfirst (.inr htag) hoperand)
  · exact hexpr.bind fun inner hinner => Gives.accept (Gives.pure hinner)
  -- the five tags that may be the name of a call
  iterate 5
    exact Gives.peekTag fun tag =>
      Gives.ite (hargs.bind fun args hargs => Gives.pure (.call (.of hfirst) hargs))
        (Gives.pure (.ident _ (.of hfirst)))
  · have hnumber := Token.IsCarried.of hfirst
    refine Gives.peekTag fun tag => Gives.ite (Gives.advance ?_) (Gives.pure (.constant _ hnumber))
    refine Gives.peek hend fun next _ => ?_
    refine Gives.ite (Gives.advance (Gives.pure ?_)) (Gives.pure (.constant _ hnumber))
    exact .constant _ (.of_mem (by decide) _)
  · exact Gives.pure (.constant _ (.of hfirst))
  · exact Gives.pure (.constant _ (.of hfirst))
  · exact Gives.pure (.constant _ (.of_mem (by decide) _))

theorem factor_gives (n : Nat) : Gives P (IsExpr P) (factor n) := by
  induction n using Nat.strongRecOn with
  | ind n ih => exact factor_gives_of hend ih

theorem expr_gives (n : Nat) : Gives P (IsExpr P) (expr n) :=
  expr_gives_of hend fun k _ => factor_gives hend k

theorem argList_gives (n : Nat) : Gives P (fun args => ∀ a ∈ args, IsExpr P a) (argList n) :=
  argList_gives_of hend fun k _ => factor_gives hend k

/-! ### Conditions -/

theorem exprBool_gives (n : Nat) : Gives P (IsCondition P) (exprBool n) := by
  induction n using Nat.strongRecOn with
  | ind n ih =>
    cases n with
    | zero =>
      rw [exprBool]
      exact Gives.outOfFuel
    | succ n =>
      have hexpr := expr_gives hend n
      have hconnected {left : Node} (hleft : IsCondition P left) :
          Gives P (IsCondition P) (connected n left) := by
        rw [connected_eq]
        exact chain_gives hend (fun k hk => ih k (Nat.lt_succ_of_lt hk)) (fun _ _ _ => .logical) hleft
      rw [exprBool]
      refine Gives.peekTag fun tag => Gives.ite (Gives.advance ?_) ?_
      · exact (ih n (Nat.lt_succ_self n)).bind fun _ _ => Gives.fail (by decide)
      · refine hexpr.bind fun left hleft => Gives.peek hend fun op hop => ?_
        refine Gives.ite (Gives.advance ?_) (hconnected (.expr hleft))
        exact hexpr.bind fun right hright => hconnected (.relational hop hleft hright)

theorem condition_gives (n : Nat) : Gives P (IsCondition P) (condition n) := by
  have hinner := exprBool_gives hend n
  rw [condition]
  refine Gives.peekTag fun tag => Gives.ite (Gives.advance ?_) hinner
  exact hinner.bind fun c hc => Gives.accept (Gives.pure hc)

/-! ### Simple statements -/

theorem initialised_gives (n : Nat) (type : Option String) (name : String) :
    Gives P (IsStmt P) (initialised n (declared type name)) := by
  rw [initialised]
  have hname : Token.IsCarried P ⟨.ident, name⟩ := .of_mem (by decide) name
  refine Gives.peekTag fun tag => Gives.ite (Gives.advance ?_) (Gives.pure (.ident _ _ hname))
  exact (expr_gives hend n).bind fun right hright => Gives.pure (.assign hname (.inl hright))

theorem channelPart_gives {fault : Int → Fault} (hfault : ∀ line, (fault line).IsAt line) :
    Gives P IsDatum (channelPart fault) := by
  rw [channelPart]
  refine Gives.peek hend fun t _ => ?_
  split
  · exact Gives.advance (Gives.pure (.text _))
  · exact Gives.advance (Gives.pure (.text _))
  · exact Gives.advance (Gives.pure (.text _))
  · exact Gives.failAt hfault

theorem varDecl_gives (n : Nat) : Gives P (IsStmt P) (varDecl n) := by
  have htyped (first : Token) : Gives P (IsStmt P) (do
      if (← peekTag) = .ident then
        let name ← textThen .ident
        initialised n (declared (some first.text) name)
      else failAt .expectedName) := by
    refine Gives.peekTag fun tag => Gives.ite ?_ (Gives.failAt fun line _ => ⟨_, rfl⟩)
    exact Gives.textThen fun name => initialised_gives hend n _ name
  rw [varDecl]
  refine Gives.peek hend fun first _ => ?_
  split
  · refine Gives.advance (Gives.textThen fun name => ?_)
    refine (channelPart_gives hend fun line _ => ⟨_, rfl⟩).bind fun host hhost => ?_
    exact (channelPart_gives hend fun line _ => ⟨_, rfl⟩).bind fun port hport =>
      Gives.pure (.clientChannel hhost hport)
  · exact Gives.advance (htyped first)
  · exact Gives.advance (htyped first)
  · exact Gives.advance (htyped first)
  · refine Gives.advance (Gives.peekTag fun tag => Gives.ite ?_ (Gives.failAt fun line _ => ⟨_, rfl⟩))
    refine Gives.advance (Gives.peekText fun type => Gives.advance ?_)
    exact initialised_gives hend n _ _
  · exact Gives.failAt fun line _ => ⟨_, rfl⟩

/-- In front of a name, the name of a call that is read is that token. -/
theorem assignOrCall_gives (n : Nat) (hc : c.All P) (htag : c.look.tag = .ident) :
    GivesAt c (IsStmt P) (assignOrCall n) := by
  have hname : P ⟨.ident, c.look.text⟩ := htag ▸ hc.look hend
  have hargs := argList_gives hend n
  have hassign {right : Node} (hright : IsExpr P right) :
      Gives P (IsStmt P) (do
        optionalSemicolon
        return .assign (reference c.look.text) right) :=
    Gives.accept (Gives.pure (.assign (.of hname) (.inl hright)))
  simp only [assignOrCall, pure_bind]
  refine Gives.textThen_at hc (Gives.peekTag fun tag => ?_)
  split
  · refine Gives.advance (Gives.peekTag_of hend fun t ht => ?_)
    by_cases hinput : t.tag = .other "INPUT"
    · rw [if_pos hinput]
      have hword : Token.IsCarried P ⟨.other "INPUT", "input"⟩ := .inr ⟨t, ht, hinput⟩
      refine Gives.advance (Gives.peekTag fun tag => Gives.ite ?_ (hassign (.ident _ hword)))
      exact hargs.bind fun args hargs => hassign (.call hword hargs)
    · rw [if_neg hinput]
      exact (expr_gives hend n).bind fun right hright => hassign hright
  · refine hargs.bind fun args hargs => Gives.accept (Gives.pure ?_)
    exact IsStmt.of_args hname (by simp) hargs
  · exact Gives.accept (Gives.pure (.ident _ _ (.of hname)))

theorem sendStmt_gives (n : Nat) : Gives P (IsStmt P) (sendStmt n) := by
  rw [sendStmt]
  refine Gives.accept (Gives.accept ((expr_gives hend n).bind fun message hmessage => ?_))
  refine Gives.accept (Gives.textThen fun channel => Gives.accept (Gives.pure ?_))
  refine .of_cons (by decide) (List.forall_mem_cons.mpr ⟨.inl hmessage, ?_⟩)
  exact List.forall_mem_singleton.mpr (.inr (.text _))

omit hend in
theorem receiveStmt_gives : Gives P (IsStmt P) receiveStmt := by
  rw [receiveStmt]
  refine Gives.textThen fun name => Gives.accept (Gives.accept (Gives.accept ?_))
  have hname : Token.IsCarried P ⟨.ident, name⟩ := .of_mem (by decide) name
  exact Gives.textThen fun channel => Gives.accept (Gives.pure (.assign hname (.inr (.text _))))

theorem outputStmt_gives (n : Nat) : Gives P (IsStmt P) (outputStmt n) := by
  rw [outputStmt]
  refine Gives.accept (Gives.accept ((expr_gives hend n).bind fun shown hshown => ?_))
  refine Gives.accept (Gives.accept (Gives.pure (.of_cons (by decide) ?_)))
  exact List.forall_mem_singleton.mpr (.inl hshown)

theorem returnStmt_gives (n : Nat) : Gives P (IsStmt P) (returnStmt n) := by
  simp only [returnStmt, pure_bind]
  refine Gives.accept (Gives.peekTag fun tag => ?_)
  refine Gives.ite (Gives.accept (Gives.pure (.ret (.inr .nothing)))) ?_
  exact (expr_gives hend n).bind fun result hresult =>
    Gives.accept (Gives.pure (.ret (.inl hresult)))

theorem inputStmt_gives (n : Nat) (hc : c.All P) (htag : c.look.tag = .other "INPUT") :
    GivesAt c (IsStmt P) (inputStmt n) := by
  simp only [inputStmt, pure_bind]
  refine Gives.peek_at (Gives.advance (Gives.peekTag fun tag => ?_) c hc)
  have hword := hc.look hend
  refine Gives.ite ?_ (Gives.accept (Gives.pure (.ident _ _ (.of hword))))
  refine (argList_gives hend n).bind fun args hargs => Gives.accept (Gives.pure ?_)
  exact IsStmt.of_args hword (by simp [htag]) hargs

theorem numberStmt_gives : Gives P (IsStmt P) numberStmt := by
  rw [numberStmt]
  exact Gives.peek hend fun first hfirst =>
    Gives.advance (Gives.accept (Gives.pure (.constant _ (.of hfirst))))

theorem params_gives (n : Nat) :
    Gives P (fun ps => ∀ p ∈ ps, ∃ type param, p = declared type param) (params n) := by
  simp only [params, paramsAfter_eq]
  refine Gives.peekTag fun tag => Gives.ite Gives.pure_nil (Gives.textThen fun name => ?_)
  refine chain_gives (R := fun _ => True) hend (fun _ _ => ?_) ?_ ?_
  · rw [← bind_pure (Parser.textThen Tag.ident)]
    exact Gives.textThen fun text => Gives.pure trivial
  · intro ps comma next hcomma hps hnext
    exact List.forall_mem_append.mpr ⟨hps, List.forall_mem_singleton.mpr ⟨_, _, rfl⟩⟩
  · exact List.forall_mem_singleton.mpr ⟨_, _, rfl⟩

end Reading

/-! ### Loops and compound statements -/

variable {n : Nat}

/-- On tokens that satisfy `P` the parser gives statements. -/
abbrev GivesStmts (P : Token → Prop) (p : Parser (List Node)) : Prop :=
  Gives P (fun nodes => ∀ s ∈ nodes, IsStmt P s) p

/-- What is known of statements while the bound is smaller. -/
def StmtsGive (P : Token → Prop) (n : Nat) : Prop :=
  ∀ k < n, Gives P (IsStmt P) (stmt k)

theorem StmtsGive.of_le {m : Nat} (h : StmtsGive P n) (hm : m ≤ n) : StmtsGive P m :=
  fun k hk => h k (Nat.lt_of_lt_of_le hk hm)

theorem readOrSkip_gives (stops : StopSet) (hstmt : Gives P (IsStmt P) (stmt n)) {done : List Node}
    (hdone : ∀ s ∈ done, IsStmt P s) :
    GivesStmts P (readOrSkip stops n done) := by
  refine Gives.recover (hstmt.bind fun node hnode => ?_) ?_
  · exact Gives.pure (List.forall_mem_append.mpr ⟨hdone, List.forall_mem_singleton.mpr hnode⟩)
  · exact Gives.skipTo (Gives.accept (Gives.pure hdone))

/-- What a loop does in front of a statement adds statements only. -/
theorem StatementLoop.read_gives (l : StatementLoop) (hstmt : Gives P (IsStmt P) (stmt n))
    (hblock : l = .topLevel → Gives P (IsStmt P) (Parser.block n)) (tag : Tag) {done : List Node}
    (hdone : ∀ s ∈ done, IsStmt P s) :
    GivesStmts P (l.read n tag done) := by
  have hadd {p : Parser Node} (hp : Gives P (IsStmt P) p) :
      GivesStmts P (do return done ++ [← p]) :=
    hp.bind fun node hnode =>
      Gives.pure (List.forall_mem_append.mpr ⟨hdone, List.forall_mem_singleton.mpr hnode⟩)
  cases l with
  | block => exact hadd hstmt
  | lenient => exact readOrSkip_gives _ hstmt hdone
  | function => exact readOrSkip_gives _ hstmt hdone
  | topLevel =>
    rw [read]
    refine Gives.ite (hadd (hblock rfl)) (Gives.ite (readOrSkip_gives _ hstmt hdone) ?_)
    simp only [skipStatement, bind_assoc]
    exact Gives.skipTo (Gives.accept (Gives.pure hdone))

/-- **A loop gives statements**, by induction on the bound, since each turn adds statements. -/
theorem StatementLoop.parser_gives (l : StatementLoop)
    (hread : ∀ k < n, ∀ tag done, (∀ s ∈ done, IsStmt P s) →
      GivesStmts P (l.read k tag done))
    {done : List Node} (hdone : ∀ s ∈ done, IsStmt P s) :
    GivesStmts P (l.parser n done) := by
  induction n generalizing done with
  | zero =>
    rw [parser_zero]
    exact Gives.outOfFuel
  | succ n ih =>
    have hrest {nodes : List Node} (hnodes : ∀ s ∈ nodes, IsStmt P s) :=
      ih (fun k hk => hread k (Nat.lt_succ_of_lt hk)) hnodes
    rw [parser_succ, unrolled]
    refine Gives.peekTag fun tag => Gives.ite (Gives.pure hdone) (Gives.bind ?_ fun _ => hrest)
    rw [turn]
    refine Gives.ite (Gives.advance (Gives.pure hdone)) ?_
    exact hread n (Nat.lt_succ_self n) tag done hdone

section Compound

variable (h : StmtsGive P n)

include h

/-- The statements of a block, branch or function. -/
theorem inner_gives {l : StatementLoop} (hl : l ≠ .topLevel) :
    GivesStmts P (l.parser n []) :=
  l.parser_gives (fun k hk tag _ hdone =>
    l.read_gives (h k hk) (fun htop => absurd htop hl) tag hdone) (List.forall_mem_nil _)

theorem body_gives : GivesStmts P (body n) := by
  refine Gives.of_succ (by rw [body]) ?_
  rintro n rfl
  rw [body]
  refine Gives.peekTag fun tag => ?_
  split
  · refine Gives.advance ?_
    exact (inner_gives (l := .block) (h.of_le (Nat.le_succ n)) (by simp)).bind fun nodes hnodes =>
      Gives.accept (Gives.pure hnodes)
  · refine (h n (Nat.lt_succ_self n)).bind fun node hnode => Gives.pure ?_
    exact List.forall_mem_singleton.mpr hnode

theorem seqBlock_gives : Gives P (IsStmt P) (seqBlock n) := by
  refine Gives.of_succ (by rw [seqBlock]) ?_
  rintro n rfl
  have hbelow := h.of_le (Nat.le_succ n)
  rw [seqBlock]
  refine Gives.accept (Gives.peekTag fun tag => Gives.ite (Gives.advance ?_) ?_)
  · exact (inner_gives (l := .block) hbelow (by simp)).bind fun nodes hnodes =>
      Gives.accept (Gives.pure (.seq hnodes))
  · exact (inner_gives (l := .lenient) hbelow (by simp)).bind fun nodes hnodes =>
      Gives.pure (.seq hnodes)

theorem parBlock_gives : Gives P (IsStmt P) (parBlock n) := by
  refine Gives.of_succ (by rw [parBlock]) ?_
  rintro n rfl
  have hstmts := inner_gives (l := .block) (h.of_le (Nat.le_succ n)) (by simp)
  rw [parBlock]
  refine Gives.accept (Gives.peekTag fun tag => Gives.ite (Gives.advance ?_) ?_)
  · exact hstmts.bind fun nodes hnodes => Gives.accept (Gives.pure (.par hnodes))
  · exact hstmts.bind fun nodes hnodes => Gives.pure (.par hnodes)

variable (hend : P .endOfInput)

include hend

/-- A branch that cannot be read is left empty. -/
theorem ifStmt_gives : Gives P (IsStmt P) (ifStmt n) := by
  refine Gives.of_succ (by rw [ifStmt]) ?_
  rintro n rfl
  have hbody := body_gives (h.of_le (Nat.le_succ n))
  have hbranch (stops : StopSet) : GivesStmts P
      (recover (body n) (do
        skipTo stops
        return [])) :=
    hbody.recover (Gives.skipTo Gives.pure_nil)
  rw [ifStmt]
  refine Gives.accept ((condition_gives hend n).bind fun c hc => ?_)
  refine (hbranch thenStops).bind fun thenBody hthen => Gives.peekTag fun tag => ?_
  refine Gives.ite (Gives.advance ?_) (Gives.pure (.cond hc hthen (List.forall_mem_nil _)))
  exact (hbranch bodyStops).bind fun elseBody helse => Gives.pure (.cond hc hthen helse)

theorem whileStmt_gives : Gives P (IsStmt P) (whileStmt n) := by
  refine Gives.of_succ (by rw [whileStmt]) ?_
  rintro n rfl
  have hbody := body_gives (h.of_le (Nat.le_succ n))
  rw [whileStmt]
  refine Gives.accept ((condition_gives hend n).bind fun c hc => ?_)
  refine Gives.bind (hbody.recover (Gives.skipTo (Gives.accept Gives.pure_nil))) ?_
  exact fun inner hinner => Gives.pure (.loop hc hinner)

theorem funcDecl_gives : Gives P (IsStmt P) (funcDecl n) := by
  refine Gives.of_succ (by rw [funcDecl]) ?_
  rintro n rfl
  rw [funcDecl]
  refine Gives.accept (Gives.textThen fun name => Gives.accept ?_)
  refine (params_gives hend n).bind fun ps hps => Gives.accept (Gives.peekTag fun tag => ?_)
  refine Gives.ite (Gives.advance ?_) ?_
  · exact (inner_gives (l := .function) (h.of_le (Nat.le_succ n)) (by simp)).bind
      fun nodes hnodes => Gives.accept (Gives.pure (.funcDef hps hnodes))
  · refine (h n (Nat.lt_succ_self n)).bind fun node hnode => Gives.pure (.funcDef hps ?_)
    exact List.forall_mem_singleton.mpr hnode

/-- A statement is one if those with a smaller bound are. -/
theorem stmt_gives_of : Gives P (IsStmt P) (stmt n) := by
  refine Gives.of_succ (by rw [stmt]) ?_
  rintro n rfl c hc
  have hbelow := h.of_le (Nat.le_succ n)
  have hstmt := h n (Nat.lt_succ_self n)
  rw [stmt]
  refine Gives.peek_at ?_
  -- The first token tells the statements apart, in the order of `stmt`.
  split
  · exact varDecl_gives hend n c hc
  · exact varDecl_gives hend n c hc
  · exact varDecl_gives hend n c hc
  · exact varDecl_gives hend n c hc
  · next htag => exact assignOrCall_gives hend n hc htag
  · exact ifStmt_gives hbelow hend c hc
  · exact whileStmt_gives hbelow hend c hc
  · exact sendStmt_gives hend n c hc
  · exact receiveStmt_gives c hc
  · refine Gives.bind (outputStmt_gives hend n) ?_ c hc
    exact fun node hnode => Gives.accept (Gives.pure hnode)
  · exact funcDecl_gives hbelow hend c hc
  · exact seqBlock_gives hbelow c hc
  · exact parBlock_gives hbelow c hc
  · next htag => exact inputStmt_gives hend n hc htag
  · exact returnStmt_gives hend n c hc
  · -- An `else` that belongs to nothing is passed over.
    refine Gives.advance (Gives.peekTag fun tag => ?_) c hc
    split
    · exact hstmt
    · exact hstmt
    · exact hstmt.bind fun node hnode => Gives.accept (Gives.pure hnode)
  · exact numberStmt_gives hend c hc
  · exact Gives.failAt (fun line _ => ⟨_, rfl⟩) c hc

end Compound

section Programs

variable (hend : P .endOfInput)

include hend

/-- **Statements that are read are statements.** -/
theorem stmt_gives (n : Nat) : Gives P (IsStmt P) (stmt n) := by
  induction n using Nat.strongRecOn with
  | ind n ih => exact stmt_gives_of ih hend

theorem block_gives (n : Nat) : Gives P (IsStmt P) (block n) := by
  have hstmts : StmtsGive P n := fun k _ => stmt_gives hend k
  rw [block]
  refine Gives.peek hend fun first _ => ?_
  split
  · exact seqBlock_gives hstmts
  · exact parBlock_gives hstmts
  · exact Gives.failAt fun line _ => ⟨_, rfl⟩

theorem program_gives (n : Nat) :
    Gives P (fun node => ∃ stmts, node = .program stmts ∧ ∀ s ∈ stmts, IsStmt P s) (program n) := by
  have htop : GivesStmts P (StatementLoop.topLevel.parser n []) :=
    StatementLoop.topLevel.parser_gives (fun k _ tag _ hdone =>
      StatementLoop.topLevel.read_gives (stmt_gives hend k) (fun _ => block_gives hend k) tag hdone)
      nofun
  exact htop.bind fun nodes hnodes => Gives.pure ⟨nodes, rfl, hnodes⟩

/-- **A program that is read consists of statements**, with signs that satisfy what is known of all
tokens. -/
theorem isStmt_of_program {ts : List Located} {node : Node} (hts : ∀ t ∈ ts, P t.token)
    (h : resultOn program ts = .ok node) :
    ∃ stmts, node = .program stmts ∧ ∀ s ∈ stmts, IsStmt P s := by
  cases ts with
  | nil => cases h
  | cons t ts =>
    obtain ⟨d, hok⟩ := (Written.resultOn_eq_ok_iff _ _ _ _).mp h
    have hgives := program_gives hend (fuelFor (t :: ts).length) ⟨t :: ts, t.line⟩ hts
    rw [GivesAt, hok] at hgives
    exact hgives.1

end Programs

/-- **A fault of syntax names the line of the lookahead** where the program cannot be read any
further. -/
theorem isAt_of_program {t : Located} {ts : List Located} {fault : Fault}
    (h : runOn program (t :: ts) = .ok (.error (.fault fault) d)) :
    fault.IsAt d.line ∧ Cursor.Reaches ⟨t :: ts, t.line⟩ d := by
  have hstop : program (fuelFor (t :: ts).length) ⟨t :: ts, t.line⟩ = .error (.fault fault) d :=
    Except.ok.inj h
  have hgives := program_gives (P := fun _ => True) trivial (fuelFor (t :: ts).length)
    ⟨t :: ts, t.line⟩ fun _ _ => trivial
  rw [GivesAt, hstop] at hgives
  exact hgives

end Parser

end SeqPar
