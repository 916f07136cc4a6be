import SeqPar.Proofs.Rejection

/-!
# Statements that escape from their braces

Outside blocks a conditional or loop may not stand at the top level.  What is left out then is not
the whole of it but what stands up to the next semicolon, which is the end of the first simple
statement in its braces.  From there on the top level reads the rest of the braces as if it stood
outside them.

The top level is followed through the tokens of written statements in one of two states: it stands
in front of its next turn, or it searches for a semicolon.  Behind a simple statement it stands,
behind a body it searches.  So the first statement that it reads inside of braces is one that may
stand at the top level and follows a simple statement of the same body; `Stmt.exposes` looks for
such a statement.

## Main definitions

* `Seeks`, `Poised` — the two states, at a place that the top level comes by.
* `Silent` — nothing is added on the way.
* `Crosses` — from one state to another over some tokens.
* `Stmt.bodies`, `Stmt.exposes` — the bodies of a statement, and whether one of them exposes a
  statement.
* `ReadAt`, `BetweenBraces` — where the statements of a program are read, and where the braces are.

## Main results

* `Stmt.crosses_stmt` — **a search passes over a statement that exposes nothing in silence.**
* `Stmt.leaks_stmt` — **in a statement that exposes something the top level comes to stand in front
  of a statement.**
* `betweenBraces_left_out_iff` — **what is written between the braces of conditionals and loops at
  the top level is left out exactly if it exposes nothing.**
-/

namespace SeqPar.Written

open SeqPar.Parser StatementLoop

/-! ### The search for a semicolon -/

/-- Where the top level goes on after what it leaves out: behind the next semicolon. -/
def behindSemicolon (c : Cursor) : Cursor :=
  (c.skipTo statementStops.tags.contains).past .semicolon

/-- Whether the search for a semicolon passes over a tag. -/
def isSkipped (tag : Tag) : Bool :=
  !statementStops.tags.contains tag

@[simp] theorem isSkipped_iff {tag : Tag} :
    isSkipped tag = true ↔ tag ≠ .semicolon ∧ tag ≠ .endOfInput := by
  simp [isSkipped, statementStops]

/-- Whether a statement that starts with this tag is read at the top level. -/
def startsAtTop (tag : Tag) : Bool :=
  startsTopLevel tag || tag == .seq || tag == .par

section Search

variable {c : Cursor}

theorem behindSemicolon_of_semicolon (h : c.look.tag = .semicolon) :
    behindSemicolon c = c.advance := by
  rw [behindSemicolon, Cursor.skipTo_of_stop (by rw [h]; rfl), Cursor.past_self h]

theorem behindSemicolon_of_isSkipped (h : isSkipped c.look.tag = true) :
    behindSemicolon c = behindSemicolon c.advance := by
  rw [behindSemicolon, behindSemicolon, Cursor.skipTo_of_not_stop (by simpa [isSkipped] using h)]

theorem behindSemicolon_suffix (c : Cursor) : (behindSemicolon c).ahead <:+ c.ahead :=
  (Cursor.past_suffix _ _).trans (c.skipTo_suffix _)

/-- In front of a token the search passes over it. -/
theorem behindSemicolon_suffix_tail (h : c.look.tag ≠ .endOfInput) :
    (behindSemicolon c).ahead <:+ c.ahead.tail := by
  by_cases hsemi : c.look.tag = .semicolon
  · rw [behindSemicolon_of_semicolon hsemi]
    exact c.advance_suffix_tail
  · have hskip : isSkipped c.look.tag = true := isSkipped_iff.mpr ⟨hsemi, h⟩
    rw [behindSemicolon_of_isSkipped hskip]
    exact (behindSemicolon_suffix _).trans c.advance_suffix_tail

theorem adds_semicolon (h : c.look.tag = .semicolon) : Adds .topLevel c [] c.advance := by
  refine ⟨by rw [h]; rfl, ?_⟩
  rw [turn, if_pos h]
  rfl

/-- What may not stand at the top level is left out, up to the next semicolon. -/
theorem adds_skip (htop : startsAtTop c.look.tag = false) (hskip : isSkipped c.look.tag = true) :
    Adds .topLevel c [] (behindSemicolon c) := by
  simp only [startsAtTop, Bool.or_eq_false_iff, beq_eq_false_iff_ne] at htop
  obtain ⟨⟨hstarts, hseq⟩, hpar⟩ := htop
  rw [isSkipped_iff] at hskip
  refine ⟨by simp [ends, hskip], ?_⟩
  rw [turn, if_neg hskip.1, StatementLoop.read, if_neg (by simp [hseq, hpar]),
    if_neg (by simp [hstarts]), skipStatement, bind_assoc]
  exact bind_ok_iff.mpr ⟨(), _, rfl, bind_ok_iff.mpr ⟨(), _, accept_apply _ _, rfl⟩⟩

/-- A statement that can be read is added, and the top level stands behind it. -/
theorem adds_read {node : Node} {d : Cursor} (htop : startsAtTop c.look.tag = true)
    (hok : stmt (fuelFor c.ahead.length) c = .ok node d) : Adds .topLevel c [node] d := by
  have htag : c.look.tag ≠ .semicolon ∧ c.look.tag ≠ .endOfInput := by
    constructor <;> intro htag <;> rw [htag] at htop <;> cases htop
  refine ⟨by simp [ends, htag], ?_⟩
  rw [turn, if_neg htag.1, StatementLoop.read]
  by_cases hblock : c.look.tag = .seq ∨ c.look.tag = .par
  · rw [if_pos hblock]
    exact bind_ok_iff.mpr ⟨node, d, (block_eq_stmt hblock).trans hok, rfl⟩
  · have hstarts : startsTopLevel c.look.tag = true := by
      simpa [startsAtTop, not_or.mp hblock] using htop
    rw [if_neg hblock, if_pos hstarts]
    exact readOrSkip_of_ok hok []

end Search

/-! ### Standing and searching -/

section Modes

variable (start : Cursor)

/-- A turn of the top level that adds nothing ends behind the next semicolon from here on. -/
def Seeks (c : Cursor) : Prop :=
  ∃ b, Turns .topLevel start b ∧ Adds .topLevel b [] (behindSemicolon c) ∧ c.ahead <:+ b.ahead

/-- The top level stands in front of its next turn, or it searches for a semicolon. -/
def Poised (stands : Bool) (c : Cursor) : Prop :=
  if stands then Turns .topLevel start c else Seeks start c

/-- No turn that starts in front of more than `low` and at most `high` tokens adds anything. -/
def Silent (low high : Nat) : Prop :=
  ∀ e node, Turns .topLevel start e → low < e.ahead.length → e.ahead.length ≤ high →
    ¬ AddsNode .topLevel node e

variable {start} {c : Cursor} {b : Bool}

theorem Silent.trans {low middle high : Nat} (h : Silent start low middle)
    (h' : Silent start middle high) : Silent start low high := by
  intro e node he hlow hhigh
  rcases Nat.lt_or_ge middle e.ahead.length with hlt | hge
  · exact h' e node he hlt hhigh
  · exact h e node he hlow hge

theorem not_addsNode {d : Cursor} {node : Node} (h : Adds .topLevel c [] d) :
    ¬ AddsNode .topLevel node c := by
  rw [h.addsNode_iff]
  exact List.not_mem_nil

theorem Seeks.silent (h : Seeks start c) (htag : c.look.tag ≠ .endOfInput) :
    Silent start c.advance.ahead.length c.ahead.length := by
  intro e node he hlow hhigh
  obtain ⟨b, hb, hadds, hsuffix⟩ := h
  have hbehind := (behindSemicolon_suffix_tail htag).length_le
  rw [Cursor.ahead_advance] at hlow
  rcases hb.trichotomy ⟨[], hadds⟩ he with hlt | rfl | hsuffix'
  · have := hsuffix.length_le
    omega
  · exact not_addsNode hadds
  · have := hsuffix'.length_le
    omega

theorem Seeks.advance (h : Seeks start c) (hskip : isSkipped c.look.tag = true) :
    Seeks start c.advance := by
  obtain ⟨b, hb, hadds, hsuffix⟩ := h
  rw [behindSemicolon_of_isSkipped hskip] at hadds
  exact ⟨b, hb, hadds, c.advance_suffix.trans hsuffix⟩

/-- At a semicolon the search ends, and the top level stands behind it. -/
theorem Seeks.turns (h : Seeks start c) (hsemi : c.look.tag = .semicolon) :
    Turns .topLevel start c.advance := by
  obtain ⟨b, hb, hadds, -⟩ := h
  rw [behindSemicolon_of_semicolon hsemi] at hadds
  exact hb.tail ⟨[], hadds⟩

theorem seeks_of_turns (h : Turns .topLevel start c) (htop : startsAtTop c.look.tag = false)
    (hskip : isSkipped c.look.tag = true) : Seeks start c :=
  ⟨c, h, adds_skip htop hskip, List.suffix_refl _⟩

/-- What starts no statement of the top level is searched through, whether the top level stands in
front of it or not. -/
theorem Poised.seeks (h : Poised start b c) (htop : startsAtTop c.look.tag = false)
    (hskip : isSkipped c.look.tag = true) : Seeks start c := by
  cases b with
  | false => exact h
  | true => exact seeks_of_turns h htop hskip

theorem Poised.silent_semicolon (h : Poised start b c) (hsemi : c.look.tag = .semicolon) :
    Turns .topLevel start c.advance ∧ Silent start c.advance.ahead.length c.ahead.length := by
  have htag : c.look.tag ≠ .endOfInput := by simp [hsemi]
  cases b with
  | false => exact ⟨Seeks.turns h hsemi, Seeks.silent h htag⟩
  | true =>
    have hadds := adds_semicolon hsemi
    refine ⟨Relation.ReflTransGen.tail h ⟨[], hadds⟩, ?_⟩
    intro e node he hlow hhigh
    rw [Cursor.ahead_advance, List.length_tail] at hlow
    rcases Turns.trichotomy h ⟨[], hadds⟩ he with hlt | rfl | hsuffix
    · omega
    · exact not_addsNode hadds
    · have := hsuffix.length_le
      rw [Cursor.ahead_advance, List.length_tail] at this
      omega

/-! ### Walking over tokens -/

variable (start)

/-- From a place that satisfies `P`, in front of the tokens `ts` and a lookahead after them whose
tag satisfies `next`, the top level comes to a place behind `ts` that satisfies `Q`; and it adds
nothing on the way if `quiet` holds. -/
def Crosses (quiet : Prop) (P : Cursor → Prop) (ts : List Token) (next : Tag → Prop)
    (Q : Cursor → Prop) : Prop :=
  ∀ (us rest : List Located) (line : Int), us.map Located.token = ts → next (frontTag rest) →
    P ⟨us ++ rest, line⟩ → Q ⟨rest, lastLine line us⟩ ∧
      (quiet → Silent start rest.length (us ++ rest).length)

variable {start} {quiet : Prop} {P Q R : Cursor → Prop} {ts us : List Token}
  {next next' : Tag → Prop}

theorem Crosses.trans (h : Crosses start quiet P ts next Q) (h' : Crosses start quiet Q us next' R)
    (hnext : ∀ g, next' g → next (leadTag g us)) : Crosses start quiet P (ts ++ us) next' R := by
  intro ws rest line hws hrest hP
  obtain ⟨ws₁, ws₂, rfl, h₁, h₂⟩ := List.map_eq_append_iff.mp hws
  have hfront : next (frontTag (ws₂ ++ rest)) := by
    rw [frontTag_append, h₂]
    exact hnext _ hrest
  rw [List.append_assoc] at hP ⊢
  obtain ⟨hQ, hsilent⟩ := h ws₁ (ws₂ ++ rest) line h₁ hfront hP
  obtain ⟨hR, hsilent'⟩ := h' ws₂ rest _ h₂ hrest hQ
  rw [lastLine_append]
  exact ⟨hR, fun hquiet => (hsilent' hquiet).trans (hsilent hquiet)⟩

theorem Crosses.mono {quiet' : Prop} (h : Crosses start quiet P ts next Q)
    (hquiet : quiet' → quiet) : Crosses start quiet' P ts next Q := by
  intro us rest line hus hnext hP
  exact (h us rest line hus hnext hP).imp id fun hsilent h => hsilent (hquiet h)

theorem Crosses.refl (h : ∀ c, P c → Q c) : Crosses start quiet P [] next Q := by
  intro us rest line hus _ hP
  obtain rfl := List.map_eq_nil_iff.mp hus
  refine ⟨h _ hP, fun _ e node _ hlow hhigh => ?_⟩
  simp only [List.nil_append] at hhigh
  omega

/-- Passing over one token. -/
theorem Crosses.single {t : Token}
    (h : ∀ c : Cursor, c.look = t → P c →
      Q c.advance ∧ (quiet → Silent start c.advance.ahead.length c.ahead.length)) :
    Crosses start quiet P [t] next Q := by
  intro us rest line hus _ hP
  obtain ⟨u, us, rfl, hu, hus⟩ := List.map_eq_cons_iff.mp hus
  obtain rfl := List.map_eq_nil_iff.mp hus
  exact h ⟨u :: rest, line⟩ hu hP

/-- The search passes over tokens that do not stop it. -/
theorem crosses_skipped (h : ∀ t ∈ ts, isSkipped t.tag = true) :
    Crosses start quiet (Seeks start) ts next (Seeks start) := by
  induction ts with
  | nil => exact Crosses.refl fun _ => id
  | cons t ts ih =>
    obtain ⟨ht, hts⟩ := List.forall_mem_cons.mp h
    have hfirst : Crosses start quiet (Seeks start) [t] (fun _ => True) (Seeks start) := by
      refine Crosses.single fun c hc hseeks => ?_
      have hskip : isSkipped c.look.tag = true := hc ▸ ht
      have htag : c.look.tag ≠ .endOfInput := by
        intro htag
        rw [htag] at hskip
        cases hskip
      exact ⟨hseeks.advance hskip, fun _ => hseeks.silent htag⟩
    exact hfirst.trans (ih hts) fun _ _ => trivial

theorem Crosses.after_skipped {Q : Cursor → Prop} (hts : ∀ t ∈ ts, isSkipped t.tag = true)
    (h : Crosses start quiet (Seeks start) us next Q) :
    Crosses start quiet (Seeks start) (ts ++ us) next Q := by
  have hfront : Crosses start quiet (Seeks start) ts (fun _ => True) (Seeks start) :=
    crosses_skipped hts
  exact hfront.trans h fun _ _ => trivial

/-- Semicolons are passed over, and the top level stands behind the last of them. -/
theorem crosses_semicolons (b : Bool) (k : Nat) :
    Crosses start quiet (Poised start b) (semicolons (k + 1)) next (Turns .topLevel start) := by
  induction k generalizing b with
  | zero => exact Crosses.single fun c hc h => (h.silent_semicolon (hc ▸ rfl)).imp id fun h _ => h
  | succ k ih =>
    have hfirst : Crosses start quiet (Poised start b) [mark .semicolon] (fun _ => True)
        (Poised start true) :=
      Crosses.single fun c hc h => (h.silent_semicolon (hc ▸ rfl)).imp id fun h _ => h
    exact hfirst.trans (ih true) fun _ _ => trivial

/-- A token that starts no statement of the top level is searched through. -/
theorem crosses_other {t : Token} (htop : startsAtTop t.tag = false)
    (hskip : isSkipped t.tag = true) (b : Bool) :
    Crosses start quiet (Poised start b) [t] next (Seeks start) := by
  refine Crosses.single fun c hc h => ?_
  have hseeks : Seeks start c := h.seeks (hc ▸ htop) (hc ▸ hskip)
  have htag : c.look.tag ≠ .endOfInput := by
    intro htag
    rw [← hc, htag] at hskip
    cases hskip
  exact ⟨hseeks.advance (hc ▸ hskip), fun _ => hseeks.silent htag⟩

/-- A statement that may stand at the top level is ahead. -/
def FacesStatement (c : Cursor) : Prop :=
  ∃ (s : Stmt) (rest : List Token), startsAtTop s.firstTag = true ∧
    c.ahead.map Located.token = s.tokens ++ rest

end Modes

/-! ### Tokens that do not stop the search -/

/-- The search for a semicolon passes over all of the tokens. -/
def Skipped (ts : List Token) : Prop :=
  ∀ t ∈ ts, isSkipped t.tag = true

@[simp] theorem skipped_nil : Skipped [] := by
  intro t ht
  cases ht

@[simp] theorem skipped_cons {t : Token} {ts : List Token} :
    Skipped (t :: ts) ↔ isSkipped t.tag = true ∧ Skipped ts :=
  List.forall_mem_cons

@[simp] theorem skipped_append {ts us : List Token} :
    Skipped (ts ++ us) ↔ Skipped ts ∧ Skipped us :=
  List.forall_mem_append

theorem Skipped.parens {ts : List Token} (h : Skipped ts) : Skipped (parens ts) := by
  simp [Written.parens, h]

theorem Skipped.parensIf {ts : List Token} (h : Skipped ts) (b : Bool) :
    Skipped (parensIf b ts) := by
  cases b with
  | false => exact h
  | true => exact h.parens

mutual

theorem Expr.skipped_tokens : ∀ e : Expr, Skipped e.tokens
  | .literal kind text => by cases kind <;> simp [Expr.tokens, Literal.tag]
  | .var name => by simp [Expr.tokens]
  | .call name args => by
    simp [Expr.tokens, Expr.skipped_argTokens args]
  | .binary op left right => by
    have hleft := left.skipped_tokens.parensIf (Expr.wrapsLeft op left left.tokens)
    have hright := right.skipped_tokens.parensIf (Expr.wrapsRight op right)
    cases op <;> simp [Expr.tokens, hleft, hright, BinaryOp.tag]
  | .unary op operand => by
    have hoperand := operand.skipped_tokens.parensIf (operand.strength < 2)
    cases op <;> exact skipped_cons.mpr ⟨rfl, hoperand⟩
  | .grouped inner => inner.skipped_tokens.parens

theorem Expr.skipped_argTokens : ∀ es : List Expr, Skipped (Expr.argTokens es)
  | [] => skipped_nil
  | e :: es => skipped_append.mpr ⟨e.skipped_tokens, Expr.skipped_moreArgTokens es⟩

theorem Expr.skipped_moreArgTokens : ∀ es : List Expr, Skipped (Expr.moreArgTokens es)
  | [] => skipped_nil
  | e :: es => by
    simp [Expr.moreArgTokens, e.skipped_tokens,
      Expr.skipped_moreArgTokens es]

end

theorem Test.skipped_tokens (t : Test) : Skipped t.tokens := by
  cases t with
  | plain e => exact e.leading.skipped_tokens
  | compare op left right =>
    cases op <;> simp [Test.tokens, Comparison.tag,
      left.leading.skipped_tokens, right.skipped_tokens]

theorem Condition.skipped_tokens (c : Condition) : Skipped c.tokens := by
  induction c with
  | test t => exact t.skipped_tokens
  | chain t op rest ih =>
    cases op <;> simp [Condition.tokens, Connective.tag,
      t.skipped_tokens, ih]

theorem skipped_moreParamTokens (ps : List String) : Skipped (moreParamTokens ps) := by
  induction ps with
  | nil => exact skipped_nil
  | cons p ps ih => simp [moreParamTokens, ih]

theorem skipped_paramTokens (ps : List String) : Skipped (paramTokens ps) := by
  cases ps with
  | nil => exact skipped_nil
  | cons p ps => simp [paramTokens, skipped_moreParamTokens]

namespace Stmt

theorem isSkipped_firstTag (s : Stmt) : isSkipped s.firstTag = true := by
  cases s with
  | declare type name extra => cases type <;> rfl
  | declareInit type name value extra => cases type <;> rfl
  | block kind body => cases kind <;> rfl
  | _ => rfl

/-! ### Simple statements and bodies -/

/-- Whether a statement is one that ends with semicolons. -/
def isSimple : Stmt → Bool
  | .assign .. | .declare .. | .declareInit .. | .call .. | .output .. | .ret .. | .retValue .. =>
    true
  | _ => false

/-- The tokens of a statement in front of its first body. -/
def header : Stmt → List Token
  | .ifThen condition _ | .ifElse condition _ _ => mark .ifWord :: parens condition.tokens
  | .loop condition _ => mark .whileWord :: parens condition.tokens
  | .func name params _ => mark .function :: named name :: parens (paramTokens params)
  | .block kind _ => [mark kind.tag]
  | _ => []

theorem skipped_header (s : Stmt) : Skipped s.header := by
  cases s with
  | ifThen c | ifElse c | loop c => simp [header, c.skipped_tokens.parens]
  | func name ps body => simp [header, (skipped_paramTokens ps).parens]
  | block kind body => cases kind <;> simp [header, BlockKind.tag]
  | _ => exact skipped_nil

/-- The bodies of a statement, each with the tokens in front of it and behind it. -/
def bodies (s : Stmt) : List (List Token × List Stmt × List Token) :=
  match s with
  | .ifThen _ body | .loop _ body | .func _ _ body | .block _ body =>
    [(s.header ++ [mark .lbrace], body, [mark .rbrace])]
  | .ifElse _ body orElse =>
    [(s.header ++ [mark .lbrace], body,
        mark .rbrace :: mark .elseWord :: braces (allTokens orElse)),
      (s.header ++ (braces (allTokens body) ++ [mark .elseWord, mark .lbrace]), orElse,
        [mark .rbrace])]
  | _ => []

/-- A body is a part of its statement, and a closing brace follows it. -/
theorem bodies_spec {s : Stmt} {opening closing : List Token} {body : List Stmt}
    (h : (opening, body, closing) ∈ s.bodies) :
    s.tokens = opening ++ (allTokens body ++ closing) ∧ (∀ g, leadTag g closing = .rbrace) ∧
      sizeOf body < sizeOf s := by
  cases s with
  | ifElse c thenBody orElse =>
    simp only [bodies, List.mem_cons, List.not_mem_nil, or_false, Prod.mk.injEq] at h
    rcases h with ⟨rfl, rfl, rfl⟩ | ⟨rfl, rfl, rfl⟩
    · exact ⟨by simp [header, braces], fun _ => rfl, by simp only [ifElse.sizeOf_spec]; omega⟩
    · exact ⟨by simp [header, braces], fun _ => rfl, by simp only [ifElse.sizeOf_spec]; omega⟩
  | ifThen | loop | func | block =>
    simp only [bodies, List.mem_singleton, Prod.mk.injEq] at h
    obtain ⟨rfl, rfl, rfl⟩ := h
    refine ⟨by simp [header, braces], fun _ => rfl, ?_⟩
    simp only [ifThen.sizeOf_spec, loop.sizeOf_spec, func.sizeOf_spec, block.sizeOf_spec]
    omega
  | _ => cases h

/-- A simple statement is passed over to its first semicolon. -/
theorem simple_tokens {s : Stmt} (h : s.isSimple = true) :
    ∃ front k, s.tokens = front ++ semicolons (k + 1) ∧ Skipped front := by
  cases s with
  | assign name value extra =>
    refine ⟨named name :: mark .assign :: value.tokens, extra, rfl, ?_⟩
    simp [value.skipped_tokens]
  | declare type name extra =>
    refine ⟨[mark type.tag, named name], extra, rfl, ?_⟩
    cases type <;> simp [DeclType.tag]
  | declareInit type name value extra =>
    refine ⟨mark type.tag :: named name :: mark .assign :: value.tokens, extra, rfl, ?_⟩
    cases type <;> simp [DeclType.tag, value.skipped_tokens]
  | call name args extra =>
    refine ⟨named name :: mark .lparen :: (Expr.argTokens args ++ [mark .rparen]), extra, ?_, ?_⟩
    · simp
    · simp [Expr.skipped_argTokens]
  | output shown extra =>
    refine ⟨mark .output :: mark .lparen :: (shown.tokens ++ [mark .rparen]), extra, ?_, ?_⟩
    · simp
    · simp [shown.skipped_tokens]
  | ret extra => exact ⟨[mark .returnWord], extra, rfl, by simp⟩
  | retValue result extra =>
    refine ⟨mark .returnWord :: result.tokens, extra, rfl, ?_⟩
    simp [result.skipped_tokens]
  | _ => cases h

/-! ### Exposed statements -/

mutual

/-- Whether a search through the statement comes to stand in front of a statement inside that may
stand at the top level. -/
def exposes : Stmt → Bool
  | .ifThen _ body | .loop _ body | .func _ _ body | .block _ body => exposesAfter false body
  | .ifElse _ body orElse => exposesAfter false body || exposesAfter false orElse
  | _ => false

/-- Whether one of the statements of a body, or one inside them, may stand at the top level and
follows a simple statement; `simple` says whether there is a simple statement in front of them. -/
def exposesAfter (simple : Bool) : List Stmt → Bool
  | [] => false
  | s :: ss => simple && startsAtTop s.firstTag || s.exposes || exposesAfter s.isSimple ss

end

/-! ### Walking over statements -/

variable {start : Cursor} {quiet : Prop} {next : Tag → Prop}

/-- The statement is read as a whole where the top level stands in front of it, or it may not stand
there and exposes nothing. -/
def Passable (s : Stmt) : Prop :=
  s.Flat ∨ s.exposes = false ∧ startsAtTop s.firstTag = false

theorem passable_of_allFlat {ss : List Stmt} (h : AllFlat ss) : ∀ s ∈ ss, s.Passable := by
  induction ss with
  | nil => exact fun _ hs => nomatch hs
  | cons s ss ih => exact List.forall_mem_cons.mpr ⟨.inl h.2.1, ih h.2.2⟩

theorem crosses_simple {s : Stmt} (h : s.isSimple = true) :
    Crosses start quiet (Seeks start) s.tokens next (Poised start true) := by
  obtain ⟨front, k, htokens, hfront⟩ := simple_tokens h
  rw [htokens]
  exact Crosses.after_skipped hfront (crosses_semicolons false k)

/-- Behind its closing brace a body is searched through, however it ends. -/
theorem crosses_braces {body : List Token} {b : Bool}
    (h : Crosses start quiet (Poised start false) body EndsStmt (Poised start b)) :
    Crosses start quiet (Seeks start) (braces body) next (Seeks start) := by
  have hclose : Crosses start quiet (Poised start b) [mark .rbrace] next (Seeks start) :=
    crosses_other rfl rfl b
  have hopen : Skipped [mark .lbrace] := by simp
  exact Crosses.after_skipped hopen (h.trans hclose fun _ _ => endsStmt_rbrace)

/-- A statement that the top level stands in front of is read with all of its semicolons. -/
theorem crosses_read {s : Stmt} (hflat : s.Flat) (htop : startsAtTop s.firstTag = true) :
    Crosses start False (Poised start true) s.tokens EndsStmt (Poised start true) := by
  intro us rest line hus hnext hstands
  have htag : (Cursor.look ⟨us ++ rest, line⟩).tag = s.firstTag := by
    rw [look_tag, frontTag_append, hus, leadTag_tokens]
  have hlength : s.tokens.length = us.length := by rw [← hus, List.length_map]
  obtain ⟨ts, k, hts, -, hread⟩ := s.legible hflat (fuelFor (us ++ rest).length) (by
    rw [fuelFor, List.length_append]
    omega)
  obtain ⟨us₁, us₂, rfl, h₁, h₂⟩ := List.map_eq_append_iff.mp (hus.trans hts)
  have hfront : EndsBefore k (frontTag (us₂ ++ rest)) := by
    rw [frontTag_append, h₂]
    exact hnext.before k
  have hok := hread us₁ (us₂ ++ rest) line h₁ hfront
  rw [← List.append_assoc] at hok
  have hadds := adds_read (c := ⟨us₁ ++ us₂ ++ rest, line⟩) (htag ▸ htop) hok
  have hturns : Turns .topLevel start ⟨us₂ ++ rest, lastLine line us₁⟩ :=
    Relation.ReflTransGen.tail hstands ⟨_, hadds⟩
  rw [lastLine_append]
  refine ⟨?_, False.elim⟩
  cases k with
  | zero =>
    obtain rfl := List.map_eq_nil_iff.mp h₂
    exact hturns
  | succ k =>
    have hsemicolons : Crosses start False (Poised start true) (semicolons (k + 1)) EndsStmt
        (Poised start true) := crosses_semicolons true k
    exact (hsemicolons us₂ rest _ h₂ hnext hturns).1

/-- A statement that is not read is searched through. -/
theorem seeks_of_poised {s : Stmt} {b : Bool} {us rest : List Located} {line : Int}
    (hus : us.map Located.token = s.tokens) (hb : b = false ∨ startsAtTop s.firstTag = false)
    (h : Poised start b ⟨us ++ rest, line⟩) : Seeks start ⟨us ++ rest, line⟩ := by
  have htag : (Cursor.look ⟨us ++ rest, line⟩).tag = s.firstTag := by
    rw [look_tag, frontTag_append, hus, leadTag_tokens]
  rcases hb with rfl | htop
  · exact h
  · exact h.seeks (htag ▸ htop) (htag ▸ s.isSkipped_firstTag)

theorem not_read {s : Stmt} {b : Bool} (h : ¬ (b && startsAtTop s.firstTag) = true) :
    b = false ∨ startsAtTop s.firstTag = false := by
  cases b with
  | false => exact .inl rfl
  | true => exact .inr (by simpa using h)

theorem crosses_of_unread {s : Stmt} {Q : Cursor → Prop} {b : Bool}
    (h : Crosses start quiet (Seeks start) s.tokens next Q)
    (hread : ¬ (b && startsAtTop s.firstTag) = true) :
    Crosses start quiet (Poised start b) s.tokens next Q := by
  intro us rest line hus hnext hpoised
  exact h us rest line hus hnext (seeks_of_poised hus (not_read hread) hpoised)

theorem tokens_ne_nil (s : Stmt) : s.tokens ≠ [] := by
  cases s <;> simp

/-- What follows a statement is another one or what follows all of them. -/
theorem endsStmt_leadTag_allTokens (ss : List Stmt) {g : Tag} (hg : EndsStmt g) :
    EndsStmt (leadTag g (allTokens ss)) := by
  cases ss with
  | nil => exact hg
  | cons s ss =>
    rw [allTokens, leadTag_append, leadTag_tokens]
    exact s.endsStmt_firstTag

mutual

/-- **A search passes over a statement**, and nothing is added on the way if the statement exposes
nothing. -/
theorem crosses_stmt : ∀ s : Stmt, s.Flat ∨ s.exposes = false →
    Crosses start (s.exposes = false) (Seeks start) s.tokens EndsStmt (Poised start s.isSimple)
  | .assign .., _ => crosses_simple rfl
  | .declare .., _ => crosses_simple rfl
  | .declareInit .., _ => crosses_simple rfl
  | .call .., _ => crosses_simple rfl
  | .output .., _ => crosses_simple rfl
  | .ret .., _ => crosses_simple rfl
  | .retValue .., _ => crosses_simple rfl
  | .ifThen c body, h => by
    obtain ⟨b, hbody⟩ := crosses_all body false (h.imp_left passable_of_allFlat)
    exact Crosses.after_skipped (skipped_header (.ifThen c body)) (crosses_braces hbody)
  | .loop c body, h => by
    obtain ⟨b, hbody⟩ := crosses_all body false (h.imp_left passable_of_allFlat)
    exact Crosses.after_skipped (skipped_header (.loop c body)) (crosses_braces hbody)
  | .func name ps body, h => by
    obtain ⟨b, hbody⟩ := crosses_all body false (h.imp_left passable_of_allFlat)
    exact Crosses.after_skipped (skipped_header (.func name ps body)) (crosses_braces hbody)
  | .block kind body, h => by
    obtain ⟨b, hbody⟩ := crosses_all body false (h.imp_left passable_of_allFlat)
    exact Crosses.after_skipped (skipped_header (.block kind body)) (crosses_braces hbody)
  | .ifElse c body orElse, h => by
    rw [exposes, Bool.or_eq_false_iff] at h ⊢
    obtain ⟨b, hbody⟩ := crosses_all body false
      (h.imp (fun h => passable_of_allFlat h.1) And.left)
    obtain ⟨b', hrest⟩ := crosses_all orElse false
      (h.imp (fun h => passable_of_allFlat h.2) And.right)
    -- The search goes over the header, one body, the `else` and the other body.
    have helse : Skipped [mark .elseWord] := by simp
    have hthen : Crosses start (exposesAfter false body = false ∧ exposesAfter false orElse = false)
        (Seeks start) (braces (allTokens body)) (fun _ => True) (Seeks start) :=
      crosses_braces (hbody.mono And.left)
    refine Crosses.after_skipped (skipped_header (.ifElse c body orElse)) ?_
    refine hthen.trans ?_ fun _ _ => trivial
    exact Crosses.after_skipped helse (crosses_braces (hrest.mono And.right))

theorem crosses_all : ∀ (ss : List Stmt) (b : Bool),
    (∀ s ∈ ss, s.Passable) ∨ exposesAfter b ss = false →
    ∃ b', Crosses start (exposesAfter b ss = false) (Poised start b) (allTokens ss) EndsStmt
      (Poised start b')
  | [], b, _ => ⟨b, Crosses.refl fun _ => id⟩
  | s :: ss, b, h => by
    have hnext : ∀ g, EndsStmt g → EndsStmt (leadTag g (allTokens ss)) :=
      fun _ => endsStmt_leadTag_allTokens ss
    rw [exposesAfter, Bool.or_eq_false_iff, Bool.or_eq_false_iff] at h ⊢
    by_cases hread : (b && startsAtTop s.firstTag) = true
    · -- the statement is read, so that something is exposed and all of them are passable
      rw [Bool.and_eq_true] at hread
      obtain ⟨rfl, htop⟩ := hread
      simp only [htop, Bool.and_self, Bool.true_eq_false, false_and] at h ⊢
      obtain ⟨hs, hss⟩ := List.forall_mem_cons.mp (h.resolve_right id)
      obtain ⟨b', hrest⟩ := crosses_all ss true (.inl hss)
      refine ⟨b', (crosses_read ?_ htop).trans (hrest.mono False.elim) hnext⟩
      exact hs.resolve_right fun h => by simp [htop] at h
    · have hs : s.Flat ∨ s.exposes = false := by
        rcases h with h | h
        · exact (h s List.mem_cons_self).imp id And.left
        · exact .inr h.1.2
      obtain ⟨b', hrest⟩ := crosses_all ss s.isSimple
        (h.imp (fun h => (List.forall_mem_cons.mp h).2) And.right)
      have hfirst := crosses_of_unread (crosses_stmt s hs) hread
      exact ⟨b', (hfirst.mono fun h => h.1.2).trans (hrest.mono And.right) hnext⟩

end

/-! ### Coming to stand in front of a statement -/

variable (start) in
/-- From a place that satisfies `P`, in front of the tokens `ts`, the top level comes to stand among
them in front of a statement that may stand there. -/
def Leaks (P : Cursor → Prop) (ts : List Token) : Prop :=
  ∀ (us rest : List Located) (line : Int), us.map Located.token = ts → EndsStmt (frontTag rest) →
    P ⟨us ++ rest, line⟩ → ∃ e v, Turns .topLevel start e ∧ FacesStatement e ∧ v ≠ [] ∧ v <:+ us ∧
      e.ahead = v ++ rest

section Leaks

variable {P Q : Cursor → Prop} {ts us : List Token}

theorem Leaks.append (h : Leaks start P ts) (hnext : ∀ g, EndsStmt g → EndsStmt (leadTag g us)) :
    Leaks start P (ts ++ us) := by
  intro ws rest line hws hrest hP
  obtain ⟨ws₁, ws₂, rfl, h₁, h₂⟩ := List.map_eq_append_iff.mp hws
  have hfront : EndsStmt (frontTag (ws₂ ++ rest)) := by
    rw [frontTag_append, h₂]
    exact hnext _ hrest
  rw [List.append_assoc] at hP
  obtain ⟨e, v, he, hfaces, hne, ⟨w, rfl⟩, hahead⟩ := h ws₁ (ws₂ ++ rest) line h₁ hfront hP
  refine ⟨e, v ++ ws₂, he, hfaces, by simp [hne], ⟨w, ?_⟩, by rw [hahead, List.append_assoc]⟩
  rw [List.append_assoc]

theorem Leaks.of_crosses (h : Crosses start quiet P ts next Q) (h' : Leaks start Q us)
    (hnext : ∀ g, EndsStmt g → next (leadTag g us)) : Leaks start P (ts ++ us) := by
  intro ws rest line hws hrest hP
  obtain ⟨ws₁, ws₂, rfl, h₁, h₂⟩ := List.map_eq_append_iff.mp hws
  have hfront : next (frontTag (ws₂ ++ rest)) := by
    rw [frontTag_append, h₂]
    exact hnext _ hrest
  rw [List.append_assoc] at hP
  obtain ⟨hQ, -⟩ := h ws₁ (ws₂ ++ rest) line h₁ hfront hP
  obtain ⟨e, v, he, hfaces, hne, hv, hahead⟩ := h' ws₂ rest _ h₂ hrest hQ
  exact ⟨e, v, he, hfaces, hne, hv.trans (List.suffix_append _ _), hahead⟩

end Leaks

/-- A statement that exposes something has a body that does, and the search comes to that body. -/
theorem exists_body_of_exposes {s : Stmt} (h : s.exposes = true) :
    ∃ opening body closing, (opening, body, closing) ∈ s.bodies ∧ exposesAfter false body = true ∧
      Crosses start True (Seeks start) opening (fun _ => True) (Seeks start) := by
  have hopen : Skipped [mark .lbrace] := by simp
  cases s with
  | ifThen _ body | loop _ body | func _ _ body | block _ body =>
    exact ⟨_, body, _, List.mem_singleton_self _, h,
      Crosses.after_skipped (skipped_header _) (crosses_skipped hopen)⟩
  | ifElse c body orElse =>
    cases hbody : exposesAfter false body with
    | true =>
      exact ⟨_, body, _, List.mem_cons_self, hbody,
        Crosses.after_skipped (skipped_header (.ifElse c body orElse)) (crosses_skipped hopen)⟩
    | false =>
      -- the first branch exposes nothing, so the search goes on through it
      rw [exposes, hbody, Bool.false_or] at h
      obtain ⟨b, hcross⟩ := @crosses_all start body false (.inr hbody)
      have hthen : Crosses start True (Seeks start) (braces (allTokens body)) (fun _ => True)
          (Seeks start) := crosses_braces (hcross.mono fun _ => hbody)
      have helse : Skipped [mark .elseWord, mark .lbrace] := by simp
      refine ⟨_, orElse, _, List.mem_cons_of_mem _ List.mem_cons_self, h, ?_⟩
      refine Crosses.after_skipped (skipped_header (.ifElse c body orElse)) ?_
      exact hthen.trans (crosses_skipped helse) fun _ _ => trivial
  | _ => cases h

mutual

theorem leaks_stmt (s : Stmt) (h : s.exposes = true) : Leaks start (Seeks start) s.tokens := by
  obtain ⟨opening, body, closing, hmem, hbody, hopening⟩ := exists_body_of_exposes h
  obtain ⟨htokens, hclosing, hsize⟩ := bodies_spec hmem
  have hleaks := leaks_all body false hbody
  rw [htokens]
  refine Leaks.of_crosses hopening (hleaks.append fun g _ => ?_) fun _ _ => trivial
  rw [hclosing]
  exact endsStmt_rbrace
termination_by sizeOf s

theorem leaks_all (ss : List Stmt) (b : Bool) (h : exposesAfter b ss = true) :
    Leaks start (Poised start b) (allTokens ss) := by
  match ss with
  | [] => cases h
  | s :: ss =>
    have hnext : ∀ g, EndsStmt g → EndsStmt (leadTag g (allTokens ss)) :=
      fun _ => endsStmt_leadTag_allTokens ss
    by_cases hread : (b && startsAtTop s.firstTag) = true
    · -- the top level stands in front of this statement
      rw [Bool.and_eq_true] at hread
      obtain ⟨rfl, htop⟩ := hread
      intro us rest line hus _ hstands
      refine ⟨_, us, hstands, ⟨s, allTokens ss ++ rest.map Located.token, htop, ?_⟩, ?_,
        List.suffix_refl _, rfl⟩
      · rw [List.map_append, hus, allTokens, List.append_assoc]
      · rintro rfl
        exact s.tokens_ne_nil (List.append_eq_nil_iff.mp hus.symm).1
    · rw [exposesAfter, Bool.eq_false_iff.mpr hread, Bool.false_or, Bool.or_eq_true] at h
      cases hs : s.exposes with
      | true =>
        have hfirst : Leaks start (Poised start b) s.tokens := fun us rest line hus hg hpoised =>
          leaks_stmt s hs us rest line hus hg (seeks_of_poised hus (not_read hread) hpoised)
        exact hfirst.append hnext
      | false =>
        have hrest := leaks_all ss s.isSimple (h.resolve_left (by simp [hs]))
        exact Leaks.of_crosses (crosses_of_unread (crosses_stmt s (.inr hs)) hread) hrest hnext
termination_by sizeOf ss

end

/-! ### Reading what the top level stands in front of -/

/-- The header of a written function is read up to the opening brace, so that the statements in
braces recover one by one. -/
theorem not_faults_func {c : Cursor} {n : Nat} {f : Fault} {name : String} {ps : List String}
    {rest : List Token} (hc : Covers False 1 c.ahead n n)
    (hahead : c.ahead.map Located.token =
      mark .function :: named name :: (parens (paramTokens ps) ++ mark .lbrace :: rest)) :
    ¬ Faults (funcDecl n) c f := by
  obtain ⟨ahead, line⟩ := c
  simp only [parens, List.cons_append, List.append_assoc, List.nil_append] at hahead
  obtain ⟨u₁, _, rfl, h₁, hahead⟩ := List.map_eq_cons_iff.mp hahead
  obtain ⟨u₂, _, rfl, h₂, hahead⟩ := List.map_eq_cons_iff.mp hahead
  obtain ⟨u₃, _, rfl, h₃, hahead⟩ := List.map_eq_cons_iff.mp hahead
  obtain ⟨us, _, rfl, hus, hahead⟩ := List.map_eq_append_iff.mp hahead
  obtain ⟨u₄, _, rfl, h₄, hahead⟩ := List.map_eq_cons_iff.mp hahead
  obtain ⟨u₅, vs, rfl, h₅, -⟩ := List.map_eq_cons_iff.mp hahead
  have htag : (Cursor.look ⟨u₁ :: u₂ :: u₃ :: (us ++ u₄ :: u₅ :: vs), line⟩).tag = .function := by
    simp [Cursor.look, h₁]
  -- A function fails only as a single statement without braces, and the brace is there.
  rw [funcDecl_faults hc htag]
  rintro ⟨d, hleads, -⟩
  simp only [Leads, htag] at hleads
  obtain ⟨e, hthrough, hne, -⟩ := hleads
  have hplace : ((Cursor.advance ⟨u₁ :: u₂ :: u₃ :: (us ++ u₄ :: u₅ :: vs), line⟩).past .ident).past
      .lparen = ⟨us ++ u₄ :: u₅ :: vs, u₃.line⟩ := by
    simp [Cursor.advance, Cursor.past, Cursor.look, h₂, h₃]
  have hfuel : (paramTokens ps).length + 1 ≤ fuelFor (us ++ u₄ :: u₅ :: vs).length := by
    rw [← hus, fuelFor, List.length_map, List.length_append]
    omega
  have hread : Through params ⟨us ++ u₄ :: u₅ :: vs, u₃.line⟩
      ⟨u₄ :: u₅ :: vs, lastLine u₃.line us⟩ :=
    ⟨_, params_reads ps hfuel us _ _ hus (by simp [frontTag, h₄])⟩
  rw [hplace] at hthrough
  rw [← hread.unique hthrough] at hne
  simp [Cursor.past, Cursor.look, Cursor.advance, h₄, h₅] at hne

/-- A declaration that names its variable can be read. -/
theorem not_faults_declaration {c : Cursor} {n : Nat} {f : Fault} {type : DeclType}
    (htag : c.look.tag = type.tag) (hname : c.advance.look.tag = .ident) :
    ¬ Faults (stmt (n + 1)) c f := by
  have hinit (left : Node) (d : Cursor) : ¬ Faults (initialised n left) d f :=
    (initialised_keeps (Covers.self 4 d.ahead n) left d (List.suffix_refl _)).not_faults
  have hdecl : ¬ Faults (varDecl n) c f := by
    cases type with
    | string | int | bool =>
      simp only [DeclType.tag] at htag
      simp only [varDecl, faults_peek, htag, faults_advance, faults_peekTag, if_pos hname,
        faults_textThen]
      exact hinit _ _
  cases type with
  | string | int | bool =>
    simp only [DeclType.tag] at htag
    simpa only [stmt, faults_peek, htag] using hdecl

/-- Outside blocks a written statement that may stand at the top level can be read. -/
theorem not_faults_of_faces {c : Cursor} {f : Fault} {s : Stmt} {rest : List Token}
    (htop : startsAtTop s.firstTag = true) (hblock : s.isBlock = false)
    (hahead : c.ahead.map Located.token = s.tokens ++ rest) :
    ¬ Faults (stmt (fuelFor c.ahead.length)) c f := by
  have htag : c.look.tag = s.firstTag := by
    obtain ⟨ahead, line⟩ := c
    rw [look_tag, frontTag_eq, hahead, leadTag_append, leadTag_tokens]
  have hsecond : c.advance.look.tag = leadTag .endOfInput (c.ahead.map Located.token).tail := by
    rw [← List.map_tail, ← Cursor.ahead_advance, ← frontTag_eq]
    exact look_tag _ _
  obtain ⟨n, hn⟩ : ∃ n, fuelFor c.ahead.length = n + 1 := ⟨16 * (c.ahead.length + 2) - 1, rfl⟩
  have hself : Covers True 1 c.ahead n n := Covers.self 1 c.ahead n
  rw [hn]
  cases s with
  | assign | call =>
    simp only [firstTag] at htag
    simp only [stmt, faults_peek, htag]
    exact (assignOrCall_settles n n c htag hself).not_faults
  | output shown extra =>
    simp only [firstTag] at htag
    simp only [stmt, faults_peek, htag, faults_withSemicolon]
    exact (outputStmt_settles n n c htag hself).not_faults
  | declare type name extra =>
    exact not_faults_declaration htag (by rw [hsecond, hahead]; rfl)
  | declareInit type name value extra =>
    exact not_faults_declaration htag (by rw [hsecond, hahead]; rfl)
  | func name ps body =>
    -- Only a header without a brace behind it could fail.
    simp only [firstTag] at htag
    simp only [stmt, faults_peek, htag]
    have hheader : c.ahead.map Located.token = mark .function :: named name ::
        (parens (paramTokens ps) ++ mark .lbrace :: (allTokens body ++ mark .rbrace :: rest)) := by
      rw [hahead]
      simp [braces]
    rw [fuelFor] at hn
    exact not_faults_func (.inl ⟨by omega, by omega⟩) hheader
  | block => cases hblock
  | _ => cases htop

/-- A statement that the top level stands in front of is added, if the program is read. -/
theorem exists_addsNode {ts : List Located} {t : Located} {node : Node} {c : Cursor}
    (hread : resultOn program (t :: ts) = .ok node)
    (hturns : Turns .topLevel ⟨t :: ts, t.line⟩ c) (hfaces : FacesStatement c) :
    ∃ node, AddsNode .topLevel node c := by
  obtain ⟨s, rest, htop, hahead⟩ := hfaces
  have htag : c.look.tag = s.firstTag := by
    obtain ⟨ahead, line⟩ := c
    rw [look_tag, frontTag_eq, hahead, leadTag_append, leadTag_tokens]
  have hfault (f : Fault) : ¬ Faults (stmt (fuelFor c.ahead.length)) c f := by
    cases hblock : s.isBlock with
    | false => exact not_faults_of_faces htop hblock hahead
    | true =>
      -- the fault of a block would be that of the program
      intro hfault
      have hat : AtBlock c := by
        cases s with
        | block kind body =>
          cases kind with
          | seq => exact .inl htag
          | par => exact .inr htag
        | _ => cases hblock
      have hprogram : resultOn program (t :: ts) = .error (.fault f) := by
        rw [resultOn_eq_fault_iff]
        exact (program_faults (c := ⟨t :: ts, t.line⟩)
          (covers_fuelFor (by omega) (Nat.le_refl _) (Nat.le_refl _))).mpr ⟨c, hturns, hat, hfault⟩
      rw [hread] at hprogram
      cases hprogram
  have hcovers : Covers False 2 c.ahead (fuelFor c.ahead.length) _ :=
    covers_fuelFor (by omega) (Nat.le_refl _) (Nat.le_refl _)
  rcases (stmt_settles _ _ c hcovers).ok_or_faults with ⟨node, d, hok⟩ | ⟨f, hf⟩
  · exact ⟨node, [node], d, adds_read (htag ▸ htop) hok, List.mem_singleton_self _⟩
  · exact absurd hf (hfault f)

/-- Whether a statement is a conditional or a loop. -/
def isGuard : Stmt → Bool
  | .ifThen .. | .ifElse .. | .loop .. => true
  | _ => false

theorem not_startsAtTop_of_isGuard {s : Stmt} (h : s.isGuard = true) :
    startsAtTop s.firstTag = false := by
  cases s with
  | ifThen | ifElse | loop => rfl
  | _ => cases h

end Stmt

/-! ### Whole programs -/

/-- The top level, run on the tokens `ts`, adds the node in its turn in front of the tokens `us`. -/
def ReadAt (ts us : List Located) (node : Node) : Prop :=
  ∃ start c, Cursor.start? ts = some start ∧ Turns .topLevel start c ∧ c.ahead = us ∧
    AddsNode .topLevel node c

/-- The tokens `us` start between the braces of the statement `s`, and the statements `after` follow
that. -/
def BetweenBraces (s : Stmt) (after : List Stmt) (us : List Located) : Prop :=
  ∃ opening body closing inner, (opening, body, closing) ∈ s.bodies ∧ inner ≠ [] ∧
    inner <:+ Stmt.allTokens body ∧
    us.map Located.token = inner ++ (closing ++ Stmt.allTokens after)

section Programs

open Stmt

variable {ss before after : List Stmt} {s : Stmt} {t : Located} {ts : List Located}

theorem allTokens_append (xs ys : List Stmt) :
    allTokens (xs ++ ys) = allTokens xs ++ allTokens ys := by
  induction xs with
  | nil => rfl
  | cons x xs ih => rw [List.cons_append, allTokens, allTokens, ih, List.append_assoc]

/-- The search comes by every conditional and loop of a program, if those before it expose
nothing. -/
theorem seeks_guard (hguard : s.isGuard = true) (hpassable : ∀ x ∈ before, x.Passable)
    (hts : (t :: ts).map Located.token = allTokens (before ++ s :: after)) :
    ∃ us rest line, us.map Located.token = s.tokens ∧ rest.map Located.token = allTokens after ∧
      Seeks ⟨t :: ts, t.line⟩ ⟨us ++ rest, line⟩ := by
  rw [allTokens_append, allTokens] at hts
  obtain ⟨ws, vs, heq, hws, hvs⟩ := List.map_eq_append_iff.mp hts
  obtain ⟨us, rest, rfl, hus, hrest⟩ := List.map_eq_append_iff.mp hvs
  obtain ⟨b, hcrosses⟩ := @crosses_all ⟨t :: ts, t.line⟩ before true (.inl hpassable)
  have hfront : EndsStmt (frontTag (us ++ rest)) := by
    rw [frontTag_append, hus, leadTag_tokens]
    exact s.endsStmt_firstTag
  have hstart : Poised ⟨t :: ts, t.line⟩ true ⟨ws ++ (us ++ rest), t.line⟩ := by
    rw [← heq]
    exact .refl
  obtain ⟨hpoised, -⟩ := hcrosses ws (us ++ rest) t.line hws hfront hstart
  exact ⟨us, rest, _, hus, hrest,
    seeks_of_poised hus (.inr (not_startsAtTop_of_isGuard hguard)) hpoised⟩

/-- What follows a statement of a program is no semicolon and no second branch. -/
theorem endsStmt_frontTag {rest : List Located} (hrest : rest.map Located.token = allTokens after) :
    EndsStmt (frontTag rest) := by
  rw [frontTag_eq, hrest]
  exact endsStmt_leadTag_allTokens after (by simp [EndsStmt])

/-- Nothing is read between the braces of a conditional or loop that exposes nothing. -/
theorem not_readAt_of_betweenBraces (hguard : s.isGuard = true) (hs : s.exposes = false)
    (hpassable : ∀ x ∈ before, x.Passable)
    (hts : (t :: ts).map Located.token = allTokens (before ++ s :: after)) {us : List Located}
    {node : Node} (hus : BetweenBraces s after us) : ¬ ReadAt (t :: ts) us node := by
  rintro ⟨start, c, ⟨⟩, hturns, hahead, hadds⟩
  obtain ⟨ws, rest, line, hws, hrest, hseeks⟩ := seeks_guard hguard hpassable hts
  obtain ⟨-, hsilent⟩ := crosses_stmt s (.inr hs) ws rest line hws (endsStmt_frontTag hrest) hseeks
  obtain ⟨opening, body, closing, inner, hmem, hne, hinner, hmap⟩ := hus
  have hlength := congrArg List.length hmap
  have htokens := congrArg List.length (bodies_spec hmem).1
  have hrestLength := congrArg List.length hrest
  have hwsLength := congrArg List.length hws
  have hle := hinner.length_le
  have hpos := List.length_pos_iff.mpr hne
  simp only [List.length_append, List.length_map] at hlength htokens hrestLength hwsLength
  refine hsilent hs c node hturns ?_ ?_ hadds
  · rw [hahead]
    omega
  · rw [hahead, List.length_append]
    omega

/-- Between the braces of a conditional or loop that exposes something a statement is read. -/
theorem exists_readAt_of_exposes (hguard : s.isGuard = true) (hs : s.exposes = true)
    (hpassable : ∀ x ∈ before, x.Passable)
    (hts : (t :: ts).map Located.token = allTokens (before ++ s :: after)) {program' : Node}
    (hread : resultOn program (t :: ts) = .ok program') :
    ∃ us node, BetweenBraces s after us ∧ ReadAt (t :: ts) us node := by
  obtain ⟨ws, rest, line, hws, hrest, hseeks⟩ := seeks_guard hguard hpassable hts
  obtain ⟨opening, body, closing, hmem, hbody, hopening⟩ := exists_body_of_exposes hs
  obtain ⟨htokens, hclosing, -⟩ := bodies_spec hmem
  rw [htokens] at hws
  obtain ⟨ws₁, ws', rfl, h₁, hws'⟩ := List.map_eq_append_iff.mp hws
  obtain ⟨ws₂, ws₃, rfl, h₂, h₃⟩ := List.map_eq_append_iff.mp hws'
  simp only [List.append_assoc] at hseeks
  obtain ⟨hseeks, -⟩ := hopening ws₁ (ws₂ ++ (ws₃ ++ rest)) line h₁ trivial hseeks
  have hfront : EndsStmt (frontTag (ws₃ ++ rest)) := by
    rw [frontTag_append, h₃, hclosing]
    exact endsStmt_rbrace
  obtain ⟨e, v, hturns, hfaces, hne, hv, hahead⟩ :=
    leaks_all body false hbody ws₂ (ws₃ ++ rest) _ h₂ hfront hseeks
  obtain ⟨node, hadds⟩ := exists_addsNode hread hturns hfaces
  refine ⟨e.ahead, node, ⟨opening, body, closing, v.map Located.token, hmem, ?_, ?_, ?_⟩,
    _, e, rfl, hturns, rfl, hadds⟩
  · simpa using hne
  · rw [← h₂]
    exact hv.map Located.token
  · rw [hahead, List.map_append, List.map_append, h₃, hrest]

theorem passable_of_isGuard (h : s.isGuard = true ∨ s.Flat)
    (hs : s.isGuard = true → s.exposes = false) : s.Passable := by
  rcases h with hguard | hflat
  · exact .inr ⟨hs hguard, not_startsAtTop_of_isGuard hguard⟩
  · exact .inl hflat

/-- The statements of a program are those that are read at the places which the top level comes
to. -/
theorem mem_nodes_iff {nodes : List Node}
    (hread : resultOn program (t :: ts) = .ok (.program nodes)) (node : Node) :
    node ∈ nodes ↔ ∃ us, ReadAt (t :: ts) us node := by
  obtain ⟨d, hok⟩ := (resultOn_eq_ok_iff _ _ _ _).mp hread
  obtain ⟨nodes', e, hloop, hnodes⟩ := bind_ok_iff.mp hok
  cases hnodes
  obtain ⟨-, -, hmem⟩ := parser_ok (l := .topLevel) (c := ⟨t :: ts, t.line⟩)
    (covers_fuelFor (by omega) (Nat.le_refl _) (Nat.le_refl _)) hloop
  rw [hmem]
  constructor
  · rintro (hnil | ⟨c, hturns, hadds⟩)
    · cases hnil
    · exact ⟨c.ahead, _, c, rfl, hturns, rfl, hadds⟩
  · rintro ⟨us, start, c, ⟨⟩, hturns, -, hadds⟩
    exact .inr ⟨c, hturns, hadds⟩

/-- **What is written between the braces of a conditional or loop at the top level is left out
exactly if it exposes nothing.**  The statements of a program are those that are read at the places
which the top level comes to.  No such place lies between the braces of a conditional or loop,
unless one of them has, in a body however deep, a simple statement right in front of one that may
stand at the top level. -/
theorem betweenBraces_left_out_iff {nodes : List Node} (hflat : ∀ s ∈ ss, s.isGuard = true ∨ s.Flat)
    {ts : List Located} (hts : ts.map Located.token = allTokens ss)
    (hread : resultOn program ts = .ok (.program nodes)) :
    (∀ node, node ∈ nodes ↔ ∃ us, ReadAt ts us node) ∧
    ((∀ before s after, ss = before ++ s :: after → s.isGuard = true → ∀ us node,
        BetweenBraces s after us → ¬ ReadAt ts us node) ↔
      ∀ s ∈ ss, s.isGuard = true → s.exposes = false) := by
  cases ts with
  | nil => cases hread
  | cons t ts =>
    refine ⟨mem_nodes_iff hread, ?_, ?_⟩
    · intro hnone s hs hguard
      rw [← Bool.not_eq_true]
      intro hexposes
      -- the first conditional or loop that exposes something is one that the search comes by
      have hfind : (ss.find? fun s => s.isGuard && s.exposes).isSome = true :=
        List.find?_isSome.mpr ⟨s, hs, by simp [hguard, hexposes]⟩
      obtain ⟨first, hfirst⟩ := Option.isSome_iff_exists.mp hfind
      obtain ⟨hbad, before, after, rfl, hbefore⟩ := List.find?_eq_some_iff_append.mp hfirst
      rw [Bool.and_eq_true] at hbad
      have hpassable : ∀ x ∈ before, x.Passable := by
        intro x hx
        refine passable_of_isGuard (hflat x (by simp [hx])) fun hguard => ?_
        simpa [hguard] using hbefore x hx
      obtain ⟨us, node, hus, hreadAt⟩ :=
        exists_readAt_of_exposes hbad.1 hbad.2 hpassable hts hread
      exact hnone before first after rfl hbad.1 us node hus hreadAt
    · rintro hall before s after rfl hguard us node hus
      have hpassable : ∀ x ∈ before, x.Passable := fun x hx =>
        passable_of_isGuard (hflat x (by simp [hx])) (hall x (by simp [hx]))
      exact not_readAt_of_betweenBraces hguard (hall s (by simp) hguard) hpassable hts hus

/-- The tokens of `x = 1; if (x == 1) { output(x); } else { return; }` and
`while (x < 2) { a = 1; b = 2; }` form this program. -/
def leakyStmts : List Stmt :=
  [.assign "x" (.literal .number "1") 0,
    .ifElse (.test (.compare .eq (.var "x") (.literal .number "1"))) [.output (.var "x") 0]
      [.ret 0],
    .loop (.test (.compare .lt (.var "x") (.literal .number "2")))
      [.assign "a" (.literal .number "1") 0, .assign "b" (.literal .number "2") 0]]

/-- Of the two statements in the braces of the loop the second is read at the top level. -/
theorem leakyStmts_exposed :
    resultOn program ((allTokens leakyStmts).map (Located.mk · 1)) =
      .ok (.program [(Stmt.assign "x" (.literal .number "1") 0).node,
        (Stmt.assign "b" (.literal .number "2") 0).node]) ∧
    ¬ ∀ before s after, leakyStmts = before ++ s :: after → s.isGuard = true → ∀ us node,
        BetweenBraces s after us →
          ¬ ReadAt ((allTokens leakyStmts).map (Located.mk · 1)) us node := by
  have hflat : ∀ s ∈ leakyStmts, s.isGuard = true ∨ s.Flat := by
    simp [leakyStmts, isGuard, Flat]
  have htokens : ((allTokens leakyStmts).map (Located.mk · 1)).map Located.token =
      allTokens leakyStmts := by
    rw [List.map_map]
    exact List.map_id _
  refine ⟨rfl, fun hnone => ?_⟩
  have hexposes := (betweenBraces_left_out_iff hflat htokens rfl).2.mp hnone
  exact absurd (hexposes _ (List.mem_of_getLast? rfl) rfl) (by decide)

/-- The program `if (x == 1) { a = 1; b = 2; }`. -/
def guardedStmts : List Stmt :=
  [.ifThen (.test (.compare .eq (.var "x") (.literal .number "1")))
    [.assign "a" (.literal .number "1") 0, .assign "b" (.literal .number "2") 0]]

/-- The second statement of a conditional becomes the only one of the program. -/
theorem guardedStmts_escape :
    resultOn program ((allTokens guardedStmts).map (Located.mk · 1)) =
      .ok (.program [(Stmt.assign "b" (.literal .number "2") 0).node]) :=
  rfl

end Programs

end SeqPar.Written
