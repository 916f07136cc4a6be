import SeqPar.Proofs.ExprProgress

/-!
# Progress in statements

Reading a statement fails or consumes a token.  The loops that read statements go on until they meet
a tag that ends them, and each of their turns consumes a token: a statement that is read does, and
after a statement that cannot be read the loop searches for a stop that is none of the tags that a
turn starts with.

## Main definitions

* `StatementLoop` — the loops that read statements, with what ends them and what one turn does.

## Main results

* `StatementLoop.parser_succ` — a loop is its turns, one after another.
* `stmt_settles` — **statements settle and consume a token**, by one induction on the bound over all
  parsers that call each other.
* `StatementLoop.turn_lt` — **every turn of a loop leaves fewer tokens ahead.**
* `parser_terminates` — **every parser comes to an end on every list of tokens.**
-/

namespace SeqPar.Parser

variable {spent fails : Prop} {n m : Nat} {ts : List Located} {c : Cursor}

/-! ### Simple statements -/

theorem expr_keeps (hts : Covers spent 4 ts n m) : Keeps spent fails ts (expr n) (expr m) :=
  (expr_settles n).keeps False.elim (hts.mono (List.suffix_refl _) (by omega))

theorem argList_keeps (hts : Covers spent 4 ts n m) :
    Keeps spent fails ts (argList n) (argList m) :=
  (argList_settles n).keeps False.elim hts

theorem channelPart_keeps (fault : Int → Fault) :
    Keeps spent True ts (channelPart fault) (channelPart fault) := by
  rw [channelPart]
  refine Keeps.peek fun t => ?_
  split
  · exact Keeps.advance (Keeps.pure _)
  · exact Keeps.advance (Keeps.pure _)
  · exact Keeps.advance (Keeps.pure _)
  · exact Keeps.failAt fault

theorem initialised_keeps (hts : Covers spent 4 ts n m) (left : Node) :
    Keeps spent fails ts (initialised n left) (initialised m left) := by
  rw [initialised, initialised]
  refine Keeps.peekTag fun tag => Keeps.ite (Keeps.advance ?_) (Keeps.pure _)
  exact (expr_keeps hts).bind fun right => Keeps.pure _

/-- A declaration starts with a token of its own or is none. -/
theorem varDecl_settles (h : Covers spent 1 c.ahead n m) :
    Settles spent True c.ahead c.ahead.tail (varDecl n) (varDecl m) c := by
  have hafter : c.look.tag ≠ .endOfInput → Covers spent 4 c.ahead.tail n m := by
    intro htag
    exact h.passed htag (List.suffix_refl _) (by omega)
  -- a declaration that names the type first
  have htyped (htag : c.look.tag ≠ .endOfInput) : Keeps spent True c.ahead.tail
      (do if (← peekTag) = .ident then
            let name ← textThen .ident
            initialised n (declared (some c.look.text) name)
          else failAt .expectedName)
      (do if (← peekTag) = .ident then
            let name ← textThen .ident
            initialised m (declared (some c.look.text) name)
          else failAt .expectedName) := by
    refine Keeps.peekTag fun tag => Keeps.ite ?_ (Keeps.failAt _)
    exact Keeps.textThen fun name => initialised_keeps (hafter htag) _
  rw [varDecl, varDecl]
  refine Settles.peek ?_
  split
  · refine Settles.advance (Settles.of_keeps (Keeps.textThen fun name => ?_))
    exact (channelPart_keeps _).bind fun host => (channelPart_keeps _).bind fun port => Keeps.pure _
  · next htag => exact Settles.advance (Settles.of_keeps (htyped (by simp [htag])))
  · next htag => exact Settles.advance (Settles.of_keeps (htyped (by simp [htag])))
  · next htag => exact Settles.advance (Settles.of_keeps (htyped (by simp [htag])))
  · next htag =>
    refine Settles.advance (Settles.of_keeps (Keeps.peekTag fun tag => Keeps.ite ?_ (Keeps.failAt _)))
    refine Keeps.advance (Keeps.peekText fun type => Keeps.advance ?_)
    exact initialised_keeps (hafter (by simp [htag])) _
  · exact Settles.failAt _ trivial (List.suffix_refl _)

/-- With the bound `n` the parser settles where the lookahead has the given tag, and it consumes a
token; it may stop with a fault only if `fails` says so. -/
def SettlesOn (spent fails : Prop) (tag : Tag) (n : Nat) (p : Nat → Parser Node) : Prop :=
  ∀ m c, c.look.tag = tag → Covers spent 1 c.ahead n m →
    Settles spent fails c.ahead c.ahead.tail (p n) (p m) c

/-- A parser that starts in front of its first token has plenty to spare behind it. -/
theorem Covers.behind {tag : Tag} (h : Covers spent 1 c.ahead n m) (hc : c.look.tag = tag)
    (htag : tag ≠ .endOfInput) : Covers spent 4 c.ahead.tail n m :=
  h.passed (hc ▸ htag) (List.suffix_refl _) (by omega)

theorem assignOrCall_settles (n : Nat) : SettlesOn spent fails .ident n assignOrCall := by
  intro m c htag hc
  have hafter := hc.behind htag (by simp)
  simp only [assignOrCall, pure_bind]
  refine Settles.textThen_self htag (Settles.of_keeps (Keeps.peekTag fun tag => ?_))
  split
  · refine Keeps.advance (Keeps.peekTag fun tag => Keeps.ite (Keeps.advance ?_) ?_)
    · refine Keeps.peekTag fun tag => Keeps.ite ?_ (Keeps.accept (Keeps.pure _))
      exact (argList_keeps hafter).bind fun args => Keeps.accept (Keeps.pure _)
    · exact (expr_keeps hafter).bind fun right => Keeps.accept (Keeps.pure _)
  · exact (argList_keeps hafter).bind fun args => Keeps.accept (Keeps.pure _)
  · exact Keeps.accept (Keeps.pure _)

theorem sendStmt_settles (n : Nat) : SettlesOn spent fails .send n sendStmt := by
  intro m c htag hc
  have hafter := hc.behind htag (by simp)
  rw [sendStmt, sendStmt]
  refine Settles.accept_self htag (Settles.of_keeps (Keeps.accept ?_))
  refine (expr_keeps hafter).bind fun message => Keeps.accept (Keeps.textThen fun channel => ?_)
  exact Keeps.accept (Keeps.pure _)

/-- The word `receive` is not the name that a `receive` statement asks for first, so it stays until
it is asked for. -/
theorem receiveStmt_settles (n : Nat) : SettlesOn spent fails .receive n fun _ => receiveStmt := by
  intro m c htag _
  simp only [receiveStmt]
  refine Settles.textThen_ne (by simp [htag]) (Settles.accept_ne (by simp [htag]) ?_)
  refine Settles.accept_self htag (Settles.of_keeps (Keeps.accept ?_))
  exact Keeps.textThen fun channel => Keeps.accept (Keeps.pure _)

theorem outputStmt_settles (n : Nat) : SettlesOn spent fails .output n outputStmt := by
  intro m c htag hc
  have hafter := hc.behind htag (by simp)
  rw [outputStmt, outputStmt]
  refine Settles.accept_self htag (Settles.of_keeps (Keeps.accept ?_))
  exact (expr_keeps hafter).bind fun shown => Keeps.accept (Keeps.accept (Keeps.pure _))

theorem returnStmt_settles (n : Nat) : SettlesOn spent fails .returnWord n returnStmt := by
  intro m c htag hc
  have hafter := hc.behind htag (by simp)
  simp only [returnStmt, pure_bind]
  refine Settles.accept_self htag (Settles.of_keeps (Keeps.peekTag fun tag => ?_))
  refine Keeps.ite (Keeps.accept (Keeps.pure _)) ?_
  exact (expr_keeps hafter).bind fun result => Keeps.accept (Keeps.pure _)

theorem inputStmt_settles (n : Nat) : SettlesOn spent fails (.other "INPUT") n inputStmt := by
  intro m c htag hc
  have hafter := hc.behind htag (by simp)
  simp only [inputStmt, pure_bind]
  refine Settles.peek (Settles.advance (Settles.of_keeps (Keeps.peekTag fun tag => ?_)))
  refine Keeps.ite ?_ (Keeps.accept (Keeps.pure _))
  exact (argList_keeps hafter).bind fun args => Keeps.accept (Keeps.pure _)

theorem numberStmt_settles :
    Settles spent fails c.ahead c.ahead.tail numberStmt numberStmt c := by
  rw [numberStmt]
  exact Settles.peek (Settles.advance (Settles.of_keeps (Keeps.accept (Keeps.pure _))))

theorem params_keeps (hts : Covers spent 4 ts n m) :
    Keeps spent fails ts (params n) (params m) := by
  simp only [params, paramsAfter_eq]
  refine Keeps.peekTag fun tag => Keeps.ite (Keeps.pure _) (Keeps.textThen fun name => ?_)
  refine chain_keeps rfl (fun k _ => ?_) _ m ts (hts.mono (List.suffix_refl _) (by omega))
  exact fun _ _ _ => Keeps.textThen_last .ident

/-! ### Loops -/

/-- The loops that read statements. -/
inductive StatementLoop where
  /-- The statements of a block or branch. -/
  | block
  /-- The statements of a sequential block without braces. -/
  | lenient
  /-- The statements of a function. -/
  | function
  /-- The statements of a program. -/
  | topLevel
  deriving DecidableEq

/-- Adds a statement to those so far; after one that cannot be read, goes on behind a stop. -/
def readOrSkip (stops : StopSet) (n : Nat) (done : List Node) : Parser (List Node) :=
  recover (do return done ++ [← stmt n]) (do
    skipTo stops
    optionalSemicolon
    return done)

namespace StatementLoop

/-- The parser of a loop, after the statements so far. -/
def parser : StatementLoop → Nat → List Node → Parser (List Node)
  | .block => stmts
  | .lenient => lenientStmts
  | .function => funcStmts
  | .topLevel => topLevelAfter

/-- Whether a tag ends a loop. -/
def ends : StatementLoop → Tag → Bool
  | .block, tag | .lenient, tag => blockEnds.contains tag
  | .function, tag => tag == .rbrace || tag == .endOfInput
  | .topLevel, tag => tag == .endOfInput

/-- What a loop does in front of a tag that neither ends it nor is that of a semicolon. -/
def read : StatementLoop → Nat → Tag → List Node → Parser (List Node)
  | .block, n, _, done => do return done ++ [← stmt n]
  | .lenient, n, _, done => readOrSkip lenientStops n done
  | .function, n, _, done => readOrSkip bodyStops n done
  | .topLevel, n, tag, done =>
    if tag = .seq ∨ tag = .par then do return done ++ [← Parser.block n]
    else if startsTopLevel tag then readOrSkip statementStops n done
    else do
      skipStatement
      return done

/-- One turn of a loop. -/
def turn (l : StatementLoop) (n : Nat) (tag : Tag) (done : List Node) : Parser (List Node) :=
  if tag = .semicolon then do
    advance
    return done
  else l.read n tag done

/-- A loop, turn by turn, until a tag ends it. -/
def unrolled (l : StatementLoop) (n : Nat) (done : List Node) : Parser (List Node) := do
  let tag ← peekTag
  if l.ends tag then return done
  else
    let done ← l.turn n tag done
    l.parser n done

theorem stmts_succ (n : Nat) (done : List Node) : stmts (n + 1) done = block.unrolled n done := by
  rw [stmts, unrolled]
  refine bind_congr fun tag => ?_
  by_cases hsemi : tag = .semicolon
  · simp [ends, turn, parser, hsemi]
  · simp [ends, turn, read, parser, hsemi]

theorem lenientStmts_succ (n : Nat) (done : List Node) :
    lenientStmts (n + 1) done = lenient.unrolled n done := by
  rw [lenientStmts, unrolled]
  refine bind_congr fun tag => ?_
  by_cases hsemi : tag = .semicolon
  · simp [ends, turn, parser, hsemi]
  · simp [ends, turn, read, parser, readOrSkip, hsemi]

theorem funcStmts_succ (n : Nat) (done : List Node) :
    funcStmts (n + 1) done = function.unrolled n done := by
  rw [funcStmts, unrolled]
  refine bind_congr fun tag => ?_
  split
  · simp [ends]
  · simp [ends]
  · simp [ends, turn, parser]
  · next hbrace hend hsemi =>
    have hnot : tag ≠ .rbrace ∧ tag ≠ .endOfInput ∧ tag ≠ .semicolon := ⟨hbrace, hend, hsemi⟩
    simp [ends, turn, read, parser, readOrSkip, hnot]

theorem topLevelAfter_succ (n : Nat) (done : List Node) :
    topLevelAfter (n + 1) done = topLevel.unrolled n done := by
  rw [topLevelAfter, unrolled]
  refine bind_congr fun tag => ?_
  split
  · simp [ends]
  · simp [ends, turn, parser]
  · simp [ends, turn, read, parser]
  · simp [ends, turn, read, parser]
  · next hend hsemi hseq hpar =>
    have hnot : tag ≠ .endOfInput ∧ tag ≠ .semicolon ∧ tag ≠ .seq ∧ tag ≠ .par :=
      ⟨hend, hsemi, hseq, hpar⟩
    by_cases hstarts : startsTopLevel tag = true
    · simp [ends, turn, read, parser, readOrSkip, skipStatement, hnot, hstarts]
    · simp [ends, turn, read, parser, skipStatement, hnot, hstarts]

/-- **A loop is its turns, one after another.** -/
theorem parser_succ (l : StatementLoop) (n : Nat) (done : List Node) :
    l.parser (n + 1) done = l.unrolled n done := by
  cases l with
  | block => exact stmts_succ n done
  | lenient => exact lenientStmts_succ n done
  | function => exact funcStmts_succ n done
  | topLevel => exact topLevelAfter_succ n done

theorem parser_zero (l : StatementLoop) (done : List Node) : l.parser 0 done = outOfFuel := by
  cases l with
  | block => rw [parser, stmts]
  | lenient => rw [parser, lenientStmts]
  | function => rw [parser, funcStmts]
  | topLevel => rw [parser, topLevelAfter]

theorem ends_endOfInput (l : StatementLoop) : l.ends .endOfInput = true := by
  cases l <;> rfl

/-- A tag that does not end a loop is that of a token. -/
theorem tag_ne_endOfInput {l : StatementLoop} {tag : Tag} (h : l.ends tag = false) :
    tag ≠ .endOfInput := by
  rintro rfl
  rw [l.ends_endOfInput] at h
  cases h

/-- With the bound `n`, what a loop does in front of a statement settles and consumes a token. -/
def ReadSettles (l : StatementLoop) (spent : Prop) (n : Nat) : Prop :=
  ∀ m c done, l.ends c.look.tag = false → c.look.tag ≠ .semicolon → Covers spent 2 c.ahead n m →
    Settles spent True c.ahead c.ahead.tail (l.read n c.look.tag done) (l.read m c.look.tag done) c

/-- A turn consumes a token. -/
theorem turn_settles {l : StatementLoop} (h : ReadSettles l spent n)
    (hend : l.ends c.look.tag = false) (hc : Covers spent 2 c.ahead n m) (done : List Node) :
    Settles spent True c.ahead c.ahead.tail (l.turn n c.look.tag done) (l.turn m c.look.tag done)
      c := by
  rw [turn, turn]
  by_cases hsemi : c.look.tag = .semicolon
  · rw [if_pos hsemi, if_pos hsemi]
    exact Settles.advance (Settles.pure done c.advance_suffix_tail)
  · rw [if_neg hsemi, if_neg hsemi]
    exact h m c done hend hsemi hc

/-- **A loop settles**, by induction on the bound, since each turn does. -/
theorem parser_keeps {l : StatementLoop} (h : ∀ k < n, ReadSettles l spent k) (done : List Node) :
    KeepsWithin spent True 3 n fun n => l.parser n done := by
  induction n generalizing done with
  | zero => exact KeepsWithin.of_succ (l.parser_zero done) fun k _ _ hk => nomatch hk
  | succ n ih =>
    refine KeepsWithin.of_succ (l.parser_zero done) ?_
    rintro _ m ts ⟨⟩ hts c hc
    have hcovers := hts.mono hc (Nat.le_refl _)
    simp only [parser_succ, unrolled]
    refine Settles.peekTag ?_
    cases hend : l.ends c.look.tag with
    | true => exact Settles.pure done hc
    | false =>
      have hturn := turn_settles (h n (Nat.lt_succ_self n)) hend
        (hcovers.call (List.suffix_refl _) (Nat.le_refl _)) done
      refine (hturn.mono id hc (List.suffix_refl _)).bind ?_
      intro done d hd
      -- behind the turn there is a token less, so what is left is enough for the other turns
      have hrest := ih (fun k hk => h k (Nat.lt_succ_of_lt hk)) done m c.ahead.tail
        (hcovers.callAfter (tag_ne_endOfInput hend) (by omega))
      exact (hrest d hd).mono id ((List.tail_suffix _).trans hc) ((List.tail_suffix _).trans hc)

end StatementLoop

/-! ### Recovering -/

/-- The search for a stop passes over a lookahead that is none, if the statement that could not be
read has not consumed it. -/
theorem skip_settles {stops : StopSet} {d : Cursor} (hd : d.ahead <:+ c.ahead)
    (hstop : stops.tags.contains c.look.tag = false) (done : List Node) :
    Settles spent True c.ahead c.ahead.tail
      (do skipTo stops; optionalSemicolon; return done)
      (do skipTo stops; optionalSemicolon; return done) d := by
  have htail : (d.skipTo stops.tags.contains).ahead <:+ c.ahead.tail := by
    rcases eq_or_suffix_tail hd with hsame | hfewer
    · rw [← Cursor.look_eq hsame] at hstop
      rw [← hsame]
      exact Cursor.skipTo_suffix_tail hstop
    · exact (d.skipTo_suffix _).trans hfewer
  refine Settles.skipTo (Settles.accept fun e he => ?_)
  exact Settles.pure done (he.trans htail)

theorem readOrSkip_settles {stops : StopSet} (hstmt : SettlesWithin spent True 2 n stmt)
    (hc : Covers spent 2 c.ahead n m) (hstop : stops.tags.contains c.look.tag = false)
    (done : List Node) :
    Settles spent True c.ahead c.ahead.tail (readOrSkip stops n done) (readOrSkip stops m done)
      c := by
  have hread := (hstmt m c hc).bind fun node d hd => Settles.pure (done ++ [node]) hd
  exact hread.recover fun d hd => skip_settles hd hstop done

namespace StatementLoop

/-- The stops of the search are tags that end the loop or semicolons. -/
theorem not_stop {l : StatementLoop} {stops : StopSet}
    (h : ∀ tag ∈ stops.tags, l.ends tag = true ∨ tag = .semicolon) {tag : Tag}
    (hend : l.ends tag = false) (hsemi : tag ≠ .semicolon) : stops.tags.contains tag = false := by
  cases hstop : stops.tags.contains tag with
  | false => rfl
  | true =>
    rcases h tag (by simpa using hstop) with htrue | htag
    · rw [htrue] at hend
      cases hend
    · exact absurd htag hsemi

theorem readSettles_block (hstmt : SettlesWithin spent True 2 n stmt) :
    ReadSettles .block spent n := by
  intro m c done _ _ hc
  exact (hstmt m c hc).bind fun node d hd => Settles.pure (done ++ [node]) hd

theorem readSettles_lenient (hstmt : SettlesWithin spent True 2 n stmt) :
    ReadSettles .lenient spent n := by
  intro m c done hend hsemi hc
  have hstop : lenientStops.tags.contains c.look.tag = false := not_stop (by decide) hend hsemi
  exact readOrSkip_settles hstmt hc hstop done

theorem readSettles_function (hstmt : SettlesWithin spent True 2 n stmt) :
    ReadSettles .function spent n := by
  intro m c done hend hsemi hc
  have hstop : bodyStops.tags.contains c.look.tag = false := not_stop (by decide) hend hsemi
  exact readOrSkip_settles hstmt hc hstop done

theorem readSettles_topLevel (hstmt : SettlesWithin spent True 2 n stmt)
    (hblock : SettlesWithin spent True 1 n Parser.block) : ReadSettles .topLevel spent n := by
  intro m c done hend hsemi hc
  have hstop : statementStops.tags.contains c.look.tag = false := not_stop (by decide) hend hsemi
  rw [read, read]
  split
  · have hread := hblock m c (hc.mono (List.suffix_refl _) (by omega))
    exact hread.bind fun node d hd => Settles.pure (done ++ [node]) hd
  · split
    · exact readOrSkip_settles hstmt hc hstop done
    · simp only [skipStatement, bind_assoc]
      exact skip_settles (List.suffix_refl _) hstop done

end StatementLoop

/-! ### Compound statements -/

open StatementLoop

/-- What is known of statements while the bound is smaller. -/
def StmtsSettle (spent : Prop) (n : Nat) : Prop :=
  ∀ k < n, SettlesWithin spent True 2 k stmt

theorem StmtsSettle.of_le (h : StmtsSettle spent n) (hm : m ≤ n) : StmtsSettle spent m :=
  fun k hk => h k (Nat.lt_of_lt_of_le hk hm)

/-- A parser that passes over its first token before it calls others. -/
theorem SettlesOn.of_succ {tag : Tag} {p : Nat → Parser Node} (htag : tag ≠ .endOfInput)
    (hzero : p 0 = outOfFuel)
    (h : ∀ k m c, n = k + 1 → c.look.tag = tag → Covers spent 6 c.ahead.tail k m →
      Settles spent True c.ahead c.ahead.tail (p (k + 1)) (p (m + 1)) c) :
    SettlesOn spent True tag n p := by
  intro m c hc hcovers
  match n, m with
  | 0, _ => exact Settles.of_zero hzero hcovers (.inl rfl)
  | _, 0 => exact Settles.of_zero hzero hcovers (.inr rfl)
  | k + 1, m + 1 => exact h k m c rfl hc (hcovers.callAfter (hc ▸ htag) (by omega))

section Compound

variable (h : StmtsSettle spent n)

include h

theorem loop_keeps {l : StatementLoop}
    (hl : ∀ {k}, SettlesWithin spent True 2 k stmt → l.ReadSettles spent k)
    (hts : Covers spent 4 ts n m) (done : List Node) :
    Keeps spent True ts (l.parser n done) (l.parser m done) :=
  StatementLoop.parser_keeps (fun k hk => hl (h k hk)) done m ts
    (hts.mono (List.suffix_refl _) (by omega))

theorem body_keeps : KeepsWithin spent True 5 n body := by
  refine KeepsWithin.of_succ (by rw [body]) ?_
  rintro n m ts rfl hts
  have hcall : Covers spent 4 ts n m := hts.call (List.suffix_refl _) (Nat.le_refl _)
  rw [body, body]
  refine Keeps.peekTag fun tag => ?_
  split
  · refine Keeps.advance ?_
    exact (loop_keeps (h.of_le (Nat.le_succ n)) readSettles_block hcall []).bind fun inner =>
      Keeps.accept (Keeps.pure _)
  · have hstmt := (h n (Nat.lt_succ_self n)).keeps id (hcall.mono (List.suffix_refl _) (by omega))
    exact hstmt.bind fun node => Keeps.pure _

theorem seqBlock_settles : SettlesOn spent True .seq n seqBlock := by
  refine SettlesOn.of_succ (by simp) (by rw [seqBlock]) ?_
  rintro n m c rfl htag hts
  have hbelow := h.of_le (Nat.le_succ n)
  have hcovers := hts.mono (List.suffix_refl _) (show 4 ≤ 6 by omega)
  rw [seqBlock, seqBlock]
  refine Settles.accept_self htag (Settles.of_keeps (Keeps.peekTag fun tag => Keeps.ite ?_ ?_))
  · refine Keeps.advance ?_
    exact (loop_keeps hbelow readSettles_block hcovers []).bind fun body =>
      Keeps.accept (Keeps.pure _)
  · exact (loop_keeps hbelow readSettles_lenient hcovers []).bind fun body => Keeps.pure _

theorem parBlock_settles : SettlesOn spent True .par n parBlock := by
  refine SettlesOn.of_succ (by simp) (by rw [parBlock]) ?_
  rintro n m c rfl htag hts
  have hstmts := loop_keeps (h.of_le (Nat.le_succ n)) readSettles_block
    (hts.mono (List.suffix_refl _) (show 4 ≤ 6 by omega)) []
  rw [parBlock, parBlock]
  refine Settles.accept_self htag (Settles.of_keeps (Keeps.peekTag fun tag => Keeps.ite ?_ ?_))
  · exact Keeps.advance (hstmts.bind fun body => Keeps.accept (Keeps.pure _))
  · exact hstmts.bind fun body => Keeps.pure _

theorem ifStmt_settles : SettlesOn spent True .ifWord n ifStmt := by
  refine SettlesOn.of_succ (by simp) (by rw [ifStmt]) ?_
  rintro n m c rfl htag hts
  have hbody := body_keeps (h.of_le (Nat.le_succ n)) m _ (hts.mono (List.suffix_refl _) (by omega))
  have hcondition := condition_keeps (hts.mono (List.suffix_refl _) (show 4 ≤ 6 by omega))
  rw [ifStmt, ifStmt]
  refine Settles.accept_self htag (Settles.of_keeps (hcondition.bind fun test => ?_))
  refine Keeps.bind (hbody.recover (Keeps.skipTo (Keeps.pure []))) fun thenBody => ?_
  refine Keeps.peekTag fun tag => Keeps.ite (Keeps.advance ?_) (Keeps.pure _)
  exact Keeps.bind (hbody.recover (Keeps.skipTo (Keeps.pure []))) fun elseBody => Keeps.pure _

theorem whileStmt_settles : SettlesOn spent True .whileWord n whileStmt := by
  refine SettlesOn.of_succ (by simp) (by rw [whileStmt]) ?_
  rintro n m c rfl htag hts
  have hbody := body_keeps (h.of_le (Nat.le_succ n)) m _ (hts.mono (List.suffix_refl _) (by omega))
  have hcondition := condition_keeps (hts.mono (List.suffix_refl _) (show 4 ≤ 6 by omega))
  rw [whileStmt, whileStmt]
  refine Settles.accept_self htag (Settles.of_keeps (hcondition.bind fun test => ?_))
  refine Keeps.bind (hbody.recover (Keeps.skipTo ?_)) fun inner => Keeps.pure _
  exact Keeps.accept (Keeps.pure [])

theorem funcDecl_settles : SettlesOn spent True .function n funcDecl := by
  refine SettlesOn.of_succ (by simp) (by rw [funcDecl]) ?_
  rintro n m c rfl htag hts
  have hcovers := hts.mono (List.suffix_refl _) (show 4 ≤ 6 by omega)
  have hstmt := (h n (Nat.lt_succ_self n)).keeps id (hcovers.mono (List.suffix_refl _) (by omega))
  rw [funcDecl, funcDecl]
  refine Settles.accept_self htag (Settles.of_keeps (Keeps.textThen fun name => Keeps.accept ?_))
  refine (params_keeps hcovers).bind fun ps => Keeps.accept (Keeps.peekTag fun tag => ?_)
  refine Keeps.ite (Keeps.advance ?_) (hstmt.bind fun inner => Keeps.pure _)
  exact (loop_keeps (h.of_le (Nat.le_succ n)) readSettles_function hcovers []).bind fun inner =>
    Keeps.accept (Keeps.pure _)

/-- A statement settles if those with a smaller bound do: its first token decides what is read, and
it is passed over before another statement is read. -/
theorem stmt_settles_of : SettlesWithin spent True 2 n stmt := by
  refine SettlesWithin.of_succ (by rw [stmt]) ?_
  rintro n m c rfl hc
  have hbelow := h.of_le (Nat.le_succ n)
  have hcall : Covers spent 1 c.ahead n m := hc.call (List.suffix_refl _) (Nat.le_refl _)
  rw [stmt, stmt]
  refine Settles.peek ?_
  -- The first token tells the statements apart, in the order of `stmt`.
  split
  · exact varDecl_settles hcall
  · exact varDecl_settles hcall
  · exact varDecl_settles hcall
  · exact varDecl_settles hcall
  · next htag => exact assignOrCall_settles n m c htag hcall
  · next htag => exact ifStmt_settles hbelow m c htag hcall
  · next htag => exact whileStmt_settles hbelow m c htag hcall
  · next htag => exact sendStmt_settles n m c htag hcall
  · next htag => exact receiveStmt_settles n m c htag hcall
  · next htag =>
    refine (outputStmt_settles n m c htag hcall).bind fun node d hd => ?_
    exact Settles.accept fun e he => Settles.pure node (he.trans hd)
  · next htag => exact funcDecl_settles hbelow m c htag hcall
  · next htag => exact seqBlock_settles hbelow m c htag hcall
  · next htag => exact parBlock_settles hbelow m c htag hcall
  · next htag => exact inputStmt_settles n m c htag hcall
  · next htag => exact returnStmt_settles n m c htag hcall
  · -- Behind an `else` the text is shorter, so the statement there has a bound to spare.
    next htag =>
    have hafter : Covers spent 2 c.ahead.tail n m := hc.callAfter (by simp [htag]) (by omega)
    have hstmt := (h n (Nat.lt_succ_self n)).keeps id hafter
    refine Settles.advance (Settles.of_keeps (Keeps.peekTag fun tag => ?_))
    split
    · exact hstmt
    · exact hstmt
    · exact hstmt.bind fun node => Keeps.accept (Keeps.pure node)
  · exact numberStmt_settles
  · exact Settles.failAt _ trivial (List.suffix_refl _)

end Compound

/-- **Statements settle and consume a token.** -/
theorem stmt_settles (n : Nat) : SettlesWithin spent True 2 n stmt := by
  induction n using Nat.strongRecOn with
  | ind n ih => exact stmt_settles_of ih

theorem stmtsSettle (n : Nat) : StmtsSettle spent n :=
  fun k _ => stmt_settles k

/-! ### Programs -/

theorem block_settles (n : Nat) : SettlesWithin spent True 1 n block := by
  intro m c hc
  rw [block, block]
  refine Settles.peek ?_
  split
  · next htag => exact seqBlock_settles (stmtsSettle n) m c htag hc
  · next htag => exact parBlock_settles (stmtsSettle n) m c htag hc
  · exact Settles.failAt _ trivial (List.suffix_refl _)

theorem StatementLoop.readSettles (l : StatementLoop) (n : Nat) : ReadSettles l spent n := by
  cases l with
  | block => exact readSettles_block (stmt_settles n)
  | lenient => exact readSettles_lenient (stmt_settles n)
  | function => exact readSettles_function (stmt_settles n)
  | topLevel => exact readSettles_topLevel (stmt_settles n) (block_settles n)

theorem program_keeps (hts : Covers spent 3 ts n m) :
    Keeps spent True ts (program n) (program m) := by
  have hloop : Keeps spent True ts (topLevelAfter n []) (topLevelAfter m []) :=
    StatementLoop.parser_keeps (fun k _ => StatementLoop.readSettles .topLevel k) [] m ts hts
  exact hloop.bind fun nodes => Keeps.pure _

/-! ### Coming to an end -/

/-- With enough fuel for the tokens ahead a parser gives a result, in front of fewer tokens if there
are any. -/
def AlwaysReads {α : Type} (p : Nat → Parser α) : Prop :=
  ∀ c n, fuelFor c.ahead.length ≤ n →
    ∃ a d, p n c = .ok a d ∧ (c.ahead ≠ [] → d.ahead.length < c.ahead.length)

/-- With enough fuel for the tokens ahead a parser stops with a result or a fault, and what it does
depends on the fuel no more. -/
def Finishes {α : Type} (p : Nat → Parser α) : Prop :=
  ∀ c, ∃ r, (∀ d, r ≠ .error .outOfFuel d) ∧ ∀ n, fuelFor c.ahead.length ≤ n → p n c = r

theorem covers_fuelFor {spare : Nat} (hspare : spare ≤ 32) (hn : fuelFor ts.length ≤ n)
    (hm : fuelFor ts.length ≤ m) : Covers False spare ts n m := by
  rw [fuelFor] at hn hm
  exact .inl ⟨by omega, by omega⟩

theorem AlwaysReads.of_settles {α : Type} {p : Nat → Parser α} {spare : Nat} (hspare : spare ≤ 32)
    (h : ∀ n, SettlesWithin False False spare n p) : AlwaysReads p := by
  intro c n hn
  obtain ⟨a, d, hok, hd⟩ := (h n n c (covers_fuelFor hspare hn hn)).exists_ok
  exact ⟨a, d, hok, Cursor.length_lt_of_suffix_tail hd⟩

theorem Finishes.of_keeps {α : Type} {p : Nat → Parser α}
    (h : ∀ n m ts, Covers False 3 ts n m → Keeps False True ts (p n) (p m)) : Finishes p := by
  intro c
  have hsettles (n : Nat) (hn : fuelFor c.ahead.length ≤ n) :=
    h _ n c.ahead (covers_fuelFor (by omega) (Nat.le_refl _) hn) c (List.suffix_refl _)
  refine ⟨p (fuelFor c.ahead.length) c, (hsettles _ (Nat.le_refl _)).ne_outOfFuel, ?_⟩
  intro n hn
  exact (hsettles n hn).same.symm

theorem stmt_of_nil {node : Node} {d : Cursor} (hnil : c.ahead = []) : stmt n c ≠ .ok node d := by
  obtain ⟨ahead, passed⟩ := c
  obtain rfl : ahead = [] := hnil
  intro hok
  cases n with
  | zero =>
    rw [stmt] at hok
    cases hok
  | succ n =>
    rw [stmt] at hok
    cases hok

/-- A statement that is read leaves fewer tokens ahead. -/
theorem stmt_lt {node : Node} {d : Cursor} (hok : stmt n c = .ok node d) :
    d.ahead.length < c.ahead.length := by
  have hsettles := stmt_settles n n c (Covers.self 2 c.ahead n)
  refine Cursor.length_lt_of_suffix_tail (hsettles.suffix_of_ok hok) ?_
  intro hnil
  exact stmt_of_nil hnil hok

/-- **Every turn of a loop leaves fewer tokens ahead.** -/
theorem StatementLoop.turn_lt {l : StatementLoop} {done done' : List Node} {d : Cursor}
    (hend : l.ends c.look.tag = false) (hok : l.turn n c.look.tag done c = .ok done' d) :
    d.ahead.length < c.ahead.length := by
  have hsettles := turn_settles (l.readSettles n) hend (Covers.self 2 c.ahead n) done
  refine Cursor.length_lt_of_suffix_tail (hsettles.suffix_of_ok hok) ?_
  obtain ⟨t, ts, hahead⟩ := c.exists_cons (tag_ne_endOfInput hend)
  simp [hahead]

/-- The search for a stop passes over one token after another, as long as there are any. -/
theorem skipTo_cases (stops : StopSet) (c : Cursor) :
    c.look.tag ∈ stops.tags ∧ skipTo stops c = .ok () c ∨
      c.advance.ahead.length < c.ahead.length ∧ skipTo stops c = skipTo stops c.advance := by
  have hskip : ∀ c, skipTo stops c = .ok () (c.skipTo stops.tags.contains) := fun _ => rfl
  rw [hskip, hskip]
  by_cases hstop : c.look.tag ∈ stops.tags
  · rw [Cursor.skipTo_of_stop (by simpa using hstop)]
    exact .inl ⟨hstop, rfl⟩
  · rw [Cursor.skipTo_of_not_stop (by simpa using hstop)]
    refine .inr ⟨Cursor.length_lt_of_suffix_tail c.advance_suffix_tail ?_, rfl⟩
    have htag : c.look.tag ≠ .endOfInput := fun heq => hstop (heq ▸ stops.endOfInput_mem)
    obtain ⟨t, ts, hahead⟩ := c.exists_cons htag
    simp [hahead]

/-- **Every parser comes to an end on every list of tokens.**  A program is read or rejected, in one
way for every bound that is large enough; a statement is rejected or consumes a token; expressions
and arguments are always read, and consume a token if one is ahead; loops of statements are their
turns, each of which consumes a token; and so does each step of a search for a place to go on. -/
theorem parser_terminates :
    (∀ t ts, ∃ r, runOn program (t :: ts) = .ok r ∧ (∀ d, r ≠ .error .outOfFuel d) ∧
      ∀ n, fuelFor (t :: ts).length ≤ n → program n ⟨t :: ts, t.line⟩ = r) ∧
    (Finishes stmt ∧ ∀ n c node d, stmt n c = .ok node d → d.ahead.length < c.ahead.length) ∧
    (AlwaysReads expr ∧ AlwaysReads term ∧ AlwaysReads factor ∧ AlwaysReads argList) ∧
    (∀ (l : StatementLoop) n done, l.parser (n + 1) done = l.unrolled n done) ∧
    (∀ (l : StatementLoop) n c done done' d, l.ends c.look.tag = false →
      l.turn n c.look.tag done c = .ok done' d → d.ahead.length < c.ahead.length) ∧
    ∀ stops c, c.look.tag ∈ stops.tags ∧ skipTo stops c = .ok () c ∨
      c.advance.ahead.length < c.ahead.length ∧ skipTo stops c = skipTo stops c.advance := by
  refine ⟨?_, ⟨?_, ?_⟩, ⟨?_, ?_, ?_, ?_⟩, ?_, ?_, skipTo_cases⟩
  · intro t ts
    have hprogram : Finishes program := Finishes.of_keeps fun n m ts hts => program_keeps hts
    obtain ⟨r, hfuel, hsame⟩ := hprogram ⟨t :: ts, t.line⟩
    refine ⟨r, ?_, hfuel, hsame⟩
    rw [← hsame _ (Nat.le_refl _)]
    rfl
  · refine Finishes.of_keeps fun n m ts hts => ?_
    exact (stmt_settles n).keeps id (hts.mono (List.suffix_refl _) (by omega))
  · intro n c node d hok
    exact stmt_lt hok
  · exact AlwaysReads.of_settles (by omega) expr_settles
  · exact AlwaysReads.of_settles (by omega) term_settles
  · exact AlwaysReads.of_settles (by omega) factor_settles
  · exact AlwaysReads.of_settles (by omega) argList_settles
  · intro l n done
    exact l.parser_succ n done
  · intro l n c done done' d hend hok
    exact StatementLoop.turn_lt hend hok

end SeqPar.Parser
