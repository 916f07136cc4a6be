import SeqPar.Parse.Phrase
import SeqPar.Proofs.ReadExpr

/-!
# Reading written statements

Three loops of the grammar read statements: the one of blocks and branches, the one of functions
and the one of the top level.  They differ in where they stop and in what they do with a statement
that cannot be read, but on statements that can be read they do the same, which is `StmtLoop`: they
pass over a semicolon, and they pass over a statement and add its tree.

A simple statement takes some of the semicolons behind it with it and leaves the others to the
loop; how many it takes depends on the kind of statement.  `Stmt.Legible` leaves that open.

## Main definitions

* `StmtLoop` — what the loops have in common.
* `Stmt.Legible` — the parser of statements reads a statement and a part of its semicolons.

## Main results

* `StmtLoop.passes_all` — a loop passes over statements and adds their trees.
* `Stmt.legible` — **every written statement without a block inside a body is legible.**
* `program_reads` — the top level of such a program is read.
* `program_of_tokens` — **the tokens of a written program without a block inside a body form that
  program.**
-/

namespace SeqPar.Written

open SeqPar.Parser

/-! ### Rules for the statement parsers -/

theorem Reads.recover {α : Type} {p handler : Parser α} {ts : List Token} {next : Tag → Prop}
    {a : α} (h : Reads p ts next a) : Reads (Parser.recover p handler) ts next a := by
  intro us rest line hus hg
  rw [Parser.recover, h us rest line hus hg]
  rfl

/-- The tags that may stand right after a statement. -/
def EndsStmt (g : Tag) : Prop :=
  g ≠ .semicolon ∧ g ≠ .elseWord

/-- The tags that may stand right after the part of a statement in front of its last `k`
semicolons. -/
def EndsBefore (k : Nat) (g : Tag) : Prop :=
  if k = 0 then EndsStmt g else g = .semicolon

theorem EndsStmt.before {g : Tag} (h : EndsStmt g) (k : Nat) :
    EndsBefore k (leadTag g (semicolons k)) := by
  cases k with
  | zero => exact h
  | succ k => rfl

-- The equations of the parsers that several lemmas unfold are proved here, once for all of them.
attribute [local simp] Parser.stmt stmts funcStmts topLevelAfter

/-- What the parser of statements does in front of a token that a written statement starts with. -/
def stmtOn (n : Nat) : Tag → Parser Node
  | .stringType | .intType | .boolType => varDecl n
  | .ident => assignOrCall n
  | .ifWord => ifStmt n
  | .whileWord => whileStmt n
  | .output => do
    let node ← outputStmt n
    optionalSemicolon
    return node
  | .function => funcDecl n
  | .seq => seqBlock n
  | .par => parBlock n
  | .returnWord => returnStmt n
  | _ => Parser.stmt (n + 1)

theorem stmt_passes_nil (n : Nat) (g : Tag) :
    Passes (Parser.stmt (n + 1)) [] (· = g) (stmtOn n g) := by
  cases g with
  | stringType | intType | boolType | ident | ifWord | whileWord | output | function | seq | par
  | returnWord =>
    rw [Parser.stmt]
    refine Passes.peek_nil fun t ht => ?_
    rw [ht]
    exact Passes.refl _ _
  | _ => exact Passes.refl _ _

/-- The first token of a statement decides what is read. -/
theorem stmt_passes_cons {n : Nat} {t : Token} {ts : List Token} {next : Tag → Prop}
    {q : Parser Node} (h : Passes (stmtOn n t.tag) (t :: ts) next q) :
    Passes (Parser.stmt (n + 1)) (t :: ts) next q :=
  (stmt_passes_nil n t.tag).trans h fun _ _ => rfl

/-- What the loops that read statements have in common, for statements whose first tag satisfies
`starts`. -/
structure StmtLoop (loop : Nat → List Node → Parser (List Node)) (starts : Tag → Prop) :
    Prop where
  /-- The loop passes over a semicolon. -/
  semicolon : ∀ n done next, Passes (loop (n + 1) done) [mark .semicolon] next (loop n done)
  /-- The loop passes over a statement and adds its tree. -/
  stmt : ∀ {n done ts next node}, (∀ g, next g → starts (leadTag g ts)) →
    Reads (Parser.stmt n) ts next node →
      Passes (loop (n + 1) done) ts next (loop n (done ++ [node]))

/-- The tags of statements of a block. -/
def StartsInBlock (g : Tag) : Prop :=
  g ∉ blockEnds ∧ g ≠ .semicolon

/-- The tags of statements of a function. -/
def StartsInFunc (g : Tag) : Prop :=
  g ≠ .rbrace ∧ g ≠ .endOfInput ∧ g ≠ .semicolon

theorem stmts_passes_nil (n : Nat) (done : List Node) :
    Passes (stmts (n + 1) done) [] StartsInBlock
      (Parser.stmt n >>= fun next => stmts n (done ++ [next])) := by
  rw [stmts]
  refine Passes.peekTag_bind fun g hg => ?_
  rw [leadTag_nil, if_neg (by simpa using hg.1), if_neg hg.2]
  exact Passes.refl _ _

theorem stmts_loop : StmtLoop stmts StartsInBlock where
  semicolon := by
    intro n done next
    rw [stmts]
    exact Passes.peekTag_cons (Passes.advance_cons (Passes.refl _ _))
  stmt := by
    intro n done ts next node hstart h
    exact (stmts_passes_nil n done).trans (h.bind_last (fun _ hg => hg) (Passes.refl _ _)) hstart

theorem funcStmts_loop : StmtLoop funcStmts StartsInFunc where
  semicolon := by
    intro n done next
    rw [funcStmts]
    exact Passes.peekTag_cons (Passes.advance_cons (Passes.refl _ _))
  stmt := by
    intro n done ts next node hstart h
    rw [funcStmts]
    refine Passes.peekTag_bind fun g hg => ?_
    split
    · next heq => exact absurd heq (hstart g hg).1
    · next heq => exact absurd heq (hstart g hg).2.1
    · next heq => exact absurd heq (hstart g hg).2.2
    · have hdone : Reads (do return done ++ [← Parser.stmt n]) ts next (done ++ [node]) :=
        h.bind_last (fun _ hg => hg) (Reads.pure _ _)
      exact (Reads.recover hdone).bind_last (fun _ hg => hg) (Passes.refl _ _)

theorem topLevelAfter_loop : StmtLoop topLevelAfter (startsTopLevel · = true) where
  semicolon := by
    intro n done next
    rw [topLevelAfter]
    exact Passes.peekTag_cons (Passes.advance_cons (Passes.refl _ _))
  stmt := by
    intro n done ts next node hstart h
    rw [topLevelAfter]
    refine Passes.peekTag_bind fun g hg => ?_
    have hdone : Reads (do return done ++ [← Parser.stmt n]) ts next (done ++ [node]) :=
      h.bind_last (fun _ hg => hg) (Reads.pure _ _)
    have hstart := hstart g hg
    split
    · next heq => rw [heq] at hstart; cases hstart
    · next heq => rw [heq] at hstart; cases hstart
    · next heq => rw [heq] at hstart; cases hstart
    · next heq => rw [heq] at hstart; cases hstart
    · rw [if_pos hstart]
      exact (Reads.recover hdone).bind_last (fun _ hg => hg) (Passes.refl _ _)

theorem stmts_reads_nil (k : Nat) (done : List Node) :
    Reads (stmts (k + 1) done) [] (· = .rbrace) done := by
  rw [stmts]
  refine Passes.peekTag_bind fun g hg => ?_
  subst hg
  exact Reads.pure _ _

theorem funcStmts_reads_nil (k : Nat) (done : List Node) :
    Reads (funcStmts (k + 1) done) [] (· = .rbrace) done := by
  rw [funcStmts]
  refine Passes.peekTag_bind fun g hg => ?_
  subst hg
  exact Reads.pure _ _

theorem topLevelAfter_reads_nil (k : Nat) (done : List Node) :
    Reads (topLevelAfter (k + 1) done) [] (· = .endOfInput) done := by
  rw [topLevelAfter]
  refine Passes.peekTag_bind fun g hg => ?_
  subst hg
  exact Reads.pure _ _

/-! ### Statements in a loop -/

/-- The parser of a kind of blocks. -/
def BlockKind.parser : BlockKind → Nat → Parser Node
  | .seq => seqBlock
  | .par => parBlock

namespace Stmt

/-- The tag of the first token of a statement. -/
def firstTag : Stmt → Tag
  | .assign .. | .call .. => .ident
  | .declare type .. | .declareInit type .. => type.tag
  | .output .. => .output
  | .ret .. | .retValue .. => .returnWord
  | .ifThen .. | .ifElse .. => .ifWord
  | .loop .. => .whileWord
  | .func .. => .function
  | .block kind _ => kind.tag

theorem leadTag_tokens (s : Stmt) (g : Tag) : leadTag g s.tokens = s.firstTag := by
  cases s <;> rfl

theorem endsStmt_firstTag (s : Stmt) : EndsStmt s.firstTag := by
  cases s with
  | declare type name extra => cases type <;> simp [firstTag, DeclType.tag, EndsStmt]
  | declareInit type name value extra => cases type <;> simp [firstTag, DeclType.tag, EndsStmt]
  | block kind body => cases kind <;> simp [firstTag, BlockKind.tag, EndsStmt]
  | _ => simp [firstTag, EndsStmt]

theorem startsInFunc_firstTag (s : Stmt) : StartsInFunc s.firstTag := by
  cases s with
  | declare type name extra => cases type <;> simp [firstTag, DeclType.tag, StartsInFunc]
  | declareInit type name value extra => cases type <;> simp [firstTag, DeclType.tag, StartsInFunc]
  | block kind body => cases kind <;> simp [firstTag, BlockKind.tag, StartsInFunc]
  | _ => simp [firstTag, StartsInFunc]

theorem startsInBlock_firstTag {s : Stmt} (h : s.isBlock = false) : StartsInBlock s.firstTag := by
  cases s with
  | declare type name extra =>
    cases type <;> simp [firstTag, DeclType.tag, StartsInBlock, blockEnds]
  | declareInit type name value extra =>
    cases type <;> simp [firstTag, DeclType.tag, StartsInBlock, blockEnds]
  | block kind body => cases h
  | _ => simp [firstTag, StartsInBlock, blockEnds]

/-- The parser of statements reads a statement, apart from some of its semicolons. -/
def Legible (s : Stmt) : Prop :=
  ∀ n, 4 * s.tokens.length ≤ n → ∃ ts k, s.tokens = ts ++ semicolons k ∧ ts ≠ [] ∧
    Reads (Parser.stmt n) ts (EndsBefore k) s.node

end Stmt

theorem StmtLoop.semicolons {loop : Nat → List Node → Parser (List Node)} {starts : Tag → Prop}
    (hloop : StmtLoop loop starts) (k n : Nat) (done : List Node) (next : Tag → Prop) :
    Passes (loop (n + k) done) (semicolons k) next (loop n done) := by
  induction k with
  | zero => exact Passes.refl _ _
  | succ k ih =>
    exact (hloop.semicolon (n + k) done fun _ => True).trans ih fun _ _ => trivial

/-- A loop passes over a statement with all of its semicolons and adds its tree. -/
theorem StmtLoop.passes {loop : Nat → List Node → Parser (List Node)} {starts : Tag → Prop}
    (hloop : StmtLoop loop starts) {s : Stmt} (h : s.Legible) (hstart : starts s.firstTag)
    {n : Nat} (hn : 4 * s.tokens.length + 1 ≤ n) (done : List Node) :
    ∃ k, n ≤ k + s.tokens.length ∧
      Passes (loop n done) s.tokens EndsStmt (loop k (done ++ [s.node])) := by
  obtain ⟨n, rfl⟩ : ∃ j, n = j + 1 := ⟨n - 1, by omega⟩
  obtain ⟨ts, k, hts, hne, hread⟩ := h n (by omega)
  have hlen : s.tokens.length = ts.length + k := by
    rw [hts, List.length_append, Written.semicolons, List.length_replicate]
  have hpos := List.length_pos_iff.mpr hne
  -- The loop spends one unit on the statement and one on each semicolon that is left to it.
  obtain ⟨m, rfl⟩ : ∃ m, n = m + k := ⟨n - k, by omega⟩
  have hlead : ∀ g, leadTag g ts = s.firstTag := by
    intro g
    rw [← s.leadTag_tokens g, hts, leadTag_append]
    cases ts with
    | nil => exact absurd rfl hne
    | cons t ts => rfl
  refine ⟨m, by omega, ?_⟩
  rw [hts]
  refine (hloop.stmt (fun g _ => ?_) hread).trans (hloop.semicolons k m _ EndsStmt) ?_
  · rw [hlead]
    exact hstart
  · intro g hg
    exact hg.before k

/-- **A loop passes over statements and adds their trees.** -/
theorem StmtLoop.passes_all {loop : Nat → List Node → Parser (List Node)} {starts : Tag → Prop}
    (hloop : StmtLoop loop starts) {ss : List Stmt} (h : ∀ s ∈ ss, s.Legible ∧ starts s.firstTag)
    {n : Nat} (hn : 4 * (Stmt.allTokens ss).length + 1 ≤ n) (done : List Node) :
    ∃ k, n ≤ k + (Stmt.allTokens ss).length ∧
      Passes (loop n done) (Stmt.allTokens ss) EndsStmt (loop k (done ++ Stmt.nodes ss)) := by
  induction ss generalizing n done with
  | nil =>
    refine ⟨n, by simp [Stmt.allTokens], ?_⟩
    rw [Stmt.allTokens, Stmt.nodes, List.append_nil]
    exact Passes.refl _ _
  | cons s ss ih =>
    obtain ⟨⟨hs, hstart⟩, hss⟩ := List.forall_mem_cons.mp h
    simp only [Stmt.allTokens, Stmt.nodes, List.length_append] at hn ⊢
    obtain ⟨k, hk, hpass⟩ := hloop.passes hs hstart (n := n) (by omega) done
    obtain ⟨j, hj, hrest⟩ := ih hss (n := k) (by omega) (done ++ [s.node])
    refine ⟨j, by omega, ?_⟩
    rw [List.append_assoc, List.singleton_append] at hrest
    -- What follows the first statement is the next one or, after the last one, the given tag.
    refine hpass.trans hrest fun g hg => ?_
    cases ss with
    | nil => exact hg
    | cons s' ss' =>
      rw [Stmt.allTokens, leadTag_append, Stmt.leadTag_tokens]
      exact s'.endsStmt_firstTag

/-! ### Simple statements -/

theorem semicolons_succ (k : Nat) : semicolons (k + 1) = mark .semicolon :: semicolons k := rfl

theorem endsSum_semicolon : EndsSum .semicolon := by
  simp [EndsSum, EndsProduct]

namespace Stmt

theorem legible_assign (name : String) (value : Expr) (extra : Nat) :
    (assign name value extra).Legible := by
  intro n hn
  simp only [tokens, node, List.length_cons, List.length_append] at hn ⊢
  obtain ⟨n, rfl⟩ : ∃ j, n = j + 1 := ⟨n - 1, by omega⟩
  have hvalue := value.reads_expr (n := n) (by omega)
  refine ⟨named name :: mark .assign :: (value.tokens ++ [mark .semicolon]), extra, ?_, ?_, ?_⟩
  · simp [semicolons_succ]
  · simp
  · refine stmt_passes_cons ?_
    change Passes (assignOrCall n) _ _ _
    rw [assignOrCall]
    refine Passes.textThen_cons rfl (Passes.peekTag_cons (Passes.advance_cons ?_))
    refine Passes.peekTag_bind fun g _ => ?_
    rw [leadTag_append, if_neg (Expr.leadTag_ne (by simp [Expr.Opens]) value _)]
    exact hvalue.bind (Passes.accept_cons rfl (Reads.pure _ _)) fun _ _ => endsSum_semicolon

theorem legible_declare (type : DeclType) (name : String) (extra : Nat) :
    (declare type name extra).Legible := by
  intro n hn
  simp only [tokens, node, List.length_cons] at hn ⊢
  obtain ⟨n, rfl⟩ : ∃ j, n = j + 1 := ⟨n - 1, by omega⟩
  -- A declaration leaves all of its semicolons to the loop.
  refine ⟨[mark type.tag, named name], extra + 1, rfl, by simp, ?_⟩
  have hdecl : Reads (varDecl n) [mark type.tag, named name] (EndsBefore (extra + 1))
      (declared (some (spelling type.tag)) name) := by
    rw [varDecl]
    refine Passes.peek_cons ?_
    cases type <;>
    · refine Passes.advance_cons (Passes.peekTag_cons (Passes.textThen_cons rfl ?_))
      rw [initialised]
      refine Passes.peekTag_bind fun g hg => ?_
      rw [EndsBefore, if_neg (by omega)] at hg
      subst hg
      exact Reads.pure _ _
  refine stmt_passes_cons ?_
  cases type <;> exact hdecl

theorem legible_declareInit (type : DeclType) (name : String) (value : Expr) (extra : Nat) :
    (declareInit type name value extra).Legible := by
  intro n hn
  simp only [tokens, node, List.length_cons, List.length_append] at hn ⊢
  obtain ⟨n, rfl⟩ : ∃ j, n = j + 1 := ⟨n - 1, by omega⟩
  have hvalue := value.reads_expr (n := n) (by omega)
  refine ⟨mark type.tag :: named name :: mark .assign :: value.tokens, extra + 1, rfl, by simp, ?_⟩
  have hdecl : Reads (varDecl n) (mark type.tag :: named name :: mark .assign :: value.tokens)
      (EndsBefore (extra + 1)) (.assign (declared (some (spelling type.tag)) name) value.node) := by
    rw [varDecl]
    refine Passes.peek_cons ?_
    cases type <;>
    · refine Passes.advance_cons (Passes.peekTag_cons (Passes.textThen_cons rfl ?_))
      rw [initialised]
      refine Passes.peekTag_cons (Passes.advance_cons (hvalue.bind_last (fun g hg => ?_)
        (Reads.pure _ _)))
      rw [EndsBefore, if_neg (by omega)] at hg
      subst hg
      exact endsSum_semicolon
  refine stmt_passes_cons ?_
  cases type <;> exact hdecl

theorem legible_call (name : String) (args : List Expr) (extra : Nat) :
    (call name args extra).Legible := by
  intro n hn
  simp only [tokens, node, List.length_cons, List.length_append] at hn ⊢
  obtain ⟨n, rfl⟩ : ∃ j, n = j + 1 := ⟨n - 1, by omega⟩
  have hargs := Expr.argList_reads args (Expr.legible_of_mem args) (n := n) (by omega)
    fun _ => True
  refine ⟨named name :: (mark .lparen :: (Expr.argTokens args ++ [mark .rparen])
    ++ [mark .semicolon]), extra, by simp [semicolons_succ], by simp, ?_⟩
  refine stmt_passes_cons ?_
  change Passes (assignOrCall n) _ _ _
  rw [assignOrCall]
  refine Passes.textThen_cons rfl (Passes.peekTag_cons ?_)
  exact hargs.bind (Passes.accept_cons rfl (Reads.pure _ _)) fun _ _ => trivial

theorem legible_ret (extra : Nat) : (ret extra).Legible := by
  intro n hn
  simp only [tokens, node, List.length_cons] at hn ⊢
  obtain ⟨n, rfl⟩ : ∃ j, n = j + 1 := ⟨n - 1, by omega⟩
  refine ⟨[mark .returnWord, mark .semicolon], extra, rfl, by simp, ?_⟩
  refine stmt_passes_cons ?_
  change Passes (returnStmt n) _ _ _
  rw [returnStmt]
  refine Passes.accept_cons rfl (Passes.peekTag_cons ?_)
  exact Passes.accept_cons rfl (Reads.pure _ _)

theorem legible_retValue (result : Expr) (extra : Nat) : (retValue result extra).Legible := by
  intro n hn
  simp only [tokens, node, List.length_cons, List.length_append] at hn ⊢
  obtain ⟨n, rfl⟩ : ∃ j, n = j + 1 := ⟨n - 1, by omega⟩
  have hresult := result.reads_expr (n := n) (by omega)
  refine ⟨mark .returnWord :: (result.tokens ++ [mark .semicolon]), extra,
    by simp [semicolons_succ], by simp, ?_⟩
  refine stmt_passes_cons ?_
  change Passes (returnStmt n) _ _ _
  rw [returnStmt]
  refine Passes.accept_cons rfl (Passes.peekTag_bind fun g _ => ?_)
  rw [leadTag_append, if_neg (Expr.leadTag_ne (by simp [Expr.Opens]) result _)]
  exact hresult.bind (Passes.accept_cons rfl (Reads.pure _ _)) fun _ _ => endsSum_semicolon

theorem outputStmt_reads (shown : Expr) {n : Nat} (hn : 4 * shown.tokens.length + 2 ≤ n)
    (next : Tag → Prop) :
    Reads (outputStmt n)
      (mark .output :: mark .lparen :: (shown.tokens ++ [mark .rparen, mark .semicolon])) next
      (.call none ⟨.other "output", "output"⟩ [shown.node]) := by
  rw [outputStmt]
  refine Passes.accept_cons rfl (Passes.accept_cons rfl ?_)
  refine (shown.reads_expr hn).bind (Passes.accept_cons rfl ?_) fun _ _ => ?_
  · exact Passes.accept_cons rfl (Reads.pure _ _)
  · simp [EndsSum, EndsProduct]

/-- An output takes a second semicolon with it, if there is one. -/
theorem legible_output (shown : Expr) (extra : Nat) : (output shown extra).Legible := by
  intro n hn
  simp only [tokens, node, List.length_cons, List.length_append] at hn ⊢
  obtain ⟨n, rfl⟩ : ∃ j, n = j + 1 := ⟨n - 1, by omega⟩
  have houtput := outputStmt_reads shown (n := n) (by omega) fun _ => True
  cases extra with
  | zero =>
    refine ⟨_, 0, (List.append_nil _).symm, by simp, ?_⟩
    refine stmt_passes_cons ?_
    refine houtput.bind_last (fun _ _ => trivial) (Passes.accept_ne (fun g hg => ?_) ?_)
    · exact hg.1
    · exact Reads.pure _ _
  | succ extra =>
    refine ⟨mark .output :: mark .lparen :: (shown.tokens ++ [mark .rparen, mark .semicolon])
      ++ [mark .semicolon], extra, by simp [semicolons_succ], by simp, ?_⟩
    refine stmt_passes_cons ?_
    exact houtput.bind (Passes.accept_cons rfl (Reads.pure _ _)) fun _ _ => trivial

/-! ### Conditionals, loops, functions and blocks -/

theorem condition_reads (c : Condition) {n : Nat} (hn : 4 * c.tokens.length + 4 ≤ n)
    (next : Tag → Prop) : Reads (condition n) (parens c.tokens) next c.node := by
  rw [condition, parens]
  refine Passes.peekTag_cons (Passes.advance_cons ?_)
  refine (c.reads hn).bind (Passes.accept_cons rfl (Reads.pure _ _)) fun _ _ => ?_
  simp [EndsCondition, EndsTest, EndsSum, EndsProduct, isComparison, isConnective]

theorem endsStmt_rbrace : EndsStmt .rbrace := by
  simp [EndsStmt]

/-- The loop of blocks reads the statements of a body, none of which is a block. -/
theorem stmts_reads {ss : List Stmt} (h : ∀ s ∈ ss, s.Legible ∧ s.isBlock = false) {n : Nat}
    (hn : 4 * (allTokens ss).length + 1 ≤ n) :
    Reads (stmts n []) (allTokens ss) (· = .rbrace) (nodes ss) := by
  obtain ⟨k, hk, hpass⟩ := stmts_loop.passes_all
    (fun s hs => ⟨(h s hs).1, startsInBlock_firstTag (h s hs).2⟩) hn []
  obtain ⟨k, rfl⟩ : ∃ j, k = j + 1 := ⟨k - 1, by omega⟩
  have := hpass.trans (stmts_reads_nil k _) fun g hg => hg ▸ endsStmt_rbrace
  rwa [List.append_nil, List.nil_append] at this

/-- The loop of functions reads the statements of a body. -/
theorem funcStmts_reads {ss : List Stmt} (h : ∀ s ∈ ss, s.Legible) {n : Nat}
    (hn : 4 * (allTokens ss).length + 1 ≤ n) :
    Reads (funcStmts n []) (allTokens ss) (· = .rbrace) (nodes ss) := by
  obtain ⟨k, hk, hpass⟩ := funcStmts_loop.passes_all
    (fun s hs => ⟨h s hs, s.startsInFunc_firstTag⟩) hn []
  obtain ⟨k, rfl⟩ : ∃ j, k = j + 1 := ⟨k - 1, by omega⟩
  have := hpass.trans (funcStmts_reads_nil k _) fun g hg => hg ▸ endsStmt_rbrace
  rwa [List.append_nil, List.nil_append] at this

theorem body_reads {ss : List Stmt} (h : ∀ s ∈ ss, s.Legible ∧ s.isBlock = false) {n : Nat}
    (hn : 4 * (allTokens ss).length + 2 ≤ n) (next : Tag → Prop) :
    Reads (body n) (braces (allTokens ss)) next (nodes ss) := by
  obtain ⟨n, rfl⟩ : ∃ j, n = j + 1 := ⟨n - 1, by omega⟩
  rw [body, braces]
  refine Passes.peekTag_cons (Passes.advance_cons ?_)
  exact (stmts_reads h (by omega)).bind (Passes.accept_cons rfl (Reads.pure _ _)) fun _ _ => rfl

@[simp] theorem length_braces (ts : List Token) : (braces ts).length = ts.length + 2 := by
  simp [braces]

/-- A conditional after its condition. -/
def branches (n : Nat) (c : Node) : Parser Node := do
  let thenBody ← recover (body n) (do
    skipTo thenStops
    return [])
  if (← peekTag) = .elseWord then
    advance
    let elseBody ← recover (body n) (do
      skipTo bodyStops
      return [])
    return .cond c thenBody (some elseBody)
  else return .cond c thenBody (some [])

/-- A loop after its condition. -/
def rounds (n : Nat) (c : Node) : Parser Node := do
  let inner ← recover (body n) (do
    skipTo bodyStops
    optionalSemicolon
    return [])
  return .loop c inner

theorem stmt_passes_if (c : Condition) {n : Nat} (hn : 4 * c.tokens.length + 4 ≤ n)
    (next : Tag → Prop) :
    Passes (Parser.stmt (n + 2)) (mark .ifWord :: parens c.tokens) next (branches n c.node) := by
  refine stmt_passes_cons ?_
  change Passes (ifStmt (n + 1)) _ _ _
  rw [ifStmt]
  refine Passes.accept_cons rfl ?_
  exact (condition_reads c hn next).bind_last (fun _ hg => hg) (Passes.refl (branches n c.node) _)

theorem stmt_passes_while (c : Condition) {n : Nat} (hn : 4 * c.tokens.length + 4 ≤ n)
    (next : Tag → Prop) :
    Passes (Parser.stmt (n + 2)) (mark .whileWord :: parens c.tokens) next (rounds n c.node) := by
  refine stmt_passes_cons ?_
  change Passes (whileStmt (n + 1)) _ _ _
  rw [whileStmt]
  refine Passes.accept_cons rfl ?_
  exact (condition_reads c hn next).bind_last (fun _ hg => hg) (Passes.refl (rounds n c.node) _)

theorem legible_ifThen (c : Condition) {ss : List Stmt}
    (h : ∀ s ∈ ss, s.Legible ∧ s.isBlock = false) : (ifThen c ss).Legible := by
  intro n hn
  simp only [tokens, node, List.length_cons, List.length_append, length_parens, length_braces]
    at hn ⊢
  obtain ⟨n, rfl⟩ : ∃ j, n = j + 2 := ⟨n - 2, by omega⟩
  refine ⟨_, 0, (List.append_nil _).symm, by simp, ?_⟩
  refine (stmt_passes_if c (by omega) fun _ => True).trans ?_ fun _ _ => trivial
  refine (Reads.recover (body_reads h (by omega) fun _ => True)).bind_last (fun _ _ => trivial) ?_
  refine Passes.peekTag_bind fun g hg => ?_
  rw [leadTag_nil, if_neg hg.2]
  exact Reads.pure _ _

theorem legible_ifElse (c : Condition) {ss es : List Stmt}
    (h : ∀ s ∈ ss, s.Legible ∧ s.isBlock = false) (h' : ∀ s ∈ es, s.Legible ∧ s.isBlock = false) :
    (ifElse c ss es).Legible := by
  intro n hn
  simp only [tokens, node, List.length_cons, List.length_append, length_parens, length_braces]
    at hn ⊢
  obtain ⟨n, rfl⟩ : ∃ j, n = j + 2 := ⟨n - 2, by omega⟩
  refine ⟨_, 0, (List.append_nil _).symm, by simp, ?_⟩
  refine (stmt_passes_if c (by omega) fun _ => True).trans ?_ fun _ _ => trivial
  refine (Reads.recover (body_reads h (by omega) fun _ => True)).bind ?_ fun _ _ => trivial
  refine Passes.peekTag_cons (Passes.advance_cons ?_)
  exact (Reads.recover (body_reads h' (by omega) fun _ => True)).bind_last (fun _ _ => trivial)
    (Reads.pure _ _)

theorem legible_loop (c : Condition) {ss : List Stmt}
    (h : ∀ s ∈ ss, s.Legible ∧ s.isBlock = false) : (loop c ss).Legible := by
  intro n hn
  simp only [tokens, node, List.length_cons, List.length_append, length_parens, length_braces]
    at hn ⊢
  obtain ⟨n, rfl⟩ : ∃ j, n = j + 2 := ⟨n - 2, by omega⟩
  refine ⟨_, 0, (List.append_nil _).symm, by simp, ?_⟩
  refine (stmt_passes_while c (by omega) fun _ => True).trans ?_ fun _ _ => trivial
  exact (Reads.recover (body_reads h (by omega) fun _ => True)).bind_last (fun _ _ => trivial)
    (Reads.pure _ _)

theorem paramsAfter_reads (ps : List String) (done : List Node) {n : Nat}
    (hn : (moreParamTokens ps).length + 1 ≤ n) :
    Reads (paramsAfter n done) (moreParamTokens ps) (· = .rparen)
      (done ++ ps.map (declared none)) := by
  induction ps generalizing n done with
  | nil =>
    obtain ⟨n, rfl⟩ : ∃ j, n = j + 1 := ⟨n - 1, by omega⟩
    rw [paramsAfter, List.map_nil, List.append_nil]
    refine Passes.peekTag_bind fun g hg => ?_
    subst hg
    exact Reads.pure _ _
  | cons p ps ih =>
    simp only [moreParamTokens, List.length_cons] at hn
    obtain ⟨n, rfl⟩ : ∃ j, n = j + 1 := ⟨n - 1, by omega⟩
    have hrest := ih (done ++ [declared none p]) (n := n) (by omega)
    rw [List.append_assoc, List.singleton_append] at hrest
    rw [paramsAfter, moreParamTokens, List.map_cons]
    exact Passes.peekTag_cons (Passes.advance_cons (Passes.textThen_cons rfl hrest))

theorem params_reads (ps : List String) {n : Nat} (hn : (paramTokens ps).length + 1 ≤ n) :
    Reads (params n) (paramTokens ps) (· = .rparen) (ps.map (declared none)) := by
  rw [params]
  cases ps with
  | nil =>
    refine Passes.peekTag_bind fun g hg => ?_
    subst hg
    exact Reads.pure _ _
  | cons p ps =>
    simp only [paramTokens, List.length_cons] at hn
    refine Passes.peekTag_cons (Passes.textThen_cons rfl ?_)
    exact paramsAfter_reads ps [declared none p] (by omega)

theorem legible_func (name : String) (ps : List String) {ss : List Stmt}
    (h : ∀ s ∈ ss, s.Legible) : (func name ps ss).Legible := by
  intro n hn
  simp only [tokens, node, List.length_cons, List.length_append, length_parens, length_braces]
    at hn ⊢
  obtain ⟨n, rfl⟩ : ∃ j, n = j + 2 := ⟨n - 2, by omega⟩
  refine ⟨_, 0, (List.append_nil _).symm, by simp, ?_⟩
  refine stmt_passes_cons ?_
  change Passes (funcDecl (n + 1)) _ _ _
  rw [funcDecl]
  refine Passes.accept_cons rfl (Passes.textThen_cons rfl ?_)
  rw [parens, List.cons_append, List.append_assoc]
  refine Passes.accept_cons rfl ?_
  refine (params_reads ps (by omega)).bind (Passes.accept_cons rfl ?_) fun _ _ => rfl
  rw [braces]
  refine Passes.peekTag_cons (Passes.advance_cons ?_)
  exact (funcStmts_reads h (by omega)).bind (Passes.accept_cons rfl (Reads.pure _ _))
    fun _ _ => rfl

theorem blockParser_reads (kind : BlockKind) {ss : List Stmt}
    (h : ∀ s ∈ ss, s.Legible ∧ s.isBlock = false) {n : Nat}
    (hn : 4 * (allTokens ss).length + 2 ≤ n) (next : Tag → Prop) :
    Reads (kind.parser n) (block kind ss).tokens next (block kind ss).node := by
  obtain ⟨n, rfl⟩ : ∃ j, n = j + 1 := ⟨n - 1, by omega⟩
  have hbody := stmts_reads h (n := n) (by omega)
  rw [tokens, node, braces]
  cases kind with
  | seq =>
    rw [BlockKind.parser, seqBlock]
    refine Passes.accept_cons rfl (Passes.peekTag_cons (Passes.advance_cons ?_))
    exact hbody.bind (Passes.accept_cons rfl (Reads.pure _ _)) fun _ _ => rfl
  | par =>
    rw [BlockKind.parser, parBlock]
    refine Passes.accept_cons rfl (Passes.peekTag_cons (Passes.advance_cons ?_))
    exact hbody.bind (Passes.accept_cons rfl (Reads.pure _ _)) fun _ _ => rfl

theorem stmt_passes_block (kind : BlockKind) (n : Nat) :
    Passes (Parser.stmt (n + 1)) [] (· = kind.tag) (kind.parser n) := by
  cases kind <;> exact stmt_passes_nil n _

theorem legible_block (kind : BlockKind) {ss : List Stmt}
    (h : ∀ s ∈ ss, s.Legible ∧ s.isBlock = false) : (block kind ss).Legible := by
  intro n hn
  have hlen : (block kind ss).tokens.length = (allTokens ss).length + 3 := by simp [tokens]
  obtain ⟨n, rfl⟩ : ∃ j, n = j + 1 := ⟨n - 1, by omega⟩
  refine ⟨_, 0, (List.append_nil _).symm, by simp [tokens], ?_⟩
  exact (stmt_passes_block kind n).trans (blockParser_reads kind h (by omega) _) fun _ _ => rfl

mutual

/-- **Every written statement without a block inside a body is legible.** -/
theorem legible : ∀ s : Stmt, s.Flat → s.Legible
  | .assign name value extra, _ => legible_assign name value extra
  | .declare type name extra, _ => legible_declare type name extra
  | .declareInit type name value extra, _ => legible_declareInit type name value extra
  | .call name args extra, _ => legible_call name args extra
  | .output shown extra, _ => legible_output shown extra
  | .ret extra, _ => legible_ret extra
  | .retValue result extra, _ => legible_retValue result extra
  | .ifThen c body, h => legible_ifThen c (legible_of_allFlat body h)
  | .ifElse c body orElse, h =>
    legible_ifElse c (legible_of_allFlat body h.1) (legible_of_allFlat orElse h.2)
  | .loop c body, h => legible_loop c (legible_of_allFlat body h)
  | .func name ps body, h =>
    legible_func name ps fun s hs => (legible_of_allFlat body h s hs).1
  | .block kind body, h => legible_block kind (legible_of_allFlat body h)

theorem legible_of_allFlat : ∀ ss : List Stmt, AllFlat ss → ∀ s ∈ ss, s.Legible ∧ s.isBlock = false
  | [], _ => fun _ hs => by cases hs
  | s :: ss, h =>
    List.forall_mem_cons.mpr ⟨⟨s.legible h.2.1, h.1⟩, legible_of_allFlat ss h.2.2⟩

end

end Stmt

/-! ### Programs -/

namespace Item

theorem endsStmt_leadTag (items : List Item) {g : Tag} (hg : EndsStmt g) :
    EndsStmt (leadTag g (programTokens items)) := by
  cases items with
  | nil => exact hg
  | cons i items =>
    rw [programTokens, List.flatMap_cons, leadTag_append, Item.tokens, Stmt.leadTag_tokens]
    exact i.toStmt.endsStmt_firstTag

/-- The loop of the top level reads blocks by their own parser and does not recover there. -/
theorem topLevelAfter_passes_block (kind : BlockKind) (n : Nat) (done : List Node) :
    Passes (topLevelAfter (n + 1) done) [] (· = kind.tag)
      (kind.parser n >>= fun next => topLevelAfter n (done ++ [next])) := by
  rw [topLevelAfter]
  refine Passes.peekTag_bind fun g hg => ?_
  rw [leadTag_nil, hg]
  have hblock : Passes (Parser.block n) [] (· = kind.tag) (kind.parser n) := by
    rw [Parser.block]
    refine Passes.peek_nil fun t ht => ?_
    rw [ht]
    cases kind <;> exact Passes.refl _ _
  cases kind <;> exact hblock.bind _

/-- The loop of the top level passes over a part of a program and adds its tree. -/
theorem passes (i : Item) (hi : i.toStmt.Flat) {n : Nat} (hn : 4 * i.tokens.length + 1 ≤ n)
    (done : List Node) :
    ∃ k, n ≤ k + i.tokens.length ∧
      Passes (topLevelAfter n done) i.tokens EndsStmt (topLevelAfter k (done ++ [i.node])) := by
  cases i with
  | block kind body =>
    obtain ⟨n, rfl⟩ : ∃ j, n = j + 1 := ⟨n - 1, by omega⟩
    have hlen : (block kind body).tokens.length = (Stmt.allTokens body).length + 3 := by
      simp [Item.tokens, toStmt, Stmt.tokens]
    refine ⟨n, by omega, ?_⟩
    refine (topLevelAfter_passes_block kind n done).trans ?_ fun _ _ => rfl
    exact (Stmt.blockParser_reads kind (Stmt.legible_of_allFlat body hi) (by omega)
      EndsStmt).bind_last (fun _ hg => hg) (Passes.refl _ _)
  | func name ps body => exact topLevelAfter_loop.passes (Stmt.legible _ hi) rfl hn done
  | assign name value extra => exact topLevelAfter_loop.passes (Stmt.legible _ hi) rfl hn done
  | output shown extra => exact topLevelAfter_loop.passes (Stmt.legible _ hi) rfl hn done

end Item

/-- The loop of the top level passes over the parts of a program and adds their trees. -/
theorem topLevelAfter_passes {items : List Item} (h : ∀ i ∈ items, i.toStmt.Flat) {n : Nat}
    (hn : 4 * (programTokens items).length + 1 ≤ n) (done : List Node) :
    ∃ k, n ≤ k + (programTokens items).length ∧
      Passes (topLevelAfter n done) (programTokens items) EndsStmt
        (topLevelAfter k (done ++ items.map Item.node)) := by
  induction items generalizing n done with
  | nil =>
    refine ⟨n, by simp [programTokens], ?_⟩
    rw [List.map_nil, List.append_nil]
    exact Passes.refl _ _
  | cons i items ih =>
    obtain ⟨hi, hitems⟩ := List.forall_mem_cons.mp h
    have htokens : programTokens (i :: items) = i.tokens ++ programTokens items := rfl
    rw [htokens, List.length_append] at hn ⊢
    obtain ⟨k, hk, hpass⟩ := i.passes hi (n := n) (by omega) done
    obtain ⟨j, hj, hrest⟩ := ih hitems (n := k) (by omega) (done ++ [i.node])
    refine ⟨j, by omega, ?_⟩
    rw [List.append_assoc, List.singleton_append] at hrest
    exact hpass.trans hrest fun g hg => Item.endsStmt_leadTag items hg

theorem topLevel_reads {items : List Item} (h : ∀ i ∈ items, i.toStmt.Flat) {n : Nat}
    (hn : 4 * (programTokens items).length + 1 ≤ n) :
    Reads (topLevel n) (programTokens items) (· = .endOfInput) (items.map Item.node) := by
  obtain ⟨k, hk, hpass⟩ := topLevelAfter_passes h hn []
  obtain ⟨k, rfl⟩ : ∃ j, k = j + 1 := ⟨k - 1, by omega⟩
  have := hpass.trans (topLevelAfter_reads_nil k _) fun g hg => hg ▸ by simp [EndsStmt]
  rwa [List.append_nil, List.nil_append] at this

/-- The parser of programs reads a whole written program, wherever it starts. -/
theorem program_reads {items : List Item} (h : ∀ i ∈ items, i.toStmt.Flat) {ts : List Located}
    (hts : ts.map Located.token = programTokens items) (line : Int) :
    program (fuelFor ts.length) ⟨ts, line⟩ = .ok (programNode items) ⟨[], lastLine line ts⟩ := by
  have hlen : (programTokens items).length = ts.length := by rw [← hts, List.length_map]
  have hfuel : 4 * (programTokens items).length + 1 ≤ fuelFor ts.length := by
    rw [hlen, fuelFor]
    omega
  have hread : Reads (program (fuelFor ts.length)) (programTokens items) (· = .endOfInput)
      (programNode items) :=
    (topLevel_reads h hfuel).bind_last (fun _ hg => hg) (Reads.pure _ _)
  have := hread ts [] line hts rfl
  rwa [List.append_nil] at this

theorem resultOn_eq_ok_iff {α : Type} (p : Nat → Parser α) (t : Located) (ts : List Located)
    (a : α) : resultOn p (t :: ts) = .ok a ↔
      ∃ c, p (fuelFor (t :: ts).length) ⟨t :: ts, t.line⟩ = .ok a c := by
  rw [resultOn, runOn, Cursor.start?]
  dsimp only
  cases h : p (fuelFor (t :: ts).length) ⟨t :: ts, t.line⟩ with
  | ok b c => simp
  | error halt c => simp

/-- **The tokens of a written program without a block inside a body form that program.**  The
parser of programs passes over all of them, on whatever lines they stand, and gives the tree of the
program; of a program with at least one token, that is the result of parsing its tokens. -/
theorem program_of_tokens {items : List Item} (h : ∀ i ∈ items, i.toStmt.Flat)
    {ts : List Located} (hts : ts.map Located.token = programTokens items) :
    (∀ line, program (fuelFor ts.length) ⟨ts, line⟩
      = .ok (programNode items) ⟨[], lastLine line ts⟩) ∧
    (ts ≠ [] → resultOn program ts = .ok (programNode items)) := by
  refine ⟨program_reads h hts, fun hne => ?_⟩
  cases ts with
  | nil => exact absurd rfl hne
  | cons t ts => exact (resultOn_eq_ok_iff _ _ _ _).mpr ⟨_, program_reads h hts _⟩

/-- A program with a function, a conditional, a loop and a block, and with the parentheses and
semicolons that are easy to get wrong. -/
def sampleItems : List Item :=
  [.func "f" ["a", "b"]
    [.ifElse (.chain (.plain (.unary .not (.var "a"))) .and
        (.test (.compare .lte (.var "b") (.unary .not (.literal .bool "true")))))
      [.retValue (.binary .div (.unary .neg (.literal .number "8")) (.var "a")) 0]
      [.declare .int "c" 1, .declareInit .string "d" (.literal .string "\"\"") 0],
    .loop (.test (.plain (.call "g" [.var "a", .literal .number "2"])))
      [.output (.binary .sub (.var "a") (.binary .sub (.var "b") (.var "c"))) 1,
      .ifThen (.test (.plain (.var "a"))) [.ret 0]]],
  .assign "x" (.binary .mul (.binary .add (.var "x") (.literal .number "1")) (.var "y")) 2,
  .block .par [.call "f" [.var "x", .grouped (.var "y")] 0],
  .output (.literal .string "\"done\"") 0]

theorem program_of_tokens_sample :
    (∀ i ∈ sampleItems, i.toStmt.Flat) ∧
      resultOn program ((programTokens sampleItems).map (Located.mk · 1))
        = .ok (programNode sampleItems) := by
  have hflat : ∀ i ∈ sampleItems, i.toStmt.Flat := by
    simp [sampleItems, Item.toStmt, Stmt.Flat, Stmt.AllFlat, Stmt.isBlock]
  refine ⟨hflat, (program_of_tokens hflat ?_).2 ?_⟩
  · rw [List.map_map]
    exact List.map_id _
  · simp [sampleItems, programTokens, Item.tokens, Item.toStmt, Stmt.tokens]

end SeqPar.Written
