import SeqPar.Proofs.Acceptance
import SeqPar.Showcase.Detect

/-!
# Recognising programs that were read

Looking for a showcase in a tree can fail in two ways: a whole number in the tree may have no text,
and a call of `output` may have no argument to look at.  Neither happens on a tree that was read from
a source text.  The only plain data in such a tree are texts.  And the word `output` is read together
with an argument, also where the source has none; any other call without arguments is named by a token
of the source, and no token but that of the word itself is spelled `output`.

## Main definitions

* `Token.SpellsOutput` — only the word `output` is spelled so.
* `Node.WritesSome` — a call of `output` has an argument.

## Main results

* `Node.IsStmt.tooLong_eq` — a statement that was read holds no number without text.
* `Node.IsStmt.writesSome` — in a statement that was read, `output` has an argument.
* `exists_detect` — recognising succeeds on statements of that kind.
* `exists_detect_of_source` — **recognising never fails on a program that was read.**
-/

namespace SeqPar

open Lexeme Written

/-! ### The word `output` -/

/-- Only the word `output` is spelled so. -/
def Token.SpellsOutput (t : Token) : Prop :=
  t.text = "output" → t.tag = .output

/-- **A token that scanning gives and that is spelled `output` is the word**, since the scanner looks
for words before it looks for names. -/
theorem Token.Lexed.spellsOutput {t : Token} (ht : t.Lexed) : t.SpellsOutput := by
  intro hspelled
  have hword : ("output", Tag.output) ∈ openWords := by decide
  exact ht.tag_eq_of_openWord hword (hspelled ▸ List.prefix_refl _)

namespace Node

/-- A call of `output` has an argument. -/
def WritesSome (n : Node) : Prop :=
  ∀ type t args, n = .call type t args → t.text = "output" → args ≠ []

theorem IsStmt.writesSome {n : Node} (h : IsStmt Token.SpellsOutput n) : n.WritesSome := by
  rintro type t args rfl hspelled hnil
  cases h with
  | call _ hname _ =>
    obtain ⟨hword, htag⟩ := hname hnil
    exact htag (hword hspelled)

/-! ### Numbers in trees that were read -/

variable {P : Token → Prop} {n : Node}

theorem anyTooLong_eq_false {ns : List Node} (h : ∀ n ∈ ns, n.tooLong = false) :
    anyTooLong ns = false := by
  induction ns with
  | nil => rfl
  | cons n ns ih =>
    obtain ⟨hn, hns⟩ := List.forall_mem_cons.mp h
    rw [anyTooLong, hn, ih hns]
    rfl

theorem IsExpr.tooLong_eq (h : IsExpr P n) : n.tooLong = false := by
  induction h with
  | constant type ht => rfl
  | ident type ht => rfl
  | arithmetic _ _ _ ihleft ihright =>
    rw [tooLong, ihleft, ihright]
    rfl
  | unary _ _ _ ih =>
    rw [tooLong]
    exact ih
  | call _ _ ih =>
    rw [tooLong]
    exact anyTooLong_eq_false ih

theorem IsCondition.tooLong_eq (h : IsCondition P n) : n.tooLong = false := by
  induction h with
  | expr h => exact h.tooLong_eq
  | relational _ hleft hright =>
    rw [tooLong, hleft.tooLong_eq, hright.tooLong_eq]
    rfl
  | logical _ _ _ ihleft ihright =>
    rw [tooLong, ihleft, ihright]
    rfl

theorem IsDatum.tooLong_eq (h : IsDatum n) : n.tooLong = false := by
  cases h <;> rfl

theorem IsExprOrDatum.tooLong_eq (h : IsExprOrDatum P n) : n.tooLong = false :=
  h.elim IsExpr.tooLong_eq IsDatum.tooLong_eq

/-- **A statement that was read holds no number without text**, by induction on the statement. -/
theorem IsStmt.tooLong_eq (h : IsStmt P n) : n.tooLong = false := by
  induction h with
  | constant type ht => rfl
  | ident type decl ht => rfl
  | call _ _ hargs =>
    rw [tooLong]
    exact anyTooLong_eq_false fun a ha => (hargs a ha).tooLong_eq
  | assign _ hright =>
    rw [tooLong, hright.tooLong_eq]
    rfl
  | cond hcondition _ _ ihbody ihorElse =>
    rw [tooLong, hcondition.tooLong_eq, anyTooLong_eq_false ihbody, anyTooLong_eq_false ihorElse]
    rfl
  | loop hcondition _ ihbody =>
    rw [tooLong, hcondition.tooLong_eq, anyTooLong_eq_false ihbody]
    rfl
  | funcDef hparams _ ihbody =>
    rw [tooLong, anyTooLong_eq_false ihbody, Bool.or_false]
    refine anyTooLong_eq_false fun p hp => ?_
    -- A parameter is a name and holds no number.
    obtain ⟨type, param, rfl⟩ := hparams p hp
    rfl
  | seq _ ihbody =>
    rw [tooLong]
    exact anyTooLong_eq_false ihbody
  | par _ ihbody =>
    rw [tooLong]
    exact anyTooLong_eq_false ihbody
  | clientChannel hhost hport =>
    rw [tooLong, hhost.tooLong_eq, hport.tooLong_eq]
    rfl
  | ret hexpr =>
    rw [tooLong]
    exact hexpr.tooLong_eq

end Node

/-! ### Gathering evidence -/

namespace Evidence

/-- A statement fails to be evidence only if it calls `output` without an argument. -/
theorem exists_afterStmt (e : Evidence) {n : Node} (h : n.WritesSome) :
    ∃ e', e.afterStmt n = .ok e' := by
  fun_cases afterStmt e n with
  | case1 type t hspelled => exact absurd rfl (h type t [] rfl hspelled)
  | _ => exact ⟨_, rfl⟩

theorem exists_afterStmts (e : Evidence) {ns : List Node} (h : ∀ n ∈ ns, n.WritesSome) :
    ∃ e', e.afterStmts ns = .ok e' := by
  induction ns generalizing e with
  | nil => exact ⟨e, rfl⟩
  | cons n ns ih =>
    obtain ⟨hn, hns⟩ := List.forall_mem_cons.mp h
    obtain ⟨e₁, he₁⟩ := e.exists_afterStmt hn
    obtain ⟨e₂, he₂⟩ := ih e₁ hns
    refine ⟨e₂, ?_⟩
    rw [afterStmts, he₁]
    exact he₂

theorem exists_afterProgram (e : Evidence) {ns : List Node}
    (h : ∀ body, .seq body ∈ ns → ∀ n ∈ body, n.WritesSome) : ∃ e', e.afterProgram ns = .ok e' := by
  fun_induction afterProgram e ns with
  | case1 e => exact ⟨e, rfl⟩
  | case2 e body ns ih =>
    obtain ⟨e₁, he₁⟩ := e.exists_afterStmts (h body List.mem_cons_self)
    rw [he₁]
    exact ih e₁ fun body hbody => h body (List.mem_cons_of_mem _ hbody)
  | case3 e n ns hn ih => exact ih fun body hbody => h body (List.mem_cons_of_mem n hbody)

end Evidence

theorem exists_ok_ite {α : Type} {condition : Prop} [Decidable condition] {p q : Except Fault α}
    (hp : ∃ a, p = .ok a) (hq : ∃ a, q = .ok a) : ∃ a, (if condition then p else q) = .ok a := by
  split
  · exact hp
  · exact hq

/-- Recognising a program succeeds if its numbers have texts and `output` has arguments in its
sequential blocks. -/
theorem exists_detect {stmts : List Node} (hshort : Node.anyTooLong stmts = false)
    (hwrites : ∀ body, .seq body ∈ stmts → ∀ n ∈ body, n.WritesSome) :
    ∃ kind, detect stmts = .ok kind := by
  obtain ⟨e, he⟩ := Evidence.empty.exists_afterProgram hwrites
  have hevidence : Evidence.empty.afterProgram stmts = pure e := he
  rw [detect, hshort, if_neg Bool.false_ne_true]
  simp only [hevidence, pure_bind]
  -- each clue that decides gives its showcase, and none of them gives a fault
  iterate 6 refine exists_ok_ite ⟨_, rfl⟩ ?_
  exact ⟨_, rfl⟩

/-- **Recognising never fails on a program that was read from a source text**: it gives a showcase or
none.  In particular every call of `output` in a sequential block of the top level has an argument. -/
theorem exists_detect_of_source {source : String} {node : Node}
    (h : Parser.resultOn Parser.program (tokens source) = .ok node) :
    ∃ stmts, node = .program stmts ∧ (∃ kind, detect stmts = .ok kind) ∧
      ∀ body type t args, .seq body ∈ stmts → .call type t args ∈ body → t.text = "output" →
        args ≠ [] := by
  have hend : Token.endOfInput.SpellsOutput := fun hspelled => absurd hspelled (by decide)
  obtain ⟨stmts, rfl, hstmts⟩ :=
    Parser.isStmt_of_program hend (fun t ht => (lexed_of_mem_tokens ht).spellsOutput) h
  -- a block of the top level consists of statements, which are of the same kind
  have hwrites : ∀ body, .seq body ∈ stmts → ∀ n ∈ body, n.WritesSome := by
    intro body hbody n hn
    cases hstmts _ hbody with
    | seq hinner => exact (hinner n hn).writesSome
  have hshort := Node.anyTooLong_eq_false fun s hs => (hstmts s hs).tooLong_eq
  refine ⟨stmts, rfl, exists_detect hshort hwrites, ?_⟩
  intro body type t args hbody hcall hspelled
  exact hwrites body hbody _ hcall type t args rfl hspelled

/-- A source text that calls `output` without an argument. -/
def bareOutputSource : String :=
  "SEQ \x7b output(); output(\"operação +\"); \x7d"

/-- The statement that the call becomes: the parenthesis is passed over for a number. -/
def bareOutput : Node :=
  .call none ⟨.other "output", "output"⟩ [Parser.zeroLiteral]

/-- The block of the source text. -/
def bareOutputBody : List Node :=
  [bareOutput, .call none ⟨.other "output", "output"⟩
    [.constant (some "STRING") ⟨.string, "\"operação +\""⟩]]

theorem tokens_bareOutputSource :
    tokens bareOutputSource = [mark .seq, mark .lbrace, mark .output, mark .lparen, mark .rparen,
      mark .semicolon, mark .output, mark .lparen, ⟨.string, "\"operação +\""⟩, mark .rparen,
      mark .semicolon, mark .rbrace].map (Located.mk · 1) := by
  decide +kernel

/-- A program in which `output` seems to stand alone is looked at without a fault. -/
theorem exists_detect_bareOutput :
    Parser.resultOn Parser.program (tokens bareOutputSource) = .ok (.program [.seq bareOutputBody]) ∧
      (∃ kind, detect [.seq bareOutputBody] = .ok kind) ∧ [Parser.zeroLiteral] ≠ [] := by
  have hread : Parser.resultOn Parser.program (tokens bareOutputSource) =
      .ok (.program [.seq bareOutputBody]) := by
    rw [tokens_bareOutputSource]
    rfl
  obtain ⟨stmts, hstmts, hkind, hargs⟩ := exists_detect_of_source hread
  obtain rfl := Node.program.inj hstmts
  exact ⟨hread, hkind, hargs bareOutputBody none _ _ List.mem_cons_self List.mem_cons_self rfl⟩

end SeqPar
