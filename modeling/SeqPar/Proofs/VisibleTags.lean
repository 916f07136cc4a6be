import SeqPar.Proofs.ReadTrees
import SeqPar.Proofs.Relexing

/-!
# The tags that a program can show

Not every tag that the grammar asks for can be seen in a source.  The rules for `input`, `break` and
`continue` are tried after the rule for identifiers, which takes their words; blanks and comments
are no tokens; and the end of the input is no piece of the text.  All other tags of the list are
seen.  A name, in turn, cannot start with one of the open words.

What holds of the tokens holds of the trees that are read from them.  The parser makes up tokens of
its own, but it does so with few tags, and with that of `input` only behind a token that has it.  The
branches of the grammar for `input` are therefore never taken on a source text.

## Main definitions

* `sampleTokens` — a text for each tag that can be seen.
* `hiddenNames` — the names of tags that cannot be seen.
* `Node.tokens` — the tokens in a tree.

## Main results

* `exists_token_tag_iff` — **the tags of the tokens of sources are the tags of the list**, the end of
  the input apart.
* `Node.IsStmt.isCarried_of_mem_tokens` — the tokens in a statement that was read have the tags of
  tokens that it was read from, or tags that are made up.
* `visible_tags` — **no source shows a hidden tag, or an identifier that starts with an open word, and
  no tree that is read from a source holds the tag of `input`.**
-/

namespace SeqPar

open Lexeme

/-! ### The tags of tokens -/

/-- Texts of one token each: the fixed texts, a name, a number and a quoted text. -/
def sampleTokens : List (String × Tag) :=
  closedWords ++ (openWords ++ (operators ++ [("x", .ident), ("0", .number), ("\"\"", .string)]))

/-- A sample is the lexeme that it stands for. -/
theorem lexeme?_sample {s : String} {tag : Tag} (hs : (s, tag) ∈ sampleTokens) :
    lexeme? none s.toList = some (.token tag, s.length) := by
  rw [← List.append_nil s.toList]
  rcases List.mem_append.mp hs with hclosed | hs
  · exact lexeme?_closedWord hclosed rfl rfl
  rcases List.mem_append.mp hs with hopen | hs
  · exact lexeme?_openWord hopen none []
  rcases List.mem_append.mp hs with hop | hs
  · rcases List.mem_append.mp hop with hfirm | hsoft
    · exact lexeme?_firmOperator hfirm none []
    · exact lexeme?_softOperator hsoft none (by simp)
  · simp only [List.mem_cons, Prod.mk.injEq, List.not_mem_nil, or_false] at hs
    rcases hs with ⟨rfl, rfl⟩ | ⟨rfl, rfl⟩ | ⟨rfl, rfl⟩
    all_goals rfl

/-- Every token that is recognised has the tag of a sample. -/
theorem Lexeme.Recognised.exists_sample {before : Option Char} {cs : List Char} {tag : Tag}
    {length : Nat} (h : Recognised before cs (.token tag) length) :
    ∃ s, (s, tag) ∈ sampleTokens := by
  cases h with
  | closedWord hs _ _ _ => exact ⟨_, List.mem_append_left _ hs⟩
  | openWord hs _ => exact ⟨_, List.mem_append_right _ (List.mem_append_left _ hs)⟩
  | operator hs _ =>
    exact ⟨_, List.mem_append_right _ (List.mem_append_right _ (List.mem_append_left _ hs))⟩
  | ident _ _ _ => exact ⟨"x", by decide⟩
  | number _ _ _ _ => exact ⟨"0", by decide⟩
  | string _ _ => exact ⟨"\"\"", by decide⟩

/-- The samples have all tags of the list but that of the end of the input. -/
theorem exists_sample_iff (tag : Tag) :
    (∃ s, (s, tag) ∈ sampleTokens) ↔ tag ∈ Tag.listed ∧ tag ≠ .endOfInput := by
  have hlisted : ∀ p ∈ sampleTokens, p.2 ∈ Tag.listed ∧ p.2 ≠ .endOfInput := by decide
  have hsample : ∀ tag ∈ Tag.listed, tag ≠ .endOfInput → tag ∈ sampleTokens.map Prod.snd := by
    decide
  constructor
  · rintro ⟨s, hs⟩
    exact hlisted _ hs
  · rintro ⟨hmem, hne⟩
    obtain ⟨p, hp, rfl⟩ := List.mem_map.mp (hsample tag hmem hne)
    exact ⟨p.1, hp⟩

/-- A source that starts with a lexeme has its token. -/
theorem mem_tokensFrom_of_lexeme? {before : Option Char} {c : Char} {cs : List Char} {tag : Tag}
    {length : Nat} (h : lexeme? before (c :: cs) = some (.token tag, length)) :
    ⟨tag, String.ofList (c :: cs.take (length - 1))⟩ ∈ tokensFrom before (c :: cs) := by
  rw [tokensFrom_lexeme h]
  exact List.mem_append_left _ List.mem_cons_self

/-- The tag of a token of a source is one of the list, and not that of the end of the input. -/
theorem Token.Lexed.tag_mem_listed {t : Token} (ht : t.Lexed) :
    t.tag ∈ Tag.listed ∧ t.tag ≠ .endOfInput := by
  obtain ⟨before, cs, length, hfound, -⟩ := ht
  exact (exists_sample_iff t.tag).mp (recognised_of_lexeme? hfound).exists_sample

/-- **The tags of the tokens of sources are the tags of the list**, the end of the input apart. -/
theorem exists_token_tag_iff (tag : Tag) :
    (∃ source, ∃ t ∈ tokens source, t.token.tag = tag) ↔
      tag ∈ Tag.listed ∧ tag ≠ .endOfInput := by
  constructor
  · rintro ⟨source, t, ht, rfl⟩
    exact (lexed_of_mem_tokens ht).tag_mem_listed
  · intro htag
    obtain ⟨s, hs⟩ := (exists_sample_iff tag).mpr htag
    have hlexeme := lexeme?_sample hs
    cases hchars : s.toList with
    | nil =>
      have hle := lexeme?_le hlexeme
      have hpos := lexeme?_pos hlexeme
      rw [hchars] at hle
      exact absurd hle (Nat.not_le.mpr hpos)
    | cons c cs =>
      rw [hchars] at hlexeme
      have hmem := mem_tokensFrom_of_lexeme? hlexeme
      rw [← hchars, ← map_token_tokens] at hmem
      obtain ⟨t, ht, htoken⟩ := List.mem_map.mp hmem
      exact ⟨s, t, ht, by rw [htoken]⟩

/-- The names of tags that no token of a source has. -/
def hiddenNames : List String :=
  ["INPUT", "BREAK", "CONTINUE", "WHITESPACE", "COMMENT", "MLCOMMENT", "EOF"]

theorem name_not_mem_hiddenNames {tag : Tag} (h : tag ∈ Tag.listed) (hne : tag ≠ .endOfInput) :
    tag.name ∉ hiddenNames := by
  have hall : ∀ tag ∈ Tag.listed, tag ≠ .endOfInput → tag.name ∉ hiddenNames := by decide
  exact hall tag h hne

/-! ### The tokens in a tree -/

mutual

/-- The tokens in a value. -/
def Value.tokens : Value → List Token
  | .token t => [t]
  | .list items | .tuple items => Value.tokensIn items
  | .dict entries => Value.tokensInEntries entries
  | .node n => n.tokens
  | _ => []

/-- The tokens in several values. -/
def Value.tokensIn : List Value → List Token
  | [] => []
  | v :: vs => v.tokens ++ Value.tokensIn vs

/-- The tokens in the entries of a dictionary. -/
def Value.tokensInEntries : List (Value × Value) → List Token
  | [] => []
  | (k, v) :: rest => k.tokens ++ (v.tokens ++ Value.tokensInEntries rest)

/-- The tokens in a tree, wherever they stand in it. -/
def Node.tokens : Node → List Token
  | .datum v => v.tokens
  | .constant _ t | .ident _ t _ | .expression _ t => [t]
  | .logical _ t left right | .relational _ t left right | .arithmetic _ t left right
  | .access _ t left right => t :: (left.tokens ++ right.tokens)
  | .unary _ t expr => t :: expr.tokens
  | .call _ t args => t :: Node.tokensIn args
  | .assign left right | .clientChannel _ left right => left.tokens ++ right.tokens
  | .program body | .seq body | .par body => Node.tokensIn body
  | .cond condition body orElse =>
    condition.tokens ++ (Node.tokensIn body ++ (match orElse with
      | none => []
      | some stmts => Node.tokensIn stmts))
  | .loop condition body => condition.tokens ++ Node.tokensIn body
  | .funcDef _ _ params body => Node.tokensIn params ++ Node.tokensIn body
  | .serverChannel _ host port greeting _ => host.tokens ++ (port.tokens ++ greeting.tokens)
  | .ret expr => expr.tokens
  | .breakLoop | .continueLoop | .blank _ | .statement => []

/-- The tokens in several trees. -/
def Node.tokensIn : List Node → List Token
  | [] => []
  | n :: ns => n.tokens ++ Node.tokensIn ns

end

namespace Node

variable {P : Token → Prop} {n : Node}

theorem forall_mem_tokensIn {Q : Token → Prop} {ns : List Node}
    (h : ∀ n ∈ ns, ∀ t ∈ n.tokens, Q t) : ∀ t ∈ tokensIn ns, Q t := by
  induction ns with
  | nil =>
    intro t ht
    cases ht
  | cons n ns ih =>
    obtain ⟨hn, hns⟩ := List.forall_mem_cons.mp h
    rw [tokensIn]
    exact List.forall_mem_append.mpr ⟨hn, ih hns⟩

theorem IsExpr.isCarried_of_mem_tokens (h : IsExpr P n) : ∀ t ∈ n.tokens, t.IsCarried P := by
  induction h with
  | constant type ht =>
    rw [tokens]
    exact List.forall_mem_singleton.mpr ht
  | ident type ht =>
    rw [tokens]
    exact List.forall_mem_singleton.mpr ht
  | arithmetic hsign _ _ ihleft ihright =>
    rw [tokens]
    exact List.forall_mem_cons.mpr ⟨.of hsign, List.forall_mem_append.mpr ⟨ihleft, ihright⟩⟩
  | unary hsign _ _ ih =>
    rw [tokens]
    exact List.forall_mem_cons.mpr ⟨.of hsign, ih⟩
  | call ht _ ih =>
    rw [tokens]
    exact List.forall_mem_cons.mpr ⟨ht, forall_mem_tokensIn ih⟩

theorem IsCondition.isCarried_of_mem_tokens (h : IsCondition P n) :
    ∀ t ∈ n.tokens, t.IsCarried P := by
  induction h with
  | expr h => exact h.isCarried_of_mem_tokens
  | relational hsign hleft hright =>
    rw [tokens]
    refine List.forall_mem_cons.mpr ⟨.of hsign, List.forall_mem_append.mpr ⟨?_, ?_⟩⟩
    · exact hleft.isCarried_of_mem_tokens
    · exact hright.isCarried_of_mem_tokens
  | logical hsign _ _ ihleft ihright =>
    rw [tokens]
    exact List.forall_mem_cons.mpr ⟨.of hsign, List.forall_mem_append.mpr ⟨ihleft, ihright⟩⟩

/-- The plain data that reading puts into a tree holds no token. -/
theorem IsDatum.tokens_eq (h : IsDatum n) : n.tokens = [] := by
  cases h <;> rfl

theorem IsExprOrDatum.isCarried_of_mem_tokens (h : IsExprOrDatum P n) :
    ∀ t ∈ n.tokens, t.IsCarried P := by
  rcases h with hexpr | hdatum
  · exact hexpr.isCarried_of_mem_tokens
  · rw [hdatum.tokens_eq]
    exact List.forall_mem_nil _

/-- **The tokens in a statement that was read are carried over or made up**, by induction on the
statement. -/
theorem IsStmt.isCarried_of_mem_tokens (h : IsStmt P n) : ∀ t ∈ n.tokens, t.IsCarried P := by
  induction h with
  | constant type ht =>
    rw [tokens]
    exact List.forall_mem_singleton.mpr ht
  | ident type decl ht =>
    rw [tokens]
    exact List.forall_mem_singleton.mpr ht
  | call ht _ hargs =>
    rw [tokens]
    refine List.forall_mem_cons.mpr ⟨ht, forall_mem_tokensIn fun a ha => ?_⟩
    exact (hargs a ha).isCarried_of_mem_tokens
  | assign ht hright =>
    rw [tokens, tokens]
    exact List.forall_mem_cons.mpr ⟨ht, hright.isCarried_of_mem_tokens⟩
  | cond hcondition _ _ ihbody ihorElse =>
    rw [tokens]
    refine List.forall_mem_append.mpr ⟨hcondition.isCarried_of_mem_tokens, ?_⟩
    exact List.forall_mem_append.mpr ⟨forall_mem_tokensIn ihbody, forall_mem_tokensIn ihorElse⟩
  | loop hcondition _ ihbody =>
    rw [tokens]
    exact List.forall_mem_append.mpr
      ⟨hcondition.isCarried_of_mem_tokens, forall_mem_tokensIn ihbody⟩
  | funcDef hparams _ ihbody =>
    rw [tokens]
    refine List.forall_mem_append.mpr
      ⟨forall_mem_tokensIn fun p hp => ?_, forall_mem_tokensIn ihbody⟩
    -- A parameter is made up with the tag of a name.
    obtain ⟨type, param, rfl⟩ := hparams p hp
    rw [Parser.declared, tokens]
    exact List.forall_mem_singleton.mpr (.of_mem (by decide) param)
  | seq _ ihbody =>
    rw [tokens]
    exact forall_mem_tokensIn ihbody
  | par _ ihbody =>
    rw [tokens]
    exact forall_mem_tokensIn ihbody
  | clientChannel hhost hport =>
    rw [tokens, hhost.tokens_eq, hport.tokens_eq]
    exact List.forall_mem_nil _
  | ret hexpr =>
    rw [tokens]
    exact hexpr.isCarried_of_mem_tokens

end Node

/-- The tags in a tree that is read from a source are those of the list and those of the two calls
that have words of their own. -/
theorem tag_mem_of_program {source : String} {node : Node}
    (hread : Parser.resultOn Parser.program (tokens source) = .ok node) {t : Token}
    (ht : t ∈ node.tokens) : t.tag ∈ Tag.listed ++ [.other "send", .other "output"] := by
  have hlisted : ∀ u ∈ tokens source, u.token.tag ∈ Tag.listed := by
    intro u hu
    exact (lexed_of_mem_tokens hu).tag_mem_listed.1
  obtain ⟨stmts, rfl, hstmts⟩ :=
    Parser.isStmt_of_program (P := fun u => u.tag ∈ Tag.listed) (by decide) hlisted hread
  rw [Node.tokens] at ht
  have hcarried : t.IsCarried fun u => u.tag ∈ Tag.listed :=
    Node.forall_mem_tokensIn (fun s hs => (hstmts s hs).isCarried_of_mem_tokens) t ht
  have hmade : ∀ tag ∈ Tag.madeUp, tag ∈ Tag.listed ++ [.other "send", .other "output"] := by decide
  rcases hcarried with hmem | ⟨u, hu, htag⟩
  · exact hmade t.tag hmem
  · exact List.mem_append_left _ (htag ▸ hu)

/-- **The tags that a program can show.**  The tokens of sources have the tags of the list, the end of
the input apart.  So no token of a source has a hidden tag; no identifier among them starts with an
open word; and no tree that is read from a source holds a token with the tag of `input`. -/
theorem visible_tags :
    (∀ tag, (∃ source, ∃ t ∈ tokens source, t.token.tag = tag) ↔
      tag ∈ Tag.listed ∧ tag ≠ .endOfInput) ∧
    ∀ source,
      (∀ t ∈ tokens source, t.token.tag.name ∉ hiddenNames ∧
        (t.token.tag = .ident →
          ∀ s tag, (s, tag) ∈ openWords → ¬ s.toList <+: t.token.text.toList)) ∧
      ∀ node, Parser.resultOn Parser.program (tokens source) = .ok node →
        ∀ t ∈ node.tokens, t.tag.name ≠ "INPUT" := by
  refine ⟨exists_token_tag_iff, fun source => ⟨?_, ?_⟩⟩
  · intro t ht
    have hlexed := lexed_of_mem_tokens ht
    obtain ⟨hlisted, hne⟩ := hlexed.tag_mem_listed
    exact ⟨name_not_mem_hiddenNames hlisted hne, hlexed.not_openWord_of_ident⟩
  · intro node hread t ht
    have hall : ∀ tag ∈ Tag.listed ++ [.other "send", .other "output"], tag.name ≠ "INPUT" := by
      decide
    exact hall t.tag (tag_mem_of_program hread ht)

/-- A source that uses the words of the late rules. -/
def lateWordsSource : String :=
  "x = input(); break"

theorem tokens_lateWordsSource :
    tokens lateWordsSource = [⟨⟨.ident, "x"⟩, 1⟩, ⟨⟨.assign, "="⟩, 1⟩, ⟨⟨.ident, "input"⟩, 1⟩,
      ⟨⟨.lparen, "("⟩, 1⟩, ⟨⟨.rparen, ")"⟩, 1⟩, ⟨⟨.semicolon, ";"⟩, 1⟩, ⟨⟨.ident, "break"⟩, 1⟩] := by
  decide +kernel

/-- The program that it forms. -/
def lateWordsProgram : Node :=
  .program [.assign (Parser.reference "x") (.call none ⟨.ident, "input"⟩ []),
    Parser.reference "break"]

/-- The words are identifiers, in the source and in the tree. -/
theorem lateWords_are_identifiers :
    (⟨⟨.ident, "input"⟩, 1⟩ ∈ tokens lateWordsSource ∧ Tag.ident.name ∉ hiddenNames ∧
      ∀ s tag, (s, tag) ∈ openWords → ¬ s.toList <+: "input".toList) ∧
    Parser.resultOn Parser.program (tokens lateWordsSource) = .ok lateWordsProgram ∧
      ⟨.ident, "input"⟩ ∈ lateWordsProgram.tokens ∧ Tag.ident.name ≠ "INPUT" := by
  obtain ⟨htokens, htrees⟩ := visible_tags.2 lateWordsSource
  have hmem : ⟨⟨.ident, "input"⟩, 1⟩ ∈ tokens lateWordsSource := by
    rw [tokens_lateWordsSource]
    decide
  have hread : Parser.resultOn Parser.program (tokens lateWordsSource) = .ok lateWordsProgram := by
    rw [tokens_lateWordsSource]
    rfl
  have hheld : ⟨.ident, "input"⟩ ∈ lateWordsProgram.tokens := by decide
  obtain ⟨hname, hopen⟩ := htokens _ hmem
  exact ⟨⟨hmem, hname, hopen rfl⟩, hread, hheld, htrees _ hread _ hheld⟩

end SeqPar
