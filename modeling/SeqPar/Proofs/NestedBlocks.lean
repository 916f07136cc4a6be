import SeqPar.Proofs.ReadStmt
import SeqPar.Proofs.Turns

/-!
# Blocks inside bodies

The loop that reads the statements of a block or branch stops in front of the next block, also of
one that is written inside the same braces.  The body then ends there without its closing brace,
and so do all bodies around it: what was read is returned up to the top level, where the inner
block is read as a block of its own.

So a written program is read as it is written exactly when no block stands inside a body.

## Main definitions

* `Breaks p ts P` — somewhere in the tokens `ts` the parser `p` stops in front of a block, with a
  result that satisfies `P`.
* `Stmt.FunctionFree` — a statement without function definitions inside.

## Main results

* `Stmt.breaks` — a statement with a block inside a body is not read as it is written.
* `program_of_tokens_iff` — **the tokens of a written program form that program exactly when no
  block stands inside a body.**
-/

namespace SeqPar.Written

open SeqPar.Parser

/-- The lookahead opens a block. -/
def AtBlock (c : Cursor) : Prop :=
  c.look.tag = .seq ∨ c.look.tag = .par

section Breaks

variable {α β : Type}

/-- Somewhere in the tokens `ts` the parser `p` stops in front of a block, with a result that
satisfies `P`. -/
def Breaks (p : Parser α) (ts : List Token) (P : α → Prop) : Prop :=
  ∀ (us rest : List Located) (line : Int), us.map Located.token = ts →
    ∃ a c, p ⟨us ++ rest, line⟩ = .ok a c ∧ P a ∧ AtBlock c

/-- What follows the place where a parser stops makes no difference. -/
theorem Breaks.append {p : Parser α} {ts : List Token} {P : α → Prop} (h : Breaks p ts P)
    (us : List Token) : Breaks p (ts ++ us) P := by
  intro ws rest line hws
  obtain ⟨ws₁, ws₂, rfl, h₁, -⟩ := List.map_eq_append_iff.mp hws
  rw [List.append_assoc]
  exact h ws₁ (ws₂ ++ rest) line h₁

/-- Passing over some tokens before stopping in the next. -/
theorem Breaks.of_passes {p q : Parser α} {ts us : List Token} {next : Tag → Prop}
    {P : α → Prop} (h : Passes p ts next q) (hnext : ∀ g, next (leadTag g us))
    (h' : Breaks q us P) : Breaks p (ts ++ us) P := by
  intro ws rest line hws
  obtain ⟨ws₁, ws₂, rfl, h₁, h₂⟩ := List.map_eq_append_iff.mp hws
  have hfront : next (frontTag (ws₂ ++ rest)) := by
    rw [frontTag_append, h₂]
    exact hnext _
  rw [List.append_assoc, h ws₁ (ws₂ ++ rest) line h₁ hfront]
  exact h' ws₂ rest _ h₂

/-- A parser that goes on after stopping in front of a block and stays there. -/
theorem Breaks.bind {p : Parser α} {f : α → Parser β} {ts : List Token} {P : α → Prop}
    {Q : β → Prop} (h : Breaks p ts P)
    (hf : ∀ a c, P a → AtBlock c → ∃ b, f a c = .ok b c ∧ Q b) : Breaks (p >>= f) ts Q := by
  intro us rest line hus
  obtain ⟨a, c, hp, ha, hc⟩ := h us rest line hus
  obtain ⟨b, hb, hQ⟩ := hf a c ha hc
  refine ⟨b, c, ?_, hQ, hc⟩
  change EStateM.bind p f _ = _
  rw [EStateM.bind, hp]
  exact hb

theorem Breaks.recover {p handler : Parser α} {ts : List Token} {P : α → Prop}
    (h : Breaks p ts P) : Breaks (Parser.recover p handler) ts P := by
  intro us rest line hus
  obtain ⟨a, c, hp, ha, hc⟩ := h us rest line hus
  refine ⟨a, c, ?_, ha, hc⟩
  rw [Parser.recover, hp]

theorem Breaks.mono {p : Parser α} {ts : List Token} {P Q : α → Prop} (h : Breaks p ts P)
    (hPQ : ∀ a, P a → Q a) : Breaks p ts Q := by
  intro us rest line hus
  obtain ⟨a, c, hp, ha, hc⟩ := h us rest line hus
  exact ⟨a, c, hp, hPQ a ha, hc⟩

theorem accept_atBlock {c : Cursor} (hc : AtBlock c) {g : Tag} (hs : g ≠ .seq) (hp : g ≠ .par) :
    accept g c = .ok () c := by
  have hne : c.look.tag ≠ g := by
    rcases hc with h | h <;> rw [h]
    · exact hs.symm
    · exact hp.symm
  change EStateM.bind peekTag (fun t => if t = g then advance else pure ()) c = _
  rw [EStateM.bind]
  change (if c.look.tag = g then advance else pure ()) c = _
  rw [if_neg hne]
  rfl

/-- The closing brace that is due after a parser that stopped in front of a block is not missed. -/
theorem Breaks.closed {p : Parser α} {ts : List Token} {P : α → Prop} (h : Breaks p ts P)
    (make : α → β) :
    Breaks (p >>= fun inner => accept .rbrace >>= fun _ => pure (make inner))
      (ts ++ [mark .rbrace]) fun x => ∃ a, P a ∧ x = make a := by
  refine Breaks.append ?_ [mark .rbrace]
  refine h.bind fun inner c hinner hc => ⟨_, ?_, inner, hinner, rfl⟩
  change EStateM.bind _ _ c = _
  rw [EStateM.bind, accept_atBlock hc (by simp) (by simp)]
  rfl

end Breaks

theorem BlockKind.node_inj {kind : BlockKind} {r r' : List Node} (h : kind.node r = kind.node r') :
    r = r' := by
  cases kind with
  | seq => exact Node.seq.inj h
  | par => exact Node.par.inj h

namespace Stmt

/-! ### Where reading stops -/

mutual

/-- No function definition stands inside. -/
def FunctionFree : Stmt → Prop
  | .func .. => False
  | .ifThen _ body | .loop _ body | .block _ body => AllFunctionFree body
  | .ifElse _ body orElse => AllFunctionFree body ∧ AllFunctionFree orElse
  | _ => True

/-- No statement is a function definition or has one inside. -/
def AllFunctionFree : List Stmt → Prop
  | [] => True
  | s :: ss => s.FunctionFree ∧ AllFunctionFree ss

end

/-- The loop of blocks stops in front of a block. -/
theorem stmts_atBlock {c : Cursor} (hc : AtBlock c) (n : Nat) (done : List Node) :
    stmts (n + 1) done c = .ok done c := by
  have hend : blockEnds.contains c.look.tag = true := by
    rcases hc with h | h <;> rw [h] <;> rfl
  rw [stmts]
  change (if blockEnds.contains c.look.tag = true then pure done else _ : Parser _) c = _
  rw [if_pos hend]
  rfl

theorem stmts_breaks_block (kind : BlockKind) (body : List Stmt) (n : Nat) (done : List Node) :
    Breaks (stmts (n + 1) done) (block kind body).tokens (· = done) := by
  intro us rest line hus
  have hblock : AtBlock ⟨us ++ rest, line⟩ := by
    rw [AtBlock, look_tag, frontTag_append, hus, leadTag_tokens]
    cases kind
    · exact Or.inl rfl
    · exact Or.inr rfl
  exact ⟨done, _, stmts_atBlock hblock n done, rfl, hblock⟩

/-- After a statement that stops in front of a block, so does the loop of blocks. -/
theorem stmts_breaks {n : Nat} {ts : List Token} {P : Node → Prop}
    (h : Breaks (Parser.stmt (n + 1)) ts P) (hstart : ∀ g, StartsInBlock (leadTag g ts))
    (done : List Node) :
    Breaks (stmts (n + 2) done) ts fun r => ∃ x, P x ∧ r = done ++ [x] := by
  refine Breaks.of_passes (stmts_passes_nil (n + 1) done) hstart ?_
  exact h.bind fun x c hx hc => ⟨_, stmts_atBlock hc n _, x, hx, rfl⟩

/-- A parser of a body in braces that stops in the body stops in front of a block. -/
theorem body_breaks {ss : List Stmt} {n : Nat} {P : List Node → Prop}
    (h : Breaks (stmts n []) (allTokens ss) P) :
    Breaks (body (n + 1)) (braces (allTokens ss)) P := by
  have hopen : Passes (body (n + 1)) [mark .lbrace] (fun _ => True)
      (stmts n [] >>= fun inner => accept .rbrace >>= fun _ => pure inner) := by
    rw [body]
    exact Passes.peekTag_cons (Passes.advance_cons (Passes.refl _ _))
  have hclosed := (h.closed id).mono (Q := P) (by rintro _ ⟨r, hr, rfl⟩; exact hr)
  exact Breaks.of_passes hopen (fun _ => trivial) hclosed

theorem branches_breaks {ss : List Stmt} {n : Nat} {P : List Node → Prop}
    (h : Breaks (body n) (braces (allTokens ss)) P) (c : Node) :
    Breaks (branches n c) (braces (allTokens ss)) fun x => ∃ r, P r ∧ x = .cond c r (some []) := by
  refine h.recover.bind fun r d hr hd => ⟨_, ?_, r, hr, rfl⟩
  have hne : d.look.tag ≠ .elseWord := by
    rcases hd with h | h <;> rw [h] <;> simp
  change (if d.look.tag = .elseWord then _ else pure _ : Parser _) d = _
  rw [if_neg hne]
  rfl

theorem rounds_breaks {ss : List Stmt} {n : Nat} {P : List Node → Prop}
    (h : Breaks (body n) (braces (allTokens ss)) P) (c : Node) :
    Breaks (rounds n c) (braces (allTokens ss)) fun x => ∃ r, P r ∧ x = .loop c r :=
  h.recover.bind fun r _ hr _ => ⟨_, rfl, r, hr, rfl⟩

theorem blockParser_breaks (kind : BlockKind) {ss : List Stmt} {n : Nat} {P : List Node → Prop}
    (h : Breaks (stmts n []) (allTokens ss) P) :
    Breaks (kind.parser (n + 1)) (block kind ss).tokens fun x => ∃ r, P r ∧ x = kind.node r := by
  have hopen : Passes (kind.parser (n + 1)) [mark kind.tag, mark .lbrace] (fun _ => True)
      (stmts n [] >>= fun inner => accept .rbrace >>= fun _ => pure (kind.node inner)) := by
    cases kind with
    | seq =>
      rw [BlockKind.parser, seqBlock]
      exact Passes.accept_cons rfl (Passes.peekTag_cons (Passes.advance_cons (Passes.refl _ _)))
    | par =>
      rw [BlockKind.parser, parBlock]
      exact Passes.accept_cons rfl (Passes.peekTag_cons (Passes.advance_cons (Passes.refl _ _)))
  exact Breaks.of_passes hopen (fun _ => trivial) (h.closed kind.node)

/-! ### Statements that are not read as written -/

theorem append_cons_ne (done : List Node) {x y : Node} (h : x ≠ y) (ys : List Node) :
    done ++ [x] ≠ done ++ y :: ys := by
  intro heq
  exact h (List.cons.inj (List.append_cancel_left heq)).1

theorem leadTag_allTokens {ss : List Stmt} (h : ¬ AllFlat ss) (g : Tag) :
    EndsStmt (leadTag g (allTokens ss)) := by
  cases ss with
  | nil => exact absurd trivial h
  | cons s ss =>
    rw [allTokens, leadTag_append, leadTag_tokens]
    exact s.endsStmt_firstTag

mutual

/-- **A statement with a block inside a body is not read as it is written**: the parser stops in
front of the first such block, and what it gives is another tree. -/
theorem breaks : ∀ (s : Stmt), s.FunctionFree → ¬ s.Flat → ∀ {n : Nat}, 4 * s.tokens.length ≤ n →
    Breaks (Parser.stmt n) s.tokens (· ≠ s.node)
  | .assign .., _, h, _, _ | .declare .., _, h, _, _ | .declareInit .., _, h, _, _
  | .call .., _, h, _, _ | .output .., _, h, _, _ | .ret _, _, h, _, _
  | .retValue .., _, h, _, _ => absurd trivial h
  | .func .., hfree, _, _, _ => hfree.elim
  | .ifThen c body, hfree, h, n, hn => by
    simp only [tokens, List.length_cons, List.length_append, length_parens, length_braces] at hn ⊢
    obtain ⟨n, rfl⟩ : ∃ j, n = j + 3 := ⟨n - 3, by omega⟩
    have hbody := branches_breaks (body_breaks (breaks_all body hfree h (n := n) (by omega) []))
      c.node
    refine (Breaks.of_passes (stmt_passes_if c (by omega) fun _ => True) (fun _ => trivial)
      hbody).mono ?_
    rintro x ⟨r, hr, rfl⟩ heq
    rw [node, Node.cond.injEq] at heq
    exact hr heq.2.1
  | .ifElse c body orElse, hfree, h, n, hn => by
    simp only [tokens, List.length_cons, List.length_append, length_parens, length_braces] at hn ⊢
    obtain ⟨n, rfl⟩ : ∃ j, n = j + 3 := ⟨n - 3, by omega⟩
    refine Breaks.of_passes (stmt_passes_if c (by omega) fun _ => True) (fun _ => trivial) ?_
    by_cases hflat : AllFlat body
    · -- the first branch is read, and the second one stops
      have hthen : Passes (branches (n + 1) c.node) (braces (allTokens body) ++ [mark .elseWord])
          (fun _ => True) (Parser.recover (Parser.body (n + 1)) (do
            skipTo bodyStops
            return []) >>= fun e => pure (.cond c.node (nodes body) (some e))) := by
        refine (Reads.recover (body_reads (legible_of_allFlat body hflat) (by omega)
          fun _ => True)).bind ?_ fun _ _ => trivial
        exact Passes.peekTag_cons (Passes.advance_cons (Passes.refl _ _))
      have helse := body_breaks (breaks_all orElse hfree.2 (fun h' => h ⟨hflat, h'⟩) (n := n)
        (by omega) [])
      rw [← List.singleton_append, ← List.append_assoc]
      refine Breaks.of_passes hthen (fun _ => trivial) (helse.recover.bind ?_)
      intro e d he _
      refine ⟨_, rfl, fun heq => ?_⟩
      rw [node, Node.cond.injEq, Option.some.injEq] at heq
      exact he heq.2.2
    · have hbody := branches_breaks (body_breaks (breaks_all body hfree.1 hflat (n := n)
        (by omega) [])) c.node
      refine (hbody.append _).mono ?_
      rintro x ⟨r, hr, rfl⟩ heq
      rw [node, Node.cond.injEq] at heq
      exact hr heq.2.1
  | .loop c body, hfree, h, n, hn => by
    simp only [tokens, List.length_cons, List.length_append, length_parens, length_braces] at hn ⊢
    obtain ⟨n, rfl⟩ : ∃ j, n = j + 3 := ⟨n - 3, by omega⟩
    have hbody := rounds_breaks (body_breaks (breaks_all body hfree h (n := n) (by omega) []))
      c.node
    refine (Breaks.of_passes (stmt_passes_while c (by omega) fun _ => True) (fun _ => trivial)
      hbody).mono ?_
    rintro x ⟨r, hr, rfl⟩ heq
    rw [node, Node.loop.injEq] at heq
    exact hr heq.2
  | .block kind body, hfree, h, n, hn => by
    have hlen : (block kind body).tokens.length = (allTokens body).length + 3 := by simp [tokens]
    obtain ⟨n, rfl⟩ : ∃ j, n = j + 2 := ⟨n - 2, by omega⟩
    have hbody := blockParser_breaks kind (breaks_all body hfree h (n := n) (by omega) [])
    refine (Breaks.of_passes (stmt_passes_block kind (n + 1)) (fun g => ?_) hbody).mono ?_
    · rw [leadTag_tokens, firstTag]
    · rintro x ⟨r, hr, rfl⟩ heq
      rw [node] at heq
      exact hr (BlockKind.node_inj heq)

theorem breaks_all : ∀ (ss : List Stmt), AllFunctionFree ss → ¬ AllFlat ss → ∀ {n : Nat},
    4 * (allTokens ss).length + 1 ≤ n → ∀ done : List Node,
      Breaks (stmts n done) (allTokens ss) (· ≠ done ++ nodes ss)
  | [], _, h, _, _, _ => absurd trivial h
  | s :: ss, hfree, h, n, hn, done => by
    simp only [allTokens, nodes, List.length_append] at hn ⊢
    obtain ⟨n, rfl⟩ : ∃ j, n = j + 1 := ⟨n - 1, by omega⟩
    cases hblock : s.isBlock with
    | true =>
      -- the loop stops at once
      cases s with
      | block kind body =>
        refine ((stmts_breaks_block kind body n done).append _).mono ?_
        rintro r rfl heq
        simp at heq
      | _ => cases hblock
    | false =>
      by_cases hflat : s.Flat
      · -- the statement is read, and the loop stops in a later one
        have hss : ¬ AllFlat ss := fun h' => h ⟨hblock, hflat, h'⟩
        obtain ⟨k, hk, hpass⟩ := stmts_loop.passes (s.legible hflat)
          (startsInBlock_firstTag hblock) (n := n + 1) (by omega) done
        have hrest := breaks_all ss hfree.2 hss (n := k) (by omega) (done ++ [s.node])
        rw [List.append_assoc, List.singleton_append] at hrest
        exact Breaks.of_passes hpass (leadTag_allTokens hss) hrest
      · -- the statement itself stops
        have hpos : 0 < s.tokens.length := by cases s <;> simp [tokens]
        obtain ⟨n, rfl⟩ : ∃ j, n = j + 1 := ⟨n - 1, by omega⟩
        have hstmt := s.breaks hfree.1 hflat (n := n + 1) (by omega)
        refine ((stmts_breaks hstmt (fun g => ?_) done).append _).mono ?_
        · rw [leadTag_tokens]
          exact startsInBlock_firstTag hblock
        · rintro r ⟨x, hx, rfl⟩
          exact append_cons_ne done hx _

end

end Stmt

/-! ### Programs -/

/-- A program with a block inside a body is not read as it is written. -/
theorem topLevelAfter_ne {items : List Item} (hfree : ∀ i ∈ items, i.toStmt.FunctionFree)
    (hflat : ¬ ∀ i ∈ items, i.toStmt.Flat) {n : Nat}
    (hn : 4 * (programTokens items).length + 1 ≤ n) (done : List Node) {us : List Located}
    (hus : us.map Located.token = programTokens items) (line : Int) (c : Cursor) :
    topLevelAfter n done ⟨us, line⟩ ≠ .ok (done ++ items.map Item.node) c := by
  induction items generalizing n done us line with
  | nil => exact absurd (fun i hi => by cases hi) hflat
  | cons i items ih =>
    obtain ⟨hi, hitems⟩ := List.forall_mem_cons.mp hfree
    have htokens : programTokens (i :: items) = i.tokens ++ programTokens items := rfl
    rw [htokens, List.length_append] at hn
    rw [htokens] at hus
    obtain ⟨us, ws, rfl, hus, hws⟩ := List.map_eq_append_iff.mp hus
    by_cases hiflat : i.toStmt.Flat
    · -- the part is read, and a later one is not
      have hlater : ¬ ∀ i ∈ items, i.toStmt.Flat := fun h =>
        hflat (List.forall_mem_cons.mpr ⟨hiflat, h⟩)
      obtain ⟨k, hk, hpass⟩ := i.passes hiflat (n := n) (by omega) done
      have hfront : EndsStmt (frontTag ws) := by
        rw [frontTag_eq, hws]
        exact Item.endsStmt_leadTag items (by simp [EndsStmt])
      have := ih hitems hlater (n := k) (by omega) (done ++ [i.node]) hws (lastLine line us)
      rwa [List.append_assoc, List.singleton_append, ← hpass us ws line hus hfront] at this
    · cases i with
      | func name ps body => exact hi.elim
      | assign name value extra => exact absurd trivial hiflat
      | output shown extra => exact absurd trivial hiflat
      | block kind body =>
        have hlen : (Item.block kind body).tokens.length = (Stmt.allTokens body).length + 3 := by
          simp [Item.tokens, Item.toStmt, Stmt.tokens]
        obtain ⟨n, rfl⟩ : ∃ j, n = j + 2 := ⟨n - 2, by omega⟩
        have hbody := Stmt.blockParser_breaks kind
          (Stmt.breaks_all body hi hiflat (n := n) (by omega) [])
        obtain ⟨x, d, hx, ⟨r, hr, rfl⟩, -⟩ := hbody us ws line hus
        have hfront : frontTag (us ++ ws) = kind.tag := by
          rw [frontTag_append, hus]
          rfl
        have hstep := Item.topLevelAfter_passes_block kind (n + 1) done [] (us ++ ws) line rfl
          hfront
        intro heq
        rw [List.nil_append] at hstep
        rw [hstep] at heq
        obtain ⟨x, e, hx', heq⟩ := bind_ok_iff.mp heq
        rw [lastLine_nil, hx] at hx'
        cases hx'
        -- the first tree after `done` is that of the shortened block
        have hloop : StatementLoop.topLevel.parser (n + 1) (done ++ [kind.node r]) d = _ := heq
        obtain ⟨tail, htail⟩ := StatementLoop.parser_extends hloop
        rw [List.append_assoc, List.singleton_append] at htail
        have hhead := (List.cons.inj (List.append_cancel_left htail)).1
        rw [Item.node, Item.toStmt, Stmt.node] at hhead
        exact hr (BlockKind.node_inj hhead)

theorem programTokens_ne_nil {items : List Item} (h : items ≠ []) : programTokens items ≠ [] := by
  cases items with
  | nil => exact absurd rfl h
  | cons i items =>
    intro hnil
    have := (List.append_eq_nil_iff.mp hnil).1
    cases i <;> cases this

/-- **The tokens of a written program form that program exactly when no block stands inside a
body.** -/
theorem program_of_tokens_iff {items : List Item} (hne : items ≠ [])
    (hfree : ∀ i ∈ items, i.toStmt.FunctionFree) {ts : List Located}
    (hts : ts.map Located.token = programTokens items) :
    resultOn program ts = .ok (programNode items) ↔ ∀ i ∈ items, i.toStmt.Flat := by
  have hlen : (programTokens items).length = ts.length := by rw [← hts, List.length_map]
  have hfuel : 4 * (programTokens items).length + 1 ≤ fuelFor ts.length := by
    rw [hlen, fuelFor]
    omega
  cases ts with
  | nil => exact absurd (programTokens_ne_nil hne) (by simp [← hts])
  | cons t ts =>
    rw [resultOn_eq_ok_iff]
    constructor
    · rintro ⟨c, hc⟩
      obtain ⟨r, d, hr, hd⟩ := bind_ok_iff.mp hc
      cases hd
      refine Classical.byContradiction fun hflat => ?_
      exact topLevelAfter_ne hfree hflat hfuel [] hts t.line _ hr
    · intro hflat
      exact ⟨_, program_reads hflat hts _⟩

/-- A sequential block inside a parallel one, with an assignment after it. -/
def nestedItems : List Item :=
  [.block .par [.block .seq [.assign "x" (.literal .number "1") 0],
    .assign "y" (.literal .number "2") 0]]

/-- The inner block and the assignment after it end up at the top level, so that the tree is not
the one that was written. -/
theorem nestedItems_misread :
    resultOn program ((programTokens nestedItems).map (Located.mk · 1))
        = .ok (.program [.par [],
          .seq [.assign (reference "x") (.constant (some "NUMBER") ⟨.number, "1"⟩)],
          .assign (reference "y") (.constant (some "NUMBER") ⟨.number, "2"⟩)]) ∧
      resultOn program ((programTokens nestedItems).map (Located.mk · 1))
        ≠ .ok (programNode nestedItems) := by
  have hread : resultOn program ((programTokens nestedItems).map (Located.mk · 1))
      = .ok (.program [.par [],
          .seq [.assign (reference "x") (.constant (some "NUMBER") ⟨.number, "1"⟩)],
          .assign (reference "y") (.constant (some "NUMBER") ⟨.number, "2"⟩)]) := rfl
  refine ⟨hread, fun h => ?_⟩
  have hnodes := Node.program.inj (Except.ok.inj (hread.symm.trans h))
  exact absurd (congrArg List.length hnodes) (by decide)

/-- The written blocks are not flat, and so they are not read as they are written. -/
theorem program_of_tokens_iff_nested :
    (nestedItems ≠ [] ∧ (∀ i ∈ nestedItems, i.toStmt.FunctionFree) ∧
      ¬ ∀ i ∈ nestedItems, i.toStmt.Flat) ∧
    resultOn program ((programTokens nestedItems).map (Located.mk · 1))
      ≠ .ok (programNode nestedItems) := by
  have hne : nestedItems ≠ [] := by simp [nestedItems]
  have hfree : ∀ i ∈ nestedItems, i.toStmt.FunctionFree := by
    simp [nestedItems, Item.toStmt, Stmt.FunctionFree, Stmt.AllFunctionFree]
  have hflat : ¬ ∀ i ∈ nestedItems, i.toStmt.Flat := by
    simp [nestedItems, Item.toStmt, Stmt.Flat, Stmt.AllFlat, Stmt.isBlock]
  refine ⟨⟨hne, hfree, hflat⟩, fun h => hflat ?_⟩
  refine (program_of_tokens_iff hne hfree ?_).mp h
  rw [List.map_map]
  exact List.map_id _

end SeqPar.Written
