import SeqPar.Check
import SeqPar.Proofs.ReadTrees
import SeqPar.Proofs.Relexing

/-!
# What the check accepts

The check gives types to nodes while it walks through a tree, and stops at the first fault.  What it
accepts can be said without types.  An expression is **boolean-shaped** when it is a comparison, a
conjunction or disjunction, a negation of a truth value, or a minus sign in front of such an
expression.  A conditional or loop breaks the rules when its condition is not boolean-shaped, an
assignment when its right side is.  A program that was read from a source text is rejected exactly
when a statement that breaks the rules stands somewhere in it: at the top level, in a block, in a
branch, in a loop or in a function, however deep.

Both directions rest on the trees that reading gives.  The check of an expression that was read always
succeeds, since no list of trees stands in it, and its signs are spelled `!` or `-`, since they are
tokens of the source.

## Main definitions

* `Node.isBooleanShaped`, `Node.shapeType` — the shape of an expression, and its type by that shape.
* `Node.innerStmts`, `Node.StandsIn` — the statements inside a statement.
* `Node.breaksTypes` — a statement that breaks the rules on types itself.
* `Verdict` — a check that decides whether something is faulty.

## Main results

* `Node.IsCondition.check_eq` — a condition that was read has the type of its shape.
* `Node.IsStmt.verdict` — the check decides whether a statement that was read is faulty, by induction
  on the statement.
* `check_error_iff` — **the check rejects a program exactly when a statement in it breaks the rules.**
-/

namespace SeqPar

open Lexeme Written

/-! ### The signs of a source -/

/-- The signs of expressions are spelled by their marks. -/
def Token.SpellsSign (t : Token) : Prop :=
  (t.tag = .not → t.text = "!") ∧ (t.tag = .minus → t.text = "-")

theorem spellsSign_of_mem {s : String} {tag : Tag}
    (h : (s, tag) ∈ closedWords ++ (openWords ++ operators)) : Token.SpellsSign ⟨tag, s⟩ := by
  have hall : ∀ p ∈ closedWords ++ (openWords ++ operators),
      (p.2 = Tag.not → p.1 = "!") ∧ (p.2 = Tag.minus → p.1 = "-") := by
    decide
  exact hall _ h

/-- **The signs that scanning gives are spelled by their marks**: the other rules of the scanner give
other tags. -/
theorem Token.Lexed.spellsSign {t : Token} (ht : t.Lexed) : t.SpellsSign := by
  obtain ⟨before, cs, length, hfound, htext⟩ := ht
  have hrecognised := recognised_of_lexeme? hfound
  have hfixed : ∀ {s : String} {rest : List Char}, cs = s.toList ++ rest → length = s.length →
      (s, t.tag) ∈ closedWords ++ (openWords ++ operators) → t.SpellsSign := by
    intro s rest hcs hlength hs
    have hsame : t.text = s := by
      apply String.toList_inj.mp
      rw [htext, hcs, hlength, ← String.length_toList, List.take_left]
    have hspelled := spellsSign_of_mem hs
    rwa [← hsame] at hspelled
  have hother : t.tag ≠ .not → t.tag ≠ .minus → t.SpellsSign :=
    fun hnot hminus => ⟨fun h => absurd h hnot, fun h => absurd h hminus⟩
  -- Words and operators are looked up in their lists; the other rules have tags of their own.
  generalize hkind : Kind.token t.tag = kind at hrecognised
  cases hrecognised with
  | closedWord hs hcs _ _ =>
    obtain rfl := Kind.token.inj hkind
    exact hfixed hcs rfl (List.mem_append_left _ hs)
  | openWord hs hcs =>
    obtain rfl := Kind.token.inj hkind
    exact hfixed hcs rfl (List.mem_append_right _ (List.mem_append_left _ hs))
  | operator hs hcs =>
    obtain rfl := Kind.token.inj hkind
    exact hfixed hcs rfl (List.mem_append_right _ (List.mem_append_right _ hs))
  | ident _ _ _ =>
    have htag : t.tag = .ident := Kind.token.inj hkind
    exact hother (by simp [htag]) (by simp [htag])
  | number _ _ _ _ =>
    have htag : t.tag = .number := Kind.token.inj hkind
    exact hother (by simp [htag]) (by simp [htag])
  | string _ _ =>
    have htag : t.tag = .string := Kind.token.inj hkind
    exact hother (by simp [htag]) (by simp [htag])
  | blank _ _ => cases hkind
  | lineComment _ => cases hkind
  | blockComment _ => cases hkind

/-! ### Shapes of expressions -/

namespace Node

/-- A comparison, a conjunction or disjunction, a negation of a truth value, or a minus sign in front
of such an expression. -/
def isBooleanShaped : Node → Bool
  | .relational .. | .logical .. => true
  | .unary _ t expr => t.text == "!" || (t.text == "-" && expr.isBooleanShaped)
  | _ => false

/-- The type of an expression by its shape. -/
def shapeType (n : Node) : NodeType :=
  if n.isBooleanShaped then .bool else .untyped

@[simp] theorem shapeType_eq_bool_iff (n : Node) : n.shapeType = .bool ↔ n.isBooleanShaped := by
  cases h : n.isBooleanShaped <;> simp [shapeType, h]

@[simp] theorem shapeType_eq_untyped_iff (n : Node) :
    n.shapeType = .untyped ↔ n.isBooleanShaped = false := by
  cases h : n.isBooleanShaped <;> simp [shapeType, h]

theorem checkAll_eq_ok {ns : List Node} (h : ∀ n ∈ ns, ∃ type, n.check = .ok type) :
    checkAll ns = .ok () := by
  induction ns with
  | nil => rfl
  | cons n ns ih =>
    obtain ⟨⟨type, hn⟩, hns⟩ := List.forall_mem_cons.mp h
    rw [checkAll, hn]
    exact ih hns

theorem IsExpr.checkListed_eq {P : Token → Prop} {n : Node} (h : IsExpr P n) :
    n.checkListed = .ok () := by
  cases h <;> rfl

/-- **An expression that was read has the type of its shape.** -/
theorem IsExpr.check_eq {n : Node} (h : IsExpr Token.SpellsSign n) :
    n.check = .ok n.shapeType := by
  induction h with
  | constant type ht => rfl
  | ident type ht => rfl
  | arithmetic _ hleft hright ihleft ihright =>
    rw [check, ihleft, hleft.checkListed_eq, ihright, hright.checkListed_eq]
    rfl
  | @unary type t operand hsign htag _ ih =>
    rw [check, ih, shapeType, shapeType, isBooleanShaped]
    rcases htag with hnot | hminus
    · rw [hsign.1 hnot]
      rfl
    · rw [hsign.2 hminus]
      rfl
  | call _ _ ih =>
    rw [check, checkAll_eq_ok fun a ha => ⟨_, ih a ha⟩]
    rfl

/-- **A condition that was read has the type of its shape.** -/
theorem IsCondition.check_eq {n : Node} (h : IsCondition Token.SpellsSign n) :
    n.check = .ok n.shapeType := by
  cases h with
  | expr h => exact h.check_eq
  | relational hsign hleft hright => rfl
  | logical hsign hleft hright => rfl

theorem IsDatum.check_eq {n : Node} (h : IsDatum n) : n.check = .ok n.shapeType := by
  cases h <;> rfl

theorem IsDatum.checkListed_eq {n : Node} (h : IsDatum n) : n.checkListed = .ok () := by
  cases h <;> rfl

theorem IsExprOrDatum.check_eq {n : Node} (h : IsExprOrDatum Token.SpellsSign n) :
    n.check = .ok n.shapeType :=
  h.elim IsExpr.check_eq IsDatum.check_eq

theorem IsExprOrDatum.checkListed_eq {P : Token → Prop} {n : Node} (h : IsExprOrDatum P n) :
    n.checkListed = .ok () :=
  h.elim IsExpr.checkListed_eq IsDatum.checkListed_eq

/-! ### Statements that break the rules -/

/-- The statements right inside a statement: those of a program, of a block, of the branches of a
conditional, of a loop and of a function. -/
def innerStmts : Node → List Node
  | .program stmts => stmts
  | .seq body | .par body => body
  | .cond _ body orElse => body ++ orElse.getD []
  | .loop _ body => body
  | .funcDef _ _ _ body => body
  | _ => []

/-- A statement is another one or stands inside it, at any depth. -/
inductive StandsIn (a : Node) : Node → Prop
  /-- A statement stands in itself. -/
  | refl : StandsIn a a
  /-- What stands in a statement inside stands in the whole. -/
  | inside {n c : Node} (hc : c ∈ n.innerStmts) (h : StandsIn a c) : StandsIn a n

/-- A statement breaks the rules on types itself, whatever stands inside it: a conditional or loop
whose condition is not boolean-shaped, or an assignment whose right side is. -/
def breaksTypes : Node → Bool
  | .cond condition .. | .loop condition _ => !condition.isBooleanShaped
  | .assign _ right => right.isBooleanShaped
  | _ => false

/-- Somewhere in a statement the rules on types are broken. -/
def Faulty (n : Node) : Prop :=
  ∃ a : Node, a.StandsIn n ∧ a.breaksTypes = true

theorem faulty_iff (n : Node) :
    n.Faulty ↔ n.breaksTypes = true ∨ ∃ c ∈ n.innerStmts, c.Faulty := by
  constructor
  · rintro ⟨a, ha, hbreaks⟩
    cases ha with
    | refl => exact .inl hbreaks
    | inside hc h => exact .inr ⟨_, hc, a, h, hbreaks⟩
  · rintro (hbreaks | ⟨c, hc, a, ha, hbreaks⟩)
    · exact ⟨n, .refl, hbreaks⟩
    · exact ⟨a, .inside hc ha, hbreaks⟩

end Node

/-! ### Verdicts -/

/-- The result of a check that decides whether something is faulty: the answer `a` when it is not, and
a fault of the rules on types when it is. -/
inductive Verdict {α : Type} (faulty : Prop) (a : α) : Except Fault α → Prop
  /-- Nothing is faulty. -/
  | accepts (h : ¬ faulty) : Verdict faulty a (.ok a)
  /-- Something is faulty. -/
  | rejects {fault : Fault} (h : faulty) (hkind : fault.kind = .semantic) :
    Verdict faulty a (.error fault)

namespace Verdict

variable {α β : Type} {p q : Prop} {a : α} {b : β} {r : Except Fault α}

theorem congr (h : Verdict p a r) (hpq : p ↔ q) : Verdict q a r :=
  propext hpq ▸ h

/-- A check in two steps decides whether one of them finds something. -/
theorem bind {k : α → Except Fault β} (h : Verdict p a r) (hk : Verdict q b (k a)) :
    Verdict (p ∨ q) b (r >>= k) := by
  cases h with
  | accepts hp => exact hk.congr (or_iff_right hp).symm
  | rejects hp hkind => exact .rejects (.inl hp) hkind

/-- The answer of a check may be replaced. -/
theorem answer (h : Verdict p a r) (b : β) : Verdict p b (r >>= fun _ => .ok b) :=
  (h.bind (k := fun _ => .ok b) (.accepts not_false)).congr (iff_of_eq (or_false p))

end Verdict

namespace Node

/-- A pass over statements decides whether one of them is faulty, by induction on them. -/
theorem checkAll_verdict {ns : List Node} (h : ∀ n ∈ ns, Verdict n.Faulty .untyped n.check) :
    Verdict (∃ n ∈ ns, n.Faulty) () (checkAll ns) := by
  induction ns with
  | nil => exact .accepts nofun
  | cons n ns ih =>
    obtain ⟨hn, hns⟩ := List.forall_mem_cons.mp h
    rw [checkAll]
    exact (hn.bind (ih hns)).congr (by simp)

/-- A statement that consists of statements only. -/
theorem verdict_of_checkAll {n : Node} (hbreaks : n.breaksTypes = false)
    (hinner : ∀ c ∈ n.innerStmts, Verdict c.Faulty .untyped c.check)
    (hcheck : n.check = checkAll n.innerStmts >>= fun _ => .ok .untyped) :
    Verdict n.Faulty .untyped n.check := by
  rw [hcheck]
  refine ((checkAll_verdict hinner).answer _).congr ?_
  rw [faulty_iff, hbreaks]
  simp

/-- A statement that neither breaks the rules nor has statements inside is accepted. -/
theorem verdict_of_ok {n : Node} (hbreaks : n.breaksTypes = false) (hinner : n.innerStmts = [])
    (hcheck : n.check = .ok .untyped) : Verdict n.Faulty .untyped n.check := by
  rw [hcheck]
  apply Verdict.accepts
  rw [faulty_iff, hbreaks, hinner]
  simp

/-- A statement with a condition: the condition decides first, and then the statements inside. -/
theorem verdict_of_condition {n condition : Node} (fault : Fault)
    (hcondition : IsCondition Token.SpellsSign condition)
    (hbreaks : n.breaksTypes = !condition.isBooleanShaped)
    (hinner : ∀ c ∈ n.innerStmts, Verdict c.Faulty .untyped c.check)
    (hkind : fault.kind = .semantic)
    (hcheck : n.check = condition.check >>= fun type =>
      if type = .bool then checkAll n.innerStmts >>= fun _ => .ok .untyped else .error fault) :
    Verdict n.Faulty .untyped n.check := by
  rw [hcheck, hcondition.check_eq]
  show Verdict _ _ (if condition.shapeType = .bool then _ else _)
  by_cases hshape : condition.isBooleanShaped = true
  · rw [if_pos ((shapeType_eq_bool_iff _).mpr hshape)]
    refine ((checkAll_verdict hinner).answer _).congr ?_
    rw [faulty_iff, hbreaks, hshape]
    simp
  · rw [if_neg (mt (shapeType_eq_bool_iff _).mp hshape)]
    refine .rejects ((faulty_iff n).mpr (.inl ?_)) hkind
    rw [hbreaks]
    simpa using hshape

/-- The passes over two lists of statements, one after the other. -/
theorem checkAll_append (ns ms : List Node) :
    checkAll (ns ++ ms) = checkAll ns >>= fun _ => checkAll ms := by
  induction ns with
  | nil => rfl
  | cons n ns ih =>
    rw [List.cons_append, checkAll, checkAll, ih, bind_assoc]

/-- **The check decides whether a statement that was read is faulty**, by induction on the
statement. -/
theorem IsStmt.verdict {n : Node} (h : IsStmt Token.SpellsSign n) :
    Verdict n.Faulty .untyped n.check := by
  induction h with
  | constant type ht => exact verdict_of_ok rfl rfl rfl
  | ident type decl ht => exact verdict_of_ok rfl rfl rfl
  | call _ _ hargs =>
    refine verdict_of_ok rfl rfl ?_
    rw [check, checkAll_eq_ok fun a ha => ⟨_, (hargs a ha).check_eq⟩]
    rfl
  | @assign type t decl right _ hright =>
    -- the left side is a variable, which has no type
    have hcheck : (Node.assign (.ident type t decl) right).check =
        if .untyped = right.shapeType then .ok .untyped else .error .assignmentTypes := by
      rw [check, hright.check_eq]
      rfl
    rw [hcheck]
    split
    · next hsame =>
      refine .accepts ?_
      rw [faulty_iff, breaksTypes, (shapeType_eq_untyped_iff right).mp hsame.symm]
      simp [innerStmts]
    · next hdiffer =>
      refine .rejects ((faulty_iff _).mpr (.inl ?_)) rfl
      cases hshape : right.isBooleanShaped with
      | false => exact absurd ((shapeType_eq_untyped_iff right).mpr hshape).symm hdiffer
      | true => exact hshape
  | @cond condition body orElse hcondition hbody horElse ihbody ihorElse =>
    refine verdict_of_condition .conditionalType hcondition rfl ?_ rfl ?_
    · exact List.forall_mem_append.mpr ⟨ihbody, ihorElse⟩
    · rw [innerStmts, Option.getD_some, checkAll_append, check]
      simp only [bind_assoc]
      rfl
  | @loop condition body hcondition hbody ihbody =>
    refine verdict_of_condition .loopType hcondition rfl ihbody rfl ?_
    rw [check]
    rfl
  | @funcDef name ret params body hparams hbody ihbody =>
    refine verdict_of_checkAll rfl ihbody ?_
    have hchecked : checkAll params = .ok () := by
      refine checkAll_eq_ok fun p hp => ?_
      obtain ⟨type, t, rfl⟩ := hparams p hp
      exact ⟨_, rfl⟩
    rw [check, hchecked]
    rfl
  | seq hbody ihbody =>
    refine verdict_of_checkAll rfl ihbody ?_
    rw [check]
    rfl
  | par hbody ihbody =>
    refine verdict_of_checkAll rfl ihbody ?_
    rw [check]
    rfl
  | clientChannel hhost hport =>
    refine verdict_of_ok rfl rfl ?_
    rw [check, hhost.check_eq, hhost.checkListed_eq, hport.check_eq, hport.checkListed_eq]
    rfl
  | ret hexpr =>
    refine verdict_of_ok rfl rfl ?_
    rw [check, hexpr.check_eq, hexpr.checkListed_eq]
    rfl

/-- The check decides whether a program that was read from a source text is faulty. -/
theorem verdict_of_source {source : String} {node : Node}
    (h : Parser.resultOn Parser.program (tokens source) = .ok node) :
    Verdict node.Faulty .untyped node.check := by
  have hend : Token.endOfInput.SpellsSign := ⟨nofun, nofun⟩
  obtain ⟨stmts, rfl, hstmts⟩ :=
    Parser.isStmt_of_program hend (fun t ht => (lexed_of_mem_tokens ht).spellsSign) h
  refine verdict_of_checkAll rfl (fun s hs => (hstmts s hs).verdict) ?_
  rw [check]
  rfl

end Node

/-- **The check rejects a program exactly when a statement in it breaks the rules on types.**  On a
program that was read from a source text it either accepts or gives a fault of the rules on types, and
it gives one just when somewhere in the program, at any depth, stands a conditional or loop whose
condition is not boolean-shaped, or an assignment whose right side is. -/
theorem check_error_iff {source : String} {node : Node}
    (h : Parser.resultOn Parser.program (tokens source) = .ok node) :
    (node.check = .ok .untyped ∨ ∃ fault, node.check = .error fault ∧ fault.kind = .semantic) ∧
      ((∃ fault, node.check = .error fault) ↔
        ∃ n : Node, n.StandsIn node ∧ n.breaksTypes = true) := by
  generalize hcheck : node.check = result
  cases hcheck ▸ Node.verdict_of_source h with
  | accepts hsound =>
    refine ⟨.inl rfl, iff_of_false ?_ hsound⟩
    rintro ⟨fault, herror⟩
    cases herror
  | rejects hfaulty hkind => exact ⟨.inr ⟨_, rfl, hkind⟩, iff_of_true ⟨_, rfl⟩ hfaulty⟩

/-- A loop with a mere variable as its condition. -/
def strayLoop : Node :=
  .loop (Parser.reference "x") [.assign (Parser.reference "y") (.constant (some "NUMBER") ⟨.number, "3"⟩)]

/-- A block with a conditional, whose second branch holds that loop. -/
def strayLoopProgram : Node :=
  .program [.seq [.cond
    (.relational (some "BOOL") ⟨.gt, ">"⟩ (Parser.reference "x") (.constant (some "NUMBER") ⟨.number, "1"⟩))
    [.assign (Parser.reference "y") (.constant (some "NUMBER") ⟨.number, "2"⟩)] (some [strayLoop])]]

/-- The source text of that block. -/
def strayLoopSource : String :=
  "SEQ \x7b if (x > 1) \x7b y = 2; \x7d else \x7b while (x) \x7b y = 3; \x7d \x7d \x7d"

theorem tokens_strayLoopSource :
    tokens strayLoopSource = [mark .seq, mark .lbrace, mark .ifWord, mark .lparen, named "x",
      mark .gt, ⟨.number, "1"⟩, mark .rparen, mark .lbrace, named "y", mark .assign, ⟨.number, "2"⟩,
      mark .semicolon, mark .rbrace, mark .elseWord, mark .lbrace, mark .whileWord, mark .lparen,
      named "x", mark .rparen, mark .lbrace, named "y", mark .assign, ⟨.number, "3"⟩,
      mark .semicolon, mark .rbrace, mark .rbrace, mark .rbrace].map (Located.mk · 1) := by
  decide +kernel

/-- A loop without a test, three levels deep, is the reason to reject a program. -/
theorem strayLoopProgram_rejected :
    Parser.resultOn Parser.program (tokens strayLoopSource) = .ok strayLoopProgram ∧
      ∃ fault, strayLoopProgram.check = .error fault := by
  have hread : Parser.resultOn Parser.program (tokens strayLoopSource) = .ok strayLoopProgram := by
    rw [tokens_strayLoopSource]
    rfl
  refine ⟨hread, (check_error_iff hread).2.mpr ⟨strayLoop, ?_, rfl⟩⟩
  apply Node.StandsIn.inside List.mem_cons_self
  apply Node.StandsIn.inside List.mem_cons_self
  apply Node.StandsIn.inside (List.mem_append_right _ List.mem_cons_self)
  exact .refl

end SeqPar
