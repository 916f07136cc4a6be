import SeqPar.Proofs.Literals
import SeqPar.Proofs.NumericReadings

/-!
# Signs in front of numbers

A number is written as digits, and its value is the text of the digits; only an assignment makes a
number of it.  A minus sign in front of it is applied to the text.  A text times minus one is the
empty text, which spells no number, so an assignment stores it as it stands: one minus sign loses
the number, and no further sign brings it back.

## Main definitions

* `IsNumeral`, `numeral` — texts of digits and the numbers they denote.
* `SignedLiteral` — an expression made of a number by parentheses and minus signs.
* `alternating` — a number negated a number of times.
* `assigning` — the program that assigns an expression to a variable.

## Main results

* `IsNumeral.stored` — a text of digits is stored as the number that it denotes.
* `SignedLiteral.exec_node` — the value of a number behind signs.
* `SignedLiteral.exists_source` — the program can be written down.
* `assigning_signedLiteral` — **a number behind `k` minus signs is assigned as the number negated
  `k` times if and only if there are no signs; otherwise the variable is bound to the empty text.**
-/

namespace SeqPar

open Exec Text Number Written
open SeqPar.Parser (reference)

attribute [local instance] decidableForallMem

/-! ### Texts of digits -/

/-- A text of digits, of any script. -/
def IsNumeral (d : String) : Prop :=
  d.toList ≠ [] ∧ ∀ c ∈ d.toList, isDigit c = true

/-- The number that a text of digits denotes. -/
def numeral (d : String) : Nat :=
  ofDigits (d.toList.filterMap digitValue?)

theorem takeDigitsAfter_of_isDigit {cs : List Char} (h : ∀ c ∈ cs, isDigit c = true) :
    takeDigitsAfter cs = (cs.filterMap digitValue?, []) := by
  induction cs with
  | nil => rfl
  | cons c cs ih =>
    obtain ⟨hc, hcs⟩ := List.forall_mem_cons.mp h
    obtain ⟨d, hd⟩ := Option.isSome_iff_exists.mp hc
    have hunderscore : c ≠ '_' := by
      rintro rfl
      exact absurd hc (by decide)
    rw [takeDigitsAfter, hd, ih hcs, List.filterMap_cons, hd]
    intro c' cs' heq
    exact absurd heq hunderscore

theorem takeDigits_of_isDigit {cs : List Char} (h : ∀ c ∈ cs, isDigit c = true) :
    takeDigits cs = (cs.filterMap digitValue?, []) := by
  cases cs with
  | nil => rfl
  | cons c cs =>
    obtain ⟨hc, hcs⟩ := List.forall_mem_cons.mp h
    obtain ⟨d, hd⟩ := Option.isSome_iff_exists.mp hc
    rw [takeDigits, hd, takeDigitsAfter_of_isDigit hcs, List.filterMap_cons, hd]

/-- Nothing is trimmed from characters that are no blanks. -/
theorem trimNumber_of_not_blank {cs : List Char} (h : ∀ c ∈ cs, isBlank c = false) :
    trimNumber cs = cs := by
  have hdrop {ds : List Char} (hds : ∀ c ∈ ds, isBlank c = false) :
      ds.dropWhile isNumberBlank = ds := by
    cases ds with
    | nil => rfl
    | cons c ds =>
      have hc := (List.forall_mem_cons.mp hds).1
      exact List.dropWhile_cons_of_neg (by simp [isNumberBlank, hc])
  have hreverse : ∀ c ∈ cs.reverse, isBlank c = false := fun c hc => h c (List.mem_reverse.mp hc)
  rw [trimNumber, hdrop h, hdrop hreverse, List.reverse_reverse]

/-- What starts with a digit has no sign. -/
theorem takeSign_of_isDigit {c : Char} (h : isDigit c = true) (cs : List Char) :
    takeSign (c :: cs) = (false, c :: cs) := by
  rw [takeSign]
  · intro ds heq
    rw [(List.cons.inj heq).1] at h
    exact absurd h (by decide)
  · intro ds heq
    rw [(List.cons.inj heq).1] at h
    exact absurd h (by decide)

namespace IsNumeral

variable {d : String}

theorem spellsDigits (h : IsNumeral d) :
    SpellsDigits d false (d.toList.filterMap digitValue?) := by
  obtain ⟨hne, hdigits⟩ := h
  refine ⟨d.toList, ?_, takeDigits_of_isDigit hdigits, ?_⟩
  · rw [trimNumber_of_not_blank fun c hc => (Lexeme.not_special_of_isDigit (hdigits c hc)).1]
    obtain ⟨c, cs, hcs⟩ := List.exists_cons_of_ne_nil hne
    rw [hcs] at hdigits ⊢
    exact takeSign_of_isDigit (hdigits c List.mem_cons_self) cs
  · obtain ⟨c, cs, hcs⟩ := List.exists_cons_of_ne_nil hne
    rw [hcs] at hdigits ⊢
    obtain ⟨v, hv⟩ := Option.isSome_iff_exists.mp (hdigits c List.mem_cons_self)
    rw [List.filterMap_cons, hv]
    exact List.cons_ne_nil _ _

/-- **A text of digits is stored as the number that it denotes**, below the bound up to which all
numbers are doubles. -/
theorem stored (h : IsNumeral d) (hsmall : numeral d < powTwo 53) :
    (Value.text d).stored = .ok (.int (numeral d)) := by
  have hdouble : IsDouble (numeral d) := isDouble_of_lt hsmall
  rw [Value.stored]
  obtain ⟨t, hcount, -, heq⟩ | ⟨hnone, -⟩ := numberOfText_digits h.spellsDigits
  · rw [hcount, heq hdouble]
    rfl
  · exact absurd hdouble hnone

theorem lexed (h : IsNumeral d) : Token.Lexed ⟨.number, d⟩ := by
  refine ⟨none, d.toList, d.toList.length, ?_, List.take_length.symm⟩
  have hlexeme : Lexeme.lexeme? none (d.toList ++ []) = some (.token .number, d.toList.length) :=
    Lexeme.lexeme?_number h.1 h.2 (by simp) none
  rwa [List.append_nil] at hlexeme

end IsNumeral

/-! ### Signs -/

/-- An expression made of the number `d` by parentheses and `k` minus signs. -/
inductive SignedLiteral (d : String) : Nat → Written.Expr → Prop where
  /-- The number alone. -/
  | number : SignedLiteral d 0 (.literal .number d)
  /-- A minus sign in front. -/
  | minus {k : Nat} {e : Written.Expr} (h : SignedLiteral d k e) :
    SignedLiteral d (k + 1) (.unary .neg e)
  /-- Parentheses around. -/
  | parens {k : Nat} {e : Written.Expr} (h : SignedLiteral d k e) :
    SignedLiteral d k (.grouped e)

/-- A number negated `k` times. -/
def alternating : Nat → Int → Int
  | 0, n => n
  | k + 1, n => -alternating k n

/-- The value of the number `d` behind `k` signs. -/
def signedValue (d : String) : Nat → Value
  | 0 => .text d
  | _ + 1 => .text ""

namespace SignedLiteral

variable {d : String} {k : Nat} {e : Written.Expr}

theorem strength_eq (h : SignedLiteral d k e) : e.strength = 2 := by
  cases h <;> rfl

/-- A sign takes any text to the empty text, and parentheses leave no trace. -/
theorem exec_node (h : SignedLiteral d k e) {depth : Nat} (hdepth : k + 1 ≤ depth) (m : Machine) :
    exec depth e.node m = .ok (signedValue d k) m := by
  induction h generalizing depth with
  | number =>
    obtain ⟨depth, rfl⟩ := Nat.exists_eq_add_of_le' hdepth
    rfl
  | @minus k e h ih =>
    obtain ⟨depth, rfl⟩ := Nat.exists_eq_add_of_le' hdepth
    have hoperand : exec (depth + (k + 1)) e.node m = .ok (signedValue d k) m := ih (by omega)
    refine (bind_of_ok _ hoperand).trans ?_
    cases k <;> rfl
  | parens h ih => exact ih hdepth

/-- The tokens are the number, signs and parentheses. -/
theorem mem_tokens (h : SignedLiteral d k e) : ∀ t ∈ e.tokens,
    t = ⟨.number, d⟩ ∨ t ∈ [mark .minus, mark .lparen, mark .rparen] := by
  induction h with
  | number => simp [Written.Literal.tag]
  | minus h ih =>
    intro t ht
    rw [Written.Expr.tokens, h.strength_eq, parensIf, if_neg (by decide), List.mem_cons] at ht
    obtain rfl | ht := ht
    · exact .inr List.mem_cons_self
    · exact ih t ht
  | parens h ih =>
    intro t ht
    rw [Written.Expr.tokens, Written.parens, List.mem_cons, List.mem_append,
      List.mem_singleton] at ht
    obtain rfl | ht | rfl := ht
    · simp
    · exact ih t ht
    · simp

end SignedLiteral

/-! ### The program -/

/-- The program that assigns an expression to the variable `x`. -/
def assigning (e : Written.Expr) : List Written.Item :=
  [.assign "x" e 0]

theorem programOf_assigning {source : String} {e : Written.Expr}
    (h : (tokens source).map Located.token = programTokens (assigning e)) :
    programOf (tokens source) = .ok [.assign (reference "x") e.node] := by
  refine programOf_of_tokens ?_ h ?_
  · simp [assigning, Item.toStmt, Stmt.Flat]
  · intro hnil
    rw [hnil] at h
    cases h

/-- The tokens of the program besides the number are recognised. -/
theorem lexed_assigning : ∀ t ∈ [named "x", mark .assign, mark .minus, mark .lparen, mark .rparen,
    mark .semicolon], t.Lexed ∧ t.settled = t := by
  intro t ht
  have hall : ∀ t ∈ [named "x", mark .assign, mark .minus, mark .lparen, mark .rparen,
      mark .semicolon], Lexeme.lexeme? none t.text.toList =
        some (.token t.tag, t.text.toList.length) ∧ t.settled = t := by
    decide
  obtain ⟨hlexeme, hsettled⟩ := hall t ht
  exact ⟨⟨none, t.text.toList, _, hlexeme, List.take_length.symm⟩, hsettled⟩

/-- The program can be written down. -/
theorem SignedLiteral.exists_source {d : String} {k : Nat} {e : Written.Expr}
    (h : SignedLiteral d k e) (hd : IsNumeral d) :
    ∃ source, (tokens source).map Located.token = programTokens (assigning e) := by
  refine SeqPar.exists_source fun t ht => ?_
  simp only [assigning, programTokens, List.flatMap_cons, List.flatMap_nil, Item.tokens,
    Item.toStmt, Stmt.tokens, semicolons, List.mem_cons, List.mem_append, List.replicate,
    List.append_nil] at ht
  obtain rfl | rfl | ht | rfl | ht := ht
  · exact lexed_assigning _ (by simp)
  · exact lexed_assigning _ (by simp)
  · obtain rfl | ht := h.mem_tokens t ht
    · exact ⟨hd.lexed, rfl⟩
    · exact lexed_assigning t (.tail _ (.tail _ (List.mem_append_left [mark .semicolon] ht)))
  · exact lexed_assigning _ (by simp)
  · cases ht

/-- **A number behind `k` minus signs is assigned as the number negated `k` times if and only if
there are no signs.**  For every text of digits that denotes a number below the bound, and every
expression made of it by parentheses and `k` minus signs, the assignment of the expression to `x`
has a source; every source of it is read as that assignment; and the assignment binds `x` on every
machine, to the number if there is no sign and to the empty text if there is one. -/
theorem assigning_signedLiteral {d : String} (hd : IsNumeral d) (hsmall : numeral d < powTwo 53)
    {k : Nat} {e : Written.Expr} (he : SignedLiteral d k e) :
    (∃ source, (tokens source).map Located.token = programTokens (assigning e)) ∧
    ∀ source, (tokens source).map Located.token = programTokens (assigning e) →
      programOf (tokens source) = .ok [.assign (reference "x") e.node] ∧
      ∀ (depth : Nat) (m : Machine), k + 2 ≤ depth →
        ∃ v, exec depth (.assign (reference "x") e.node) m =
            .ok v { m with scopes := m.scopes.put "x" v } ∧
          (v = .int (alternating k (numeral d)) ↔ k = 0) ∧ (k ≠ 0 → v = .text "") := by
  refine ⟨he.exists_source hd, fun source hsource => ⟨programOf_assigning hsource, ?_⟩⟩
  intro depth m hdepth
  obtain ⟨depth, rfl⟩ := Nat.exists_eq_add_of_le' hdepth
  have hvalue : exec (depth + (k + 1)) e.node m = .ok (signedValue d k) m :=
    he.exec_node (by omega) m
  rw [show depth + (k + 2) = depth + (k + 1) + 1 from rfl, reference, exec_assign hvalue]
  cases k with
  | zero =>
    rw [signedValue, hd.stored hsmall]
    exact ⟨.int (numeral d), rfl, ⟨fun _ => rfl, fun _ => rfl⟩, fun h => absurd rfl h⟩
  | succ k =>
    have hempty : (Value.text "").stored = .ok (.text "") := rfl
    rw [signedValue, hempty]
    refine ⟨.text "", rfl, ⟨fun h => ?_, fun h => ?_⟩, fun _ => rfl⟩
    · cases h
    · cases h

/-- The number 5 behind one sign, in parentheses. -/
theorem assigning_minus_five :
    (IsNumeral "5" ∧ numeral "5" < powTwo 53 ∧
      SignedLiteral "5" 1 (.unary .neg (.grouped (.literal .number "5")))) ∧
    ∃ v, exec 3 (.assign (reference "x")
        (.unary (some "NUMBER") (mark .minus) (.constant (some "NUMBER") ⟨.number, "5"⟩))) default =
      .ok v { (default : Machine) with scopes := (default : Machine).scopes.put "x" v } ∧
      v = .text "" := by
  have hd : IsNumeral "5" := ⟨by decide, by decide⟩
  have hsmall : numeral "5" < powTwo 53 := by decide
  have he : SignedLiteral "5" 1 (.unary .neg (.grouped (.literal .number "5"))) :=
    .minus (.parens .number)
  obtain ⟨⟨source, hsource⟩, hall⟩ := assigning_signedLiteral hd hsmall he
  obtain ⟨v, hexec, -, hempty⟩ := (hall source hsource).2 3 default (by decide)
  exact ⟨⟨hd, hsmall, he⟩, v, hexec, hempty (by decide)⟩

/-- `x = -5;` does not bind `x` to -5, but to the empty text. -/
theorem minus_five_lost :
    programOf (tokens "x = -5;") = .ok [.assign (reference "x")
      (.unary (some "NUMBER") (mark .minus) (.constant (some "NUMBER") ⟨.number, "5"⟩))] ∧
    exec depthLimit (.assign (reference "x")
        (.unary (some "NUMBER") (mark .minus) (.constant (some "NUMBER") ⟨.number, "5"⟩))) default =
      .ok (.text "") { (default : Machine) with
        scopes := (default : Machine).scopes.put "x" (.text "") } := by
  have htokens : (tokens "x = -5;").map Located.token =
      programTokens (assigning (.unary .neg (.literal .number "5"))) := by decide +kernel
  exact ⟨programOf_assigning htokens, rfl⟩

end SeqPar
