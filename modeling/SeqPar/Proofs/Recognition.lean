import Mathlib.Data.List.DropRight
import SeqPar.Proofs.Boundaries

/-!
# What the lexical rules recognise

The lexical rules are of few kinds.  **Closed words** are recognised between characters that belong to
no word; **open words** are recognised whatever stands around them, also at the front of a longer
word.  Most operators are recognised whatever follows; five are the beginning of longer lexemes.  The
other rules recognise identifiers, digits, quoted texts, blanks and comments.

`Recognised` says for each kind what a match looks like.  It is what later proofs know of the rules:
a text in which only one kind of match is possible starts with that lexeme.

## Main definitions

* `closedWords`, `openWords`, `firmOperators`, `softOperators` — the fixed texts and their tags.
* `Recognised` — the matches of the lexical rules.
* `IsName` — a text of the form of an identifier.
* `Piece.IsFirst` — a piece is what is cut off first from a text.

## Main results

* `recognised_of_lexeme?` — every lexeme is a match of one of the kinds.
* `pieces_induction` — induction along the pieces of a text.
* `lexeme?_openWord`, `lexeme?_closedWord`, `lexeme?_identifier`, `lexeme?_name` — **the lexeme at
  the front of a name.**
* `lexeme?_number`, `lexeme?_quoted`, `lexeme?_firmOperator`, `lexeme?_softOperator` — the lexemes at
  the front of other texts.
-/

namespace SeqPar.Lexeme

open SeqPar.Text

attribute [local instance] decidableForallMem

/-! ### Fixed texts -/

/-- The words that are recognised between characters that belong to no word. -/
def closedWords : List (String × Tag) :=
  [("string", .stringType), ("int", .intType), ("bool", .boolType), ("function", .function),
    ("return", .returnWord), ("true", .bool), ("false", .bool)]

/-- The words that are recognised whatever stands around them. -/
def openWords : List (String × Tag) :=
  [("SEQ", .seq), ("PAR", .par), ("c_channel", .clientChannel), ("s_channel", .serverChannel),
    ("if", .ifWord), ("else", .elseWord), ("while", .whileWord), ("send", .send),
    ("receive", .receive), ("output", .output)]

/-- The operators that are recognised whatever stands around them. -/
def firmOperators : List (String × Tag) :=
  [("==", .eq), ("!=", .neq), ("<=", .lte), (">=", .gte), ("&&", .and), ("||", .or), ("+", .plus),
    ("-", .minus), ("*", .times), ("(", .lparen), (")", .rparen), ("\x7b", .lbrace),
    ("\x7d", .rbrace), (",", .comma), (";", .semicolon)]

/-- The operators that longer lexemes start with. -/
def softOperators : List (String × Tag) :=
  [("<", .lt), (">", .gt), ("!", .not), ("=", .assign), ("/", .divide)]

/-- The operators. -/
def operators : List (String × Tag) :=
  firmOperators ++ softOperators

/-! ### Classes of characters -/

theorem toNat_lt_of_isIdentChar {c : Char} (hc : isIdentChar c = true) : c.toNat < 128 := by
  delta isIdentChar Char.isAlphanum Char.isAlpha Char.isUpper Char.isLower Char.isDigit at hc
  simp only [Bool.or_eq_true, Bool.and_eq_true, decide_eq_true_eq, beq_iff_eq, ge_iff_le,
    UInt32.le_iff_toNat_le] at hc
  have hval : c.toNat = c.val.toNat := rfl
  rcases hc with ((⟨-, h⟩ | ⟨-, h⟩) | ⟨-, h⟩) | rfl
  · have hle : c.val.toNat ≤ 90 := h
    omega
  · have hle : c.val.toNat ≤ 122 := h
    omega
  · have hle : c.val.toNat ≤ 57 := h
    omega
  · decide

/-- What holds of the ASCII characters of identifiers holds of all characters of identifiers. -/
theorem of_isIdentChar {p : Char → Prop}
    (hcodes : ∀ code < 128, isIdentChar (Char.ofNat code) = true → p (Char.ofNat code)) {c : Char}
    (hc : isIdentChar c = true) : p c := by
  have hcode := hcodes c.toNat (toNat_lt_of_isIdentChar hc)
  rw [Char.ofNat_toNat] at hcode
  exact hcode hc

theorem isWordChar_of_isIdentChar {c : Char} (hc : isIdentChar c = true) : isWordChar c = true :=
  of_isIdentChar (p := fun c => isWordChar c = true) (by decide) hc

theorem isIdentChar_of_isIdentStart {c : Char} (hc : isIdentStart c = true) :
    isIdentChar c = true := by
  simp only [isIdentStart, isIdentChar, Char.isAlphanum, Bool.or_eq_true] at hc ⊢
  rcases hc with hletter | hline
  · exact .inl (.inl hletter)
  · exact .inr hline

/-- An identifier starts with no digit, no blank, no quote and no mark of a comment. -/
theorem not_special_of_isIdentStart {c : Char} (hc : isIdentStart c = true) :
    isDigit c = false ∧ isBlank c = false ∧ c ≠ '"' ∧ c ≠ '#' ∧ c ≠ '/' := by
  have hall : ∀ code < 128, isIdentChar (Char.ofNat code) = true →
      isIdentStart (Char.ofNat code) = true → isDigit (Char.ofNat code) = false ∧
        isBlank (Char.ofNat code) = false ∧ Char.ofNat code ≠ '"' ∧ Char.ofNat code ≠ '#' ∧
          Char.ofNat code ≠ '/' := by
    decide
  exact of_isIdentChar
    (p := fun c => isIdentStart c = true → isDigit c = false ∧ isBlank c = false ∧ c ≠ '"' ∧
      c ≠ '#' ∧ c ≠ '/') hall (isIdentChar_of_isIdentStart hc) hc

/-- A digit is no blank, no quote and no mark of a comment. -/
theorem not_special_of_isDigit {c : Char} (hc : isDigit c = true) :
    isBlank c = false ∧ c ≠ '"' ∧ c ≠ '#' ∧ c ≠ '/' := by
  refine ⟨?_, ?_, ?_, ?_⟩
  · by_contra hblank
    have hboundary : isBoundary c = true := isBoundary_of_isBlank (by simpa using hblank)
    simp [(isOutside_of_isBoundary hboundary).2.2.2] at hc
  · rintro rfl
    exact absurd hc (by decide)
  · rintro rfl
    exact absurd hc (by decide)
  · rintro rfl
    exact absurd hc (by decide)

theorem isWordAt_of_isIdentChar {cs : List Char} {c : Char} (hhead : cs.head? = some c)
    (hc : isIdentChar c = true) : isWordAt cs.head? = true := by
  simp [isWordAt, hhead, isWordChar_of_isIdentChar hc]

/-! ### The characters of fixed texts -/

/-- A text of the form of an identifier. -/
structure IsName (w : List Char) : Prop where
  starts : ∃ c ∈ w.head?, isIdentStart c = true
  isIdentChar_of_mem : ∀ c ∈ w, isIdentChar c = true

theorem IsName.ne_nil {w : List Char} (h : IsName w) : w ≠ [] := by
  obtain ⟨c, hc, -⟩ := h.starts
  rintro rfl
  simp at hc

/-- The first character of a text that a name starts. -/
theorem IsName.isIdentStart_of_eq {w rest cs : List Char} {c : Char} (h : IsName w)
    (heq : w ++ rest = c :: cs) : isIdentStart c = true := by
  obtain ⟨d, hd, hstart⟩ := h.starts
  cases w with
  | nil => simp at hd
  | cons a w =>
    have had : a = d := by simpa using hd
    have hac : a = c := (List.cons.inj heq).1
    rw [← hac, had]
    exact hstart

theorem isName_iff (w : List Char) :
    IsName w ↔ (w.head?.any isIdentStart && w.all isIdentChar) = true := by
  rw [Bool.and_eq_true, List.all_eq_true, Option.any_eq_true]
  exact ⟨fun h => ⟨h.starts, h.isIdentChar_of_mem⟩, fun h => ⟨h.1, h.2⟩⟩

instance (w : List Char) : Decidable (IsName w) :=
  decidable_of_iff _ (isName_iff w).symm

theorem isName_closedWord {s : String} {tag : Tag} (h : (s, tag) ∈ closedWords) :
    IsName s.toList := by
  have hall : ∀ p ∈ closedWords, IsName p.1.toList := by decide
  exact hall _ h

theorem isName_openWord {s : String} {tag : Tag} (h : (s, tag) ∈ openWords) :
    IsName s.toList := by
  have hall : ∀ p ∈ openWords, IsName p.1.toList := by decide
  exact hall _ h

/-- The characters of operators belong to no identifier and start no other token. -/
def isOperatorChar (c : Char) : Bool :=
  !isIdentChar c && !isDigit c && c != '"'

theorem isOperatorChar_of_mem {s : String} {tag : Tag} (h : (s, tag) ∈ operators) :
    s.toList ≠ [] ∧ ∀ c ∈ s.toList, isOperatorChar c = true := by
  have hall : ∀ p ∈ operators, p.1.toList ≠ [] ∧ ∀ c ∈ p.1.toList, isOperatorChar c = true := by
    decide
  exact hall _ h

theorem isOperatorChar_of_eq {s : String} {tag : Tag} (h : (s, tag) ∈ operators)
    {rest cs : List Char} {c : Char} (heq : s.toList ++ rest = c :: cs) :
    isOperatorChar c = true := by
  obtain ⟨hne, hchars⟩ := isOperatorChar_of_mem h
  cases hs : s.toList with
  | nil => exact absurd hs hne
  | cons a w =>
    rw [hs] at heq
    have hac : a = c := (List.cons.inj heq).1
    exact hac ▸ hchars a (by simp [hs])

theorem isIdentStart_of_isOperatorChar {c : Char} (hc : isOperatorChar c = true) :
    isIdentStart c = false := by
  by_contra hstart
  have hident : isIdentChar c = true := isIdentChar_of_isIdentStart (by simpa using hstart)
  simp [isOperatorChar, hident] at hc

/-! ### Matches -/

/-- The matches of the lexical rules in a text, given the character before it. -/
inductive Recognised (before : Option Char) (cs : List Char) : Kind → Nat → Prop
  /-- A closed word, with no word character before or after it. -/
  | closedWord {s : String} {tag : Tag} {rest : List Char} : (s, tag) ∈ closedWords →
      cs = s.toList ++ rest → isWordAt before = false → isWordAt rest.head? = false →
      Recognised before cs (.token tag) s.length
  /-- An open word. -/
  | openWord {s : String} {tag : Tag} {rest : List Char} : (s, tag) ∈ openWords →
      cs = s.toList ++ rest → Recognised before cs (.token tag) s.length
  /-- An operator. -/
  | operator {s : String} {tag : Tag} {rest : List Char} : (s, tag) ∈ operators →
      cs = s.toList ++ rest → Recognised before cs (.token tag) s.length
  /-- An identifier, up to the first character that cannot belong to it. -/
  | ident {w rest : List Char} : IsName w → (∀ c ∈ rest.head?, isIdentChar c = false) →
      cs = w ++ rest → Recognised before cs (.token .ident) w.length
  /-- A run of digits. -/
  | number {w rest : List Char} : w ≠ [] → (∀ c ∈ w, isDigit c = true) →
      (∀ c ∈ rest.head?, isDigit c = false) → cs = w ++ rest →
      Recognised before cs (.token .number) w.length
  /-- A quoted text. -/
  | string {body rest : List Char} : '"' ∉ body → cs = '"' :: (body ++ '"' :: rest) →
      Recognised before cs (.token .string) (body.length + 2)
  /-- Blanks. -/
  | blank {c : Char} {rest : List Char} {length : Nat} : isBlank c = true → cs = c :: rest →
      Recognised before cs .layout length
  /-- A comment up to the end of the line. -/
  | lineComment {rest : List Char} {length : Nat} : cs = '#' :: rest →
      Recognised before cs .layout length
  /-- A comment with an end of its own. -/
  | blockComment {rest : List Char} {length : Nat} : cs = '/' :: '*' :: rest →
      Recognised before cs .layout length

/-- The matches of a rule are matches of its kind. -/
def Recognises (kind : Kind) (rule : Rule) : Prop :=
  ∀ {before : Option Char} {cs : List Char} {length : Nat}, rule before cs = some length →
    Recognised before cs kind length

theorem eq_append_of_symbol {s : String} {before : Option Char} {cs : List Char} {length : Nat}
    (h : symbol s before cs = some length) : ∃ rest, cs = s.toList ++ rest ∧ s.length = length := by
  simp only [symbol, Option.ite_none_right_eq_some, Option.some.injEq] at h
  obtain ⟨rest, hrest⟩ := List.isPrefixOf_iff_prefix.mp h.1
  exact ⟨rest, hrest.symm, h.2⟩

theorem recognises_openWord {s : String} {tag : Tag} (hs : (s, tag) ∈ openWords) :
    Recognises (.token tag) (symbol s) := by
  intro before cs length h
  obtain ⟨rest, hcs, rfl⟩ := eq_append_of_symbol h
  exact .openWord hs hcs

theorem recognises_operator {s : String} {tag : Tag} (hs : (s, tag) ∈ operators) :
    Recognises (.token tag) (symbol s) := by
  intro before cs length h
  obtain ⟨rest, hcs, rfl⟩ := eq_append_of_symbol h
  exact .operator hs hcs

theorem recognises_closedWord {s : String} {tag : Tag} (hs : (s, tag) ∈ closedWords) :
    Recognises (.token tag) (word s) := by
  intro before cs length h
  simp only [word, Bool.and_eq_true, Bool.not_eq_true', Option.ite_none_right_eq_some,
    Option.some.injEq] at h
  obtain ⟨⟨⟨hstarts, hbefore⟩, hafter⟩, rfl⟩ := h
  obtain ⟨rest, rfl⟩ := List.isPrefixOf_iff_prefix.mp hstarts
  rw [← String.length_toList, List.drop_left] at hafter
  exact .closedWord hs rfl hbefore hafter

theorem recognises_either {kind : Kind} {first second : Rule} (hfirst : Recognises kind first)
    (hsecond : Recognises kind second) : Recognises kind (either first second) := by
  intro before cs length h
  rw [either] at h
  cases hmatch : first before cs with
  | none =>
    rw [hmatch] at h
    exact hsecond h
  | some found =>
    rw [hmatch] at h
    exact hfirst (hmatch.trans h)

theorem recognises_identifier : Recognises (.token .ident) identifier := by
  intro before cs length h
  cases cs with
  | nil => simp [identifier] at h
  | cons c cs =>
    simp only [identifier, Option.ite_none_right_eq_some, Option.some.injEq] at h
    obtain ⟨hc, rfl⟩ := h
    have hchars : ∀ d ∈ cs.takeWhile isIdentChar, isIdentChar d = true :=
      List.all_eq_true.mp List.all_takeWhile
    have hname : IsName (c :: cs.takeWhile isIdentChar) := by
      refine ⟨⟨c, rfl, hc⟩, ?_⟩
      rw [List.forall_mem_cons]
      exact ⟨isIdentChar_of_isIdentStart hc, hchars⟩
    have hstop : ∀ d ∈ (cs.dropWhile isIdentChar).head?, isIdentChar d = false := by
      intro d hd
      have hnot := List.head?_dropWhile_not isIdentChar cs
      rw [Option.mem_def.mp hd] at hnot
      simpa using hnot
    have hlength : 1 + (cs.takeWhile isIdentChar).length =
        (c :: cs.takeWhile isIdentChar).length := by
      rw [List.length_cons, Nat.add_comm]
    rw [hlength]
    refine .ident hname hstop ?_
    rw [List.cons_append, List.takeWhile_append_dropWhile]

theorem recognises_digits : Recognises (.token .number) digits := by
  intro before cs length h
  have hchars : ∀ d ∈ cs.takeWhile isDigit, isDigit d = true :=
    List.all_eq_true.mp List.all_takeWhile
  have hstop : ∀ d ∈ (cs.dropWhile isDigit).head?, isDigit d = false := by
    intro d hd
    have hnot := List.head?_dropWhile_not isDigit cs
    rw [Option.mem_def.mp hd] at hnot
    simpa using hnot
  have hne : cs.takeWhile isDigit ≠ [] := by
    intro hnil
    simp [digits, run, hnil] at h
  have hlength : length = (cs.takeWhile isDigit).length := by
    rw [digits, run] at h
    split at h
    · simp at h
    · exact (Option.some.inj h).symm
  rw [hlength]
  exact .number hne hchars hstop List.takeWhile_append_dropWhile.symm

theorem recognises_quoted : Recognises (.token .string) quoted := by
  intro before cs length h
  unfold quoted at h
  split at h
  · rename_i rest
    simp only [Option.ite_none_right_eq_some, Option.some.injEq] at h
    obtain ⟨hshort, rfl⟩ := h
    have hbody : '"' ∉ rest.takeWhile (· != '"') := by
      intro hmem
      simpa using List.mem_takeWhile_imp hmem
    have hsplit : rest.takeWhile (· != '"') ++ rest.dropWhile (· != '"') = rest :=
      List.takeWhile_append_dropWhile
    cases hdrop : rest.dropWhile (· != '"') with
    | nil =>
      -- without a closing quote the body would be the whole rest
      rw [hdrop, List.append_nil] at hsplit
      rw [hsplit] at hshort
      exact absurd hshort (Nat.lt_irrefl _)
    | cons c tail =>
      have hc : c = '"' := by
        have hnot := List.head?_dropWhile_not (· != '"') rest
        rw [hdrop] at hnot
        simpa using hnot
      rw [hdrop, hc] at hsplit
      exact .string hbody (by rw [hsplit])
  · simp at h

theorem recognises_blanks : Recognises .layout blanks := by
  intro before cs length h
  cases cs with
  | nil => simp [blanks, run] at h
  | cons c cs =>
    cases hc : isBlank c with
    | false => simp [blanks, run, hc] at h
    | true => exact .blank hc rfl

theorem recognises_lineComment : Recognises .layout lineComment := by
  intro before cs length h
  unfold lineComment at h
  split at h
  · exact .lineComment rfl
  · simp at h

theorem recognises_blockComment : Recognises .layout blockComment := by
  intro before cs length h
  unfold blockComment at h
  split at h
  · exact .blockComment rfl
  · simp at h

theorem recognises_of_mem_rules : ∀ p ∈ rules, Recognises p.1 p.2 := by
  have hclosed := @recognises_closedWord
  have hopen := @recognises_openWord
  have hop := @recognises_operator
  simp only [rules, List.forall_mem_cons]
  refine ⟨hclosed ?_, hclosed ?_, hclosed ?_, hopen ?_, hopen ?_, hopen ?_, hopen ?_, hclosed ?_,
    hopen ?_, hopen ?_, hopen ?_, hopen ?_, hopen ?_, hopen ?_, hclosed ?_,
    recognises_either (hclosed ?_) (hclosed ?_), recognises_identifier, recognises_digits,
    recognises_quoted, hop ?_, hop ?_, hop ?_, hop ?_, hop ?_, hop ?_, hop ?_, hop ?_, hop ?_, hop ?_,
    hop ?_, hop ?_, hop ?_, recognises_blockComment, hop ?_, hop ?_, hop ?_, hop ?_, hop ?_, hop ?_,
    hop ?_, recognises_blanks, recognises_lineComment, by simp⟩
  all_goals decide

/-- **Every lexeme is a match of one of the kinds.** -/
theorem recognised_of_lexeme? {before : Option Char} {cs : List Char} {kind : Kind} {length : Nat}
    (h : lexeme? before cs = some (kind, length)) : Recognised before cs kind length := by
  obtain ⟨rule, hmem, hmatch⟩ := exists_rule_of_lexeme? h
  exact recognises_of_mem_rules _ hmem hmatch

/-- No token is empty. -/
theorem Recognised.length_pos {before : Option Char} {cs : List Char} {tag : Tag} {length : Nat}
    (h : Recognised before cs (.token tag) length) : 0 < length := by
  have hfixed : ∀ {s : String}, s.toList ≠ [] → 0 < s.length := by
    intro s hs
    rw [← String.length_toList]
    exact List.length_pos_of_ne_nil hs
  cases h with
  | closedWord hs _ _ _ => exact hfixed (isName_closedWord hs).ne_nil
  | openWord hs _ => exact hfixed (isName_openWord hs).ne_nil
  | operator hs _ => exact hfixed (isOperatorChar_of_mem hs).1
  | ident hw _ _ => exact List.length_pos_of_ne_nil hw.ne_nil
  | number hne _ _ _ => exact List.length_pos_of_ne_nil hne
  | string _ _ => exact Nat.succ_pos _

/-- No lexeme is empty. -/
theorem lexeme?_pos {before : Option Char} {cs : List Char} {kind : Kind} {length : Nat}
    (h : lexeme? before cs = some (kind, length)) : 0 < length := by
  cases kind with
  | token tag => exact (recognised_of_lexeme? h).length_pos
  | layout =>
    obtain ⟨rule, hmem, hmatch⟩ := exists_rule_of_lexeme? h
    have hlayout : rule = blockComment ∨ rule = blanks ∨ rule = lineComment := by
      simpa [rules] using hmem
    rcases hlayout with rfl | rfl | rfl
    · unfold blockComment at hmatch
      split at hmatch
      · obtain ⟨found, -, rfl⟩ := Option.map_eq_some_iff.mp hmatch
        exact Nat.succ_pos _
      · cases hmatch
    · unfold blanks run at hmatch
      split at hmatch
      · cases hmatch
      · next hne =>
        obtain rfl := Option.some.inj hmatch
        exact List.length_pos_of_ne_nil hne
    · unfold lineComment at hmatch
      split at hmatch
      · obtain rfl := Option.some.inj hmatch
        exact Nat.add_pos_left Nat.one_pos _
      · cases hmatch

/-- A text in which a rule has the only match starts with that lexeme. -/
theorem lexeme?_eq_of_forall {before : Option Char} {cs : List Char} {kind : Kind} {rule : Rule}
    {length : Nat} (hmem : (kind, rule) ∈ rules) (hrule : rule before cs = some length)
    (honly : ∀ kind' length', Recognised before cs kind' length' →
      kind' = kind ∧ length' = length) : lexeme? before cs = some (kind, length) := by
  cases hfound : lexeme? before cs with
  | none =>
    rw [lexeme?_eq_firstMatch, firstMatch_eq_none_iff] at hfound
    have hnone : rule before cs = none := hfound _ hmem
    simp [hrule] at hnone
  | some found =>
    obtain ⟨hkind, hlength⟩ := honly found.1 found.2 (recognised_of_lexeme? hfound)
    rw [← hkind, ← hlength]

/-! ### Fixed texts at the front -/

theorem lexeme?_openWord {s : String} {tag : Tag} (hs : (s, tag) ∈ openWords)
    (before : Option Char) (rest : List Char) :
    lexeme? before (s.toList ++ rest) = some (.token tag, s.length) := by
  simp only [openWords, List.mem_cons, Prod.mk.injEq, List.not_mem_nil, or_false] at hs
  rcases hs with ⟨rfl, rfl⟩ | ⟨rfl, rfl⟩ | ⟨rfl, rfl⟩ | ⟨rfl, rfl⟩ | ⟨rfl, rfl⟩ | ⟨rfl, rfl⟩ |
    ⟨rfl, rfl⟩ | ⟨rfl, rfl⟩ | ⟨rfl, rfl⟩ | ⟨rfl, rfl⟩
  all_goals rfl

theorem lexeme?_firmOperator {s : String} {tag : Tag} (hs : (s, tag) ∈ firmOperators)
    (before : Option Char) (rest : List Char) :
    lexeme? before (s.toList ++ rest) = some (.token tag, s.length) := by
  simp only [firmOperators, List.mem_cons, Prod.mk.injEq, List.not_mem_nil, or_false] at hs
  rcases hs with ⟨rfl, rfl⟩ | ⟨rfl, rfl⟩ | ⟨rfl, rfl⟩ | ⟨rfl, rfl⟩ | ⟨rfl, rfl⟩ | ⟨rfl, rfl⟩ |
    ⟨rfl, rfl⟩ | ⟨rfl, rfl⟩ | ⟨rfl, rfl⟩ | ⟨rfl, rfl⟩ | ⟨rfl, rfl⟩ | ⟨rfl, rfl⟩ | ⟨rfl, rfl⟩ |
    ⟨rfl, rfl⟩ | ⟨rfl, rfl⟩
  all_goals rfl

theorem word_append {s : String} {before : Option Char} {rest : List Char}
    (hbefore : isWordAt before = false) (hrest : isWordAt rest.head? = false) :
    word s before (s.toList ++ rest) = some s.length := by
  have hstarts : s.toList.isPrefixOf (s.toList ++ rest) = true :=
    List.isPrefixOf_iff_prefix.mpr (List.prefix_append _ _)
  have hdrop : (s.toList ++ rest).drop s.length = rest := by
    rw [← String.length_toList, List.drop_left]
  rw [word, hstarts, hbefore, hdrop, hrest]
  rfl

theorem lexeme?_closedWord {s : String} {tag : Tag} (hs : (s, tag) ∈ closedWords)
    {before : Option Char} {rest : List Char} (hbefore : isWordAt before = false)
    (hrest : isWordAt rest.head? = false) :
    lexeme? before (s.toList ++ rest) = some (.token tag, s.length) := by
  have hword : word s before (s.toList ++ rest) = some s.length := word_append hbefore hrest
  simp only [closedWords, List.mem_cons, Prod.mk.injEq, List.not_mem_nil, or_false] at hs
  rcases hs with ⟨rfl, rfl⟩ | ⟨rfl, rfl⟩ | ⟨rfl, rfl⟩ | ⟨rfl, rfl⟩ | ⟨rfl, rfl⟩ | ⟨rfl, rfl⟩ |
    ⟨rfl, rfl⟩
  all_goals
    unfold lexeme? firstMatch rules
    simp only [List.cons_append, List.findSome?_cons, either, hword]
    rfl

/-- A soft operator is recognised if neither `=` nor `*` follows. -/
theorem lexeme?_softOperator {s : String} {tag : Tag} (hs : (s, tag) ∈ softOperators)
    (before : Option Char) {rest : List Char} (hrest : ∀ c ∈ rest.head?, c ≠ '=' ∧ c ≠ '*') :
    lexeme? before (s.toList ++ rest) = some (.token tag, s.length) := by
  simp only [softOperators, List.mem_cons, Prod.mk.injEq, List.not_mem_nil, or_false] at hs
  cases rest with
  | nil => rcases hs with ⟨rfl, rfl⟩ | ⟨rfl, rfl⟩ | ⟨rfl, rfl⟩ | ⟨rfl, rfl⟩ | ⟨rfl, rfl⟩ <;> rfl
  | cons c rest =>
    obtain ⟨hequal, hstar⟩ := hrest c rfl
    -- the longer lexemes, which are tried first, need the next character
    have hlonger : ∀ a, symbol (String.ofList [a, '=']) before (a :: c :: rest) = none := by
      intro a
      simp [symbol, List.isPrefixOf, Ne.symm hequal]
    have hcomment : blockComment before ('/' :: c :: rest) = none :=
      blockComment_eq_none (by simp [hstar])
    have hlt : symbol "<=" before ('<' :: c :: rest) = none := hlonger '<'
    have hgt : symbol ">=" before ('>' :: c :: rest) = none := hlonger '>'
    have hnot : symbol "!=" before ('!' :: c :: rest) = none := hlonger '!'
    have hassign : symbol "==" before ('=' :: c :: rest) = none := hlonger '='
    have htexts : "<".toList = ['<'] ∧ ">".toList = ['>'] ∧ "!".toList = ['!'] ∧
        "=".toList = ['='] ∧ "/".toList = ['/'] := by decide
    rcases hs with ⟨rfl, rfl⟩ | ⟨rfl, rfl⟩ | ⟨rfl, rfl⟩ | ⟨rfl, rfl⟩ | ⟨rfl, rfl⟩
    all_goals
      simp only [htexts, List.cons_append, List.nil_append]
      unfold lexeme? firstMatch rules
      simp only [List.cons_append, List.findSome?_cons, hlt, hgt, hnot, hassign, hcomment]
      rfl

theorem lexeme?_lineComment (before : Option Char) (rest : List Char) :
    lexeme? before ('#' :: rest) = some (.layout, 1 + (rest.takeWhile (· != '\n')).length) :=
  rfl

theorem lexeme?_blockComment (before : Option Char) {rest : List Char} {length : Nat}
    (h : toClosing rest = some length) :
    lexeme? before ('/' :: '*' :: rest) = some (.layout, length + 2) := by
  have hcomment : blockComment before ('/' :: '*' :: rest) = some (length + 2) := by
    simp [blockComment, h]
  unfold lexeme? firstMatch rules
  simp only [List.cons_append, List.findSome?_cons, hcomment]
  rfl

/-! ### Names, numbers and quoted texts at the front -/

/-- A text of identifier characters at the front of a name, when more may follow the name. -/
theorem prefix_of_prefix_append {s w rest : List Char} (hs : ∀ c ∈ s, isIdentChar c = true)
    (hrest : ∀ c ∈ rest.head?, isIdentChar c = false) (h : s <+: w ++ rest) : s <+: w := by
  rcases List.prefix_or_prefix_of_prefix h (List.prefix_append w rest) with hle | ⟨tail, rfl⟩
  · exact hle
  · rw [List.prefix_append_right_inj] at h
    cases tail with
    | nil => simp
    | cons c tail =>
      obtain ⟨more, rfl⟩ := h
      have hc : isIdentChar c = true := hs c (by simp)
      simp [hrest c rfl] at hc

/-- **A name that is no closed word and starts with no open word is an identifier.** -/
theorem lexeme?_identifier {w rest : List Char} (hw : IsName w)
    (hrest : ∀ c ∈ rest.head?, isIdentChar c = false)
    (hclosed : ∀ s tag, (s, tag) ∈ closedWords → s.toList ≠ w)
    (hopen : ∀ s tag, (s, tag) ∈ openWords → ¬ s.toList <+: w) (before : Option Char) :
    lexeme? before (w ++ rest) = some (.token .ident, w.length) := by
  have htake : ∀ {xs ys : List Char}, (∀ c ∈ xs, isIdentChar c = true) →
      (∀ c ∈ ys.head?, isIdentChar c = false) → (xs ++ ys).takeWhile isIdentChar = xs :=
    takeWhile_append_eq
  have hrule : identifier before (w ++ rest) = some w.length := by
    obtain ⟨c, hc, hstart⟩ := hw.starts
    cases w with
    | nil => simp at hc
    | cons a w =>
      obtain rfl : a = c := by simpa using hc
      have hchars := hw.isIdentChar_of_mem
      rw [List.forall_mem_cons] at hchars
      rw [List.cons_append, identifier, if_pos hstart, htake hchars.2 hrest, List.length_cons,
        Nat.add_comm]
  refine lexeme?_eq_of_forall (by simp [rules]) hrule ?_
  intro kind length h
  -- whatever else is matched starts with a character that starts no name
  have hfirst : ∀ {c cs}, w ++ rest = c :: cs → isIdentStart c = true :=
    hw.isIdentStart_of_eq
  cases h with
  | @closedWord s tag rest' hs hcs _ hafter =>
    have hstarts : s.toList <+: w :=
      prefix_of_prefix_append (isName_closedWord hs).isIdentChar_of_mem hrest ⟨rest', hcs.symm⟩
    obtain ⟨tail, htail⟩ := hstarts
    cases tail with
    | nil => exact absurd (by simpa using htail) (hclosed s tag hs)
    | cons c tail =>
      have hrest' : rest' = c :: (tail ++ rest) := by
        rw [← htail, List.append_assoc, List.append_cancel_left_eq] at hcs
        exact hcs.symm
      have hc : isIdentChar c = true := hw.isIdentChar_of_mem c (by simp [← htail])
      have hword : isWordAt rest'.head? = true := isWordAt_of_isIdentChar (by rw [hrest']; rfl) hc
      simp [hword] at hafter
  | @openWord s tag rest' hs hcs =>
    have hstarts : s.toList <+: w :=
      prefix_of_prefix_append (isName_openWord hs).isIdentChar_of_mem hrest ⟨rest', hcs.symm⟩
    exact absurd hstarts (hopen s tag hs)
  | @operator s tag rest' hs hcs =>
    obtain ⟨c, hc, hstart⟩ := hw.starts
    cases w with
    | nil => simp at hc
    | cons a w =>
      have hop : isOperatorChar a = true := isOperatorChar_of_eq hs hcs.symm
      have ha : isIdentStart a = true := hfirst rfl
      simp [isIdentStart_of_isOperatorChar hop] at ha
  | @ident w' rest' hw' hrest' hcs =>
    have hsame : w = w' := by
      rw [← htake hw.isIdentChar_of_mem hrest, hcs, htake hw'.isIdentChar_of_mem hrest']
    exact ⟨rfl, by rw [hsame]⟩
  | @number w' rest' hne hdigits _ hcs =>
    cases w' with
    | nil => exact absurd rfl hne
    | cons c w' =>
      have hdigit := hdigits c List.mem_cons_self
      simp [(not_special_of_isIdentStart (hfirst hcs)).1] at hdigit
  | string _ hcs => exact absurd rfl (not_special_of_isIdentStart (hfirst hcs)).2.2.1
  | blank hc hcs => simp [(not_special_of_isIdentStart (hfirst hcs)).2.1] at hc
  | lineComment hcs => exact absurd rfl (not_special_of_isIdentStart (hfirst hcs)).2.2.2.1
  | blockComment hcs => exact absurd rfl (not_special_of_isIdentStart (hfirst hcs)).2.2.2.2

/-- **A name between characters that belong to no word, which starts with no open word, is a closed
word or an identifier.** -/
theorem lexeme?_name {w rest : List Char} (hw : IsName w) {before : Option Char}
    (hbefore : isWordAt before = false) (hrest : isWordAt rest.head? = false)
    (hopen : ∀ s tag, (s, tag) ∈ openWords → ¬ s.toList <+: w) :
    lexeme? before (w ++ rest) =
      some (.token ((closedWords.lookup (String.ofList w)).getD .ident), w.length) := by
  cases hfound : closedWords.lookup (String.ofList w) with
  | none =>
    have hclosed : ∀ s tag, (s, tag) ∈ closedWords → s.toList ≠ w := by
      rintro s tag hs rfl
      have hne := List.lookup_eq_none_iff.mp hfound (s, tag) hs
      simp at hne
    refine lexeme?_identifier hw ?_ hclosed hopen before
    intro c hc
    by_contra hident
    have hword := isWordAt_of_isIdentChar hc (by simpa using hident)
    simp [hrest] at hword
  | some tag =>
    have hmem : (String.ofList w, tag) ∈ closedWords := by
      obtain ⟨front, back, hsplit, -⟩ := List.lookup_eq_some_iff.mp hfound
      rw [hsplit]
      simp
    have hlexeme := lexeme?_closedWord hmem hbefore hrest
    rwa [String.toList_ofList, String.length_ofList] at hlexeme

/-- A run of digits that no digit follows is a number. -/
theorem lexeme?_number {w rest : List Char} (hne : w ≠ []) (hw : ∀ c ∈ w, isDigit c = true)
    (hrest : ∀ c ∈ rest.head?, isDigit c = false) (before : Option Char) :
    lexeme? before (w ++ rest) = some (.token .number, w.length) := by
  have htake : ∀ {xs ys : List Char}, (∀ c ∈ xs, isDigit c = true) →
      (∀ c ∈ ys.head?, isDigit c = false) → (xs ++ ys).takeWhile isDigit = xs :=
    takeWhile_append_eq
  have hrule : digits before (w ++ rest) = some w.length := by
    rw [digits, run, htake hw hrest]
    cases w with
    | nil => exact absurd rfl hne
    | cons c w => rfl
  refine lexeme?_eq_of_forall (by simp [rules]) hrule ?_
  intro kind length h
  have hfirst : ∀ {c cs}, w ++ rest = c :: cs → isDigit c = true := by
    intro c cs hcs
    cases w with
    | nil => exact absurd rfl hne
    | cons a w =>
      have hac : a = c := (List.cons.inj hcs).1
      exact hac ▸ hw a List.mem_cons_self
  -- no name starts with a digit
  have hname : ∀ {v tail}, IsName v → w ++ rest ≠ v ++ tail := by
    intro v tail hv heq
    cases hcons : v ++ tail with
    | nil => exact hv.ne_nil (List.append_eq_nil_iff.mp hcons).1
    | cons c cs =>
      have hdigit := hfirst (heq.trans hcons)
      simp [(not_special_of_isIdentStart (hv.isIdentStart_of_eq hcons)).1] at hdigit
  cases h with
  | closedWord hs hcs => exact absurd hcs (hname (isName_closedWord hs))
  | openWord hs hcs => exact absurd hcs (hname (isName_openWord hs))
  | @operator s tag rest' hs hcs =>
    cases w with
    | nil => exact absurd rfl hne
    | cons a w =>
      have hop : isOperatorChar a = true := isOperatorChar_of_eq hs hcs.symm
      simp [isOperatorChar, hw a List.mem_cons_self] at hop
  | ident hw' _ hcs => exact absurd hcs (hname hw')
  | @number w' rest' _ hw' hrest' hcs =>
    have hsame : w = w' := by
      rw [← htake hw hrest, hcs, htake hw' hrest']
    exact ⟨rfl, by rw [hsame]⟩
  | string _ hcs => exact absurd rfl (not_special_of_isDigit (hfirst hcs)).2.1
  | blank hc hcs => simp [(not_special_of_isDigit (hfirst hcs)).1] at hc
  | lineComment hcs => exact absurd rfl (not_special_of_isDigit (hfirst hcs)).2.2.1
  | blockComment hcs => exact absurd rfl (not_special_of_isDigit (hfirst hcs)).2.2.2

/-- A quoted text is recognised whatever stands around it. -/
theorem lexeme?_quoted {body : List Char} (hbody : '"' ∉ body) (before : Option Char)
    (rest : List Char) :
    lexeme? before ('"' :: (body ++ '"' :: rest)) = some (.token .string, body.length + 2) := by
  have htake : (body ++ '"' :: rest).takeWhile (· != '"') = body :=
    takeWhile_append_eq (fun c hc => bne_iff_ne.mpr (ne_of_mem_of_not_mem hc hbody)) (by simp)
  have hrule : quoted before ('"' :: (body ++ '"' :: rest)) = some (body.length + 2) := by
    simp [quoted, htake]
  unfold lexeme? firstMatch rules
  simp only [List.cons_append, List.findSome?_cons, hrule]
  rfl

end SeqPar.Lexeme

namespace SeqPar

open Lexeme

/-! ### The first piece of a text -/

/-- A piece is what is cut off first from a text that goes on with `rest` behind it, given the
character before the text. -/
structure Piece.IsFirst (p : Piece) (before : Option Char) (rest : List Char) : Prop where
  /-- It is not empty. -/
  nonempty : p.text ≠ []
  /-- It is the lexeme that the text starts with, or the text starts with none. -/
  lexeme : lexeme? before (p.text ++ rest) = p.kind.map fun kind => (kind, p.text.length)
  /-- A stray character is a piece of its own. -/
  stray : p.kind = none → p.text.length = 1

theorem Piece.IsFirst.pieces_eq {p : Piece} {before : Option Char} {rest : List Char}
    (h : p.IsFirst before rest) :
    pieces before (p.text ++ rest) = p :: pieces p.text.getLast? rest := by
  obtain ⟨kind, text⟩ := p
  cases kind with
  | some kind => exact pieces_append h.nonempty h.lexeme
  | none =>
    obtain ⟨c, rfl⟩ := List.length_eq_one_iff.mp (h.stray rfl)
    exact pieces_stray h.lexeme

/-- Something is cut off from every text. -/
theorem exists_isFirst (before : Option Char) (c : Char) (cs : List Char) :
    ∃ (p : Piece) (rest : List Char), p.IsFirst before rest ∧ p.text ++ rest = c :: cs := by
  cases hfound : lexeme? before (c :: cs) with
  | none => exact ⟨⟨none, [c]⟩, cs, ⟨List.cons_ne_nil c [], hfound, fun _ => rfl⟩, rfl⟩
  | some found =>
    obtain ⟨kind, length⟩ := found
    have hsplit : (c :: cs).take length ++ (c :: cs).drop length = c :: cs :=
      List.take_append_drop length (c :: cs)
    have hlength : ((c :: cs).take length).length = length :=
      List.length_take_of_le (lexeme?_le hfound)
    have hne : (c :: cs).take length ≠ [] :=
      List.ne_nil_of_length_pos (hlength.symm ▸ lexeme?_pos hfound)
    refine ⟨⟨some kind, (c :: cs).take length⟩, (c :: cs).drop length, ⟨hne, ?_, by simp⟩, hsplit⟩
    rw [hsplit, hfound, hlength]
    rfl

/-- **Induction along the pieces of a text**: a piece is cut off, and the rest is cut up by itself,
behind the last character of that piece. -/
@[elab_as_elim]
theorem pieces_induction {motive : Option Char → List Char → Prop}
    (nil : ∀ before, motive before [])
    (cons : ∀ (before : Option Char) (p : Piece) (rest : List Char), p.IsFirst before rest →
      motive p.text.getLast? rest → motive before (p.text ++ rest))
    (before : Option Char) (cs : List Char) : motive before cs := by
  induction hlength : cs.length using Nat.strongRecOn generalizing before cs with
  | ind n ih =>
    subst hlength
    cases cs with
    | nil => exact nil before
    | cons c cs =>
      obtain ⟨p, rest, hfirst, hsplit⟩ := exists_isFirst before c cs
      have hshorter : rest.length < (c :: cs).length := by
        have hpos := List.length_pos_of_ne_nil hfirst.nonempty
        rw [← hsplit, List.length_append]
        omega
      rw [← hsplit]
      exact cons before p rest hfirst (ih rest.length hshorter p.text.getLast? rest rfl)

end SeqPar
