import SeqPar.Text.Parts
import SeqPar.Token.Scan

/-!
# Boundaries between tokens

Blanks, semicolons, braces and parentheses are **boundaries**: no lexeme that starts before one of
them goes on past it, comments and quoted texts apart.  A text that leaves no comment and no quoted
text open therefore has the same tokens wherever it stands, as long as a boundary follows, and the
tokens of a text are those of its parts.

The **content** of a text is its tokens without the semicolons and braces, which is what a change of
layout should leave as it is.

## Main definitions

* `tokensFrom` — the tokens of a text.
* `contentFrom`, `content` — the content of a text.
* `isBoundary` — the class of boundaries.
* `Closed` — a text whose tokens do not depend on what stands behind a boundary after it.
* `isPlain` — a text without quotes and without the start of a comment.
* `StopsAtBoundary` — a lexical rule that looks at plain text up to the next boundary only.

## Main results

* `lexeme?_eq_firstMatch` — **the rules that are tried last never match.**
* `closed_of_isPlain` — **plain text is closed**, by induction along its lexemes.
* `contentFrom_boundary`, `Closed.contentFrom_append` — the content of a text is that of its parts.
-/

namespace SeqPar

open Text Lexeme

/-- Statements about the characters of a text are decided along the text, not over all characters. -/
@[reducible] def decidableForallMem (p : Char → Prop) [DecidablePred p] (cs : List Char) :
    Decidable (∀ c ∈ cs, p c) :=
  List.decidableBAll p cs

attribute [local instance] decidableForallMem

/-! ### The content of a text -/

/-- The token that a piece is. -/
def Piece.token? (p : Piece) : Option Token :=
  p.tag?.map fun tag => ⟨tag, String.ofList p.text⟩

theorem Piece.token?_eq_some_iff {p : Piece} {t : Token} :
    p.token? = some t ↔ p.kind = some (.token t.tag) ∧ p.text = t.text.toList := by
  obtain ⟨kind, text⟩ := p
  obtain ⟨tag, s⟩ := t
  cases kind with
  | none => simp [token?, tag?]
  | some kind =>
    cases kind with
    | layout => simp [token?, tag?]
    | token tag' =>
      have htext : String.ofList text = s ↔ text = s.toList := by
        constructor
        · rintro rfl
          rw [String.toList_ofList]
        · rintro rfl
          rw [String.ofList_toList]
      simp [token?, tag?, htext]

/-- Whether a token is neither a semicolon nor a brace. -/
def Token.counts (t : Token) : Bool :=
  t.tag != .semicolon && t.tag != .lbrace && t.tag != .rbrace

/-- The tokens of a text, given the character before it. -/
def tokensFrom (before : Option Char) (cs : List Char) : List Token :=
  (pieces before cs).filterMap Piece.token?

/-- The tokens among pieces, without the semicolons and braces. -/
def contentOf (ps : List Piece) : List Token :=
  (ps.filterMap Piece.token?).filter Token.counts

/-- The content of a text, given the character before it. -/
def contentFrom (before : Option Char) (cs : List Char) : List Token :=
  contentOf (pieces before cs)

/-- The content of a source text: its tokens without the semicolons and braces. -/
def content (source : String) : List Token :=
  ((tokens source).map Located.token).filter Token.counts

theorem map_token_locate (s : Scanner) (ps : List Piece) :
    (locate s ps).map Located.token = ps.filterMap Piece.token? := by
  induction ps generalizing s with
  | nil => rfl
  | cons p ps ih =>
    rw [locate]
    cases htag : p.tag? with
    | none => simp [Piece.token?, htag, ih]
    | some tag => simp [Piece.token?, htag, ih]

/-- The tokens of a source text, without their lines. -/
theorem map_token_tokens (source : String) :
    (tokens source).map Located.token = tokensFrom none source.toList := by
  rw [tokens, scan, map_token_locate]
  rfl

theorem content_eq (source : String) : content source = contentFrom none source.toList := by
  rw [content, map_token_tokens]
  rfl

theorem pieces_stray {before : Option Char} {c : Char} {cs : List Char}
    (h : lexeme? before (c :: cs) = none) :
    pieces before (c :: cs) = ⟨none, [c]⟩ :: pieces (some c) cs := by
  rw [pieces, h]

theorem pieces_lexeme {before : Option Char} {c : Char} {cs : List Char} {kind : Kind}
    {length : Nat} (h : lexeme? before (c :: cs) = some (kind, length)) :
    pieces before (c :: cs) = ⟨some kind, c :: cs.take (length - 1)⟩ ::
      pieces (c :: cs.take (length - 1)).getLast? (cs.drop (length - 1)) := by
  rw [pieces, h]

/-- A lexeme that a text starts with is its first piece. -/
theorem pieces_append {before : Option Char} {w rest : List Char} {kind : Kind} (hne : w ≠ [])
    (h : lexeme? before (w ++ rest) = some (kind, w.length)) :
    pieces before (w ++ rest) = ⟨some kind, w⟩ :: pieces w.getLast? rest := by
  cases w with
  | nil => exact absurd rfl hne
  | cons c w =>
    rw [List.cons_append] at h ⊢
    rw [pieces_lexeme h, List.length_cons, Nat.add_sub_cancel, List.take_left, List.drop_left]

@[simp] theorem tokensFrom_nil (before : Option Char) : tokensFrom before [] = [] := by
  simp [tokensFrom, pieces]

theorem tokensFrom_lexeme {before : Option Char} {c : Char} {cs : List Char} {kind : Kind}
    {length : Nat} (h : lexeme? before (c :: cs) = some (kind, length)) :
    tokensFrom before (c :: cs) = [⟨some kind, c :: cs.take (length - 1)⟩].filterMap Piece.token? ++
      tokensFrom (c :: cs.take (length - 1)).getLast? (cs.drop (length - 1)) := by
  rw [tokensFrom, pieces_lexeme h]
  exact @List.filterMap_append _ _ [_] _ _

@[simp] theorem contentOf_append (ps qs : List Piece) :
    contentOf (ps ++ qs) = contentOf ps ++ contentOf qs := by
  simp [contentOf]

@[simp] theorem contentFrom_nil (before : Option Char) : contentFrom before [] = [] := by
  simp [contentFrom, contentOf, pieces]

/-- A stray character adds nothing to the content. -/
theorem contentFrom_stray {before : Option Char} {c : Char} {cs : List Char}
    (h : lexeme? before (c :: cs) = none) :
    contentFrom before (c :: cs) = contentFrom (some c) cs := by
  rw [contentFrom, pieces_stray h]
  rfl

theorem contentFrom_lexeme {before : Option Char} {c : Char} {cs : List Char} {kind : Kind}
    {length : Nat} (h : lexeme? before (c :: cs) = some (kind, length)) :
    contentFrom before (c :: cs) = contentOf [⟨some kind, c :: cs.take (length - 1)⟩] ++
      contentFrom (c :: cs.take (length - 1)).getLast? (cs.drop (length - 1)) := by
  rw [contentFrom, pieces_lexeme h]
  exact contentOf_append [_] _

/-! ### Boundaries -/

/-- Whether a character ends every lexeme that starts before it, comments and quoted texts
apart. -/
def isBoundary (c : Char) : Bool :=
  isBlank c || [';', '\x7b', '\x7d', '(', ')'].contains c

/-- The code points in a table of ranges. -/
def Text.Ranges.codes (table : Ranges) : List Nat :=
  table.flatMap fun range => List.range' range.1 (range.2 + 1 - range.1)

theorem Text.Ranges.mem_codes {table : Ranges} {code : Nat} (h : table.containsCode code = true) :
    code ∈ table.codes := by
  induction table with
  | nil => simp [Ranges.containsCode] at h
  | cons range rest ih =>
    obtain ⟨low, high⟩ := range
    simp only [Ranges.codes, List.flatMap_cons, List.mem_append, List.mem_range'_1]
    rw [Ranges.containsCode] at h
    split at h
    · simp at h
    · split at h
      · left
        omega
      · exact .inr (ih h)

/-- What holds of the code points in the table of blanks holds of every blank. -/
theorem of_isBlank {p : Char → Prop} (hcodes : ∀ code ∈ blankRanges.codes, p (Char.ofNat code))
    {c : Char} (h : isBlank c = true) : p c := by
  have hmem := hcodes c.toNat (Ranges.mem_codes h)
  rwa [Char.ofNat_toNat] at hmem

/-- No boundary belongs to a word, an identifier or a run of digits. -/
def IsOutside (c : Char) : Prop :=
  isWordChar c = false ∧ isIdentStart c = false ∧ isIdentChar c = false ∧ isDigit c = false

instance : DecidablePred IsOutside := fun c => by
  unfold IsOutside
  infer_instance

theorem isOutside_of_isBoundary {c : Char} (h : isBoundary c = true) : IsOutside c := by
  rw [isBoundary, Bool.or_eq_true] at h
  rcases h with hblank | hmark
  · exact of_isBlank (by decide +kernel) hblank
  · have hall : ∀ d ∈ [';', '\x7b', '\x7d', '(', ')'], IsOutside d := by decide +kernel
    exact hall c (by simpa using hmark)

/-! ### Lexical rules at a boundary -/

/-- Whether a text holds no quote and no start of a comment. -/
def isPlain (cs : List Char) : Bool :=
  !cs.contains '"' && !cs.contains '#' && !holds ['/', '*'] cs

theorem isPlain_of_cons {c : Char} {cs : List Char} (h : isPlain (c :: cs) = true) :
    isPlain cs = true := by
  simp only [isPlain, holds, List.contains_cons, Bool.and_eq_true, Bool.not_eq_true',
    Bool.or_eq_false_iff] at h ⊢
  exact ⟨⟨h.1.1.2, h.1.2.2⟩, h.2.2⟩

theorem isPlain_drop {cs : List Char} (n : Nat) (h : isPlain cs = true) :
    isPlain (cs.drop n) = true := by
  induction n generalizing cs with
  | zero => exact h
  | succ n ih =>
    cases cs with
    | nil => exact h
    | cons c cs => exact ih (isPlain_of_cons h)

/-- How a lexical rule treats boundaries.  In plain text up to a boundary it finds what it finds when
the text ends there, and the lexeme lies inside the text.  Before its lexeme, a character that belongs
to no word is as good as the start of the text.  A blank starts no lexeme but layout. -/
structure StopsAtBoundary (kind : Kind) (rule : Rule) : Prop where
  stops : ∀ {before : Option Char} {d : Char} {cs : List Char} {c : Char} {rest : List Char},
    isBlank d = false → isPlain (d :: cs) = true → isBoundary c = true →
      rule before (d :: cs ++ c :: rest) = rule before (d :: cs)
  inside : ∀ {before : Option Char} {cs : List Char} {length : Nat},
    rule before cs = some length → length ≤ cs.length
  behind : ∀ {before : Option Char} {cs : List Char}, isWordAt before = false →
    rule before cs = rule none cs
  blank : ∀ {before : Option Char} {c : Char} {cs : List Char}, isBlank c = true →
    rule before (c :: cs) = none ∨ kind = .layout ∧ rule = blanks

theorem isPrefixOf_append_cons {w : List Char} {c : Char} (hc : c ∉ w) (cs rest : List Char) :
    w.isPrefixOf (cs ++ c :: rest) = w.isPrefixOf cs := by
  induction w generalizing cs with
  | nil => simp
  | cons a w ih =>
    rw [List.mem_cons, not_or] at hc
    cases cs with
    | nil => simp [List.isPrefixOf, Ne.symm hc.1]
    | cons b cs => simp [List.isPrefixOf, ih hc.2]

/-- Whether no boundary stands in a word after its first character, and the first is no blank. -/
def isUnbroken (s : String) : Bool :=
  s.toList.tail.all (!isBoundary ·) && s.toList.head?.any (!isBlank ·)

/-- Whether a text starts with a word is decided before the first boundary. -/
theorem isPrefixOf_boundary {s : String} (hs : isUnbroken s = true) {c : Char}
    (hc : isBoundary c = true) (d : Char) (cs rest : List Char) :
    s.toList.isPrefixOf (d :: cs ++ c :: rest) = s.toList.isPrefixOf (d :: cs) := by
  rw [isUnbroken, Bool.and_eq_true] at hs
  cases hlist : s.toList with
  | nil => simp
  | cons a w =>
    rw [hlist, List.tail_cons, List.all_eq_true] at hs
    have hmem : c ∉ w := by
      intro hw
      simpa [hc] using hs.1 c hw
    simp [List.isPrefixOf, isPrefixOf_append_cons hmem]

theorem not_isPrefixOf_blank {s : String} (hs : isUnbroken s = true) {c : Char}
    (hc : isBlank c = true) (cs : List Char) : s.toList.isPrefixOf (c :: cs) = false := by
  rw [isUnbroken, Bool.and_eq_true] at hs
  cases hlist : s.toList with
  | nil => simp [hlist] at hs
  | cons a w =>
    have ha : a ≠ c := by
      rintro rfl
      simp [hlist, hc] at hs
    simp [List.isPrefixOf, ha]

theorem length_le_of_isPrefixOf {s : String} {cs : List Char}
    (h : s.toList.isPrefixOf cs = true) : s.length ≤ cs.length := by
  rw [← String.length_toList]
  exact (List.isPrefixOf_iff_prefix.mp h).length_le

theorem stopsAtBoundary_symbol {kind : Kind} {s : String} (hs : isUnbroken s = true) :
    StopsAtBoundary kind (symbol s) where
  stops := by
    intro before d cs c rest _ _ hc
    rw [symbol, symbol, isPrefixOf_boundary hs hc]
  inside := by
    intro before cs length h
    simp only [symbol, Option.ite_none_right_eq_some, Option.some.injEq] at h
    rw [← h.2]
    exact length_le_of_isPrefixOf h.1
  behind _ := rfl
  blank hc := .inl (by simp [symbol, not_isPrefixOf_blank hs hc])

theorem stopsAtBoundary_word {kind : Kind} {s : String} (hs : isUnbroken s = true) :
    StopsAtBoundary kind (word s) where
  stops := by
    intro before d cs c rest _ _ hc
    rw [word, word, isPrefixOf_boundary hs hc]
    cases hword : s.toList.isPrefixOf (d :: cs) with
    | false => rfl
    | true =>
      rw [List.drop_append_of_le_length (length_le_of_isPrefixOf hword)]
      cases (d :: cs).drop s.length with
      | nil => simp [isWordAt, (isOutside_of_isBoundary hc).1]
      | cons a as => rfl
  inside := by
    intro before cs length h
    simp only [word, Bool.and_eq_true, Option.ite_none_right_eq_some, Option.some.injEq] at h
    rw [← h.2]
    exact length_le_of_isPrefixOf h.1.1.1
  behind hbefore := by
    rw [word, word, hbefore]
    rfl
  blank hc := .inl (by simp [word, not_isPrefixOf_blank hs hc])

theorem stopsAtBoundary_either {tag : Tag} {first second : Rule}
    (hfirst : StopsAtBoundary (.token tag) first) (hsecond : StopsAtBoundary (.token tag) second) :
    StopsAtBoundary (.token tag) (either first second) where
  stops := by
    intro before d cs c rest hd hplain hc
    rw [either, either, hfirst.stops hd hplain hc, hsecond.stops hd hplain hc]
  inside := by
    intro before cs length h
    rw [either] at h
    cases hmatch : first before cs with
    | none =>
      rw [hmatch] at h
      exact hsecond.inside h
    | some found =>
      rw [hmatch] at h
      exact hfirst.inside (hmatch.trans h)
  behind hbefore := by rw [either, either, hfirst.behind hbefore, hsecond.behind hbefore]
  blank {before} c cs hc := by
    have hnone : ∀ {rule : Rule}, StopsAtBoundary (.token tag) rule →
        rule before (c :: cs) = none := by
      intro rule hrule
      exact (hrule.blank hc).resolve_right (by simp)
    exact .inl (by rw [either, hnone hfirst, hnone hsecond]; rfl)

theorem takeWhile_append_cons {p : Char → Bool} {c : Char} (hc : p c = false)
    (cs rest : List Char) : (cs ++ c :: rest).takeWhile p = cs.takeWhile p := by
  induction cs with
  | nil => simp [hc]
  | cons a cs ih => rw [List.cons_append, List.takeWhile_cons, List.takeWhile_cons, ih]

theorem takeWhile_append_eq {p : Char → Bool} {xs ys : List Char} (hxs : ∀ c ∈ xs, p c = true)
    (hys : ∀ c ∈ ys.head?, p c = false) : (xs ++ ys).takeWhile p = xs := by
  rw [List.takeWhile_append_of_pos hxs]
  cases ys with
  | nil => simp
  | cons c ys => simp [hys c rfl]

theorem run_inside {p : Char → Bool} {before : Option Char} {cs : List Char} {length : Nat}
    (h : run p before cs = some length) : length ≤ cs.length := by
  rw [run] at h
  have hle := (List.takeWhile_prefix (l := cs) p).length_le
  split at h
  · simp at h
  · rw [Option.some.injEq] at h
    omega

theorem stopsAtBoundary_digits {kind : Kind} : StopsAtBoundary kind digits where
  stops := by
    intro before d cs c rest _ _ hc
    rw [digits, run, run, takeWhile_append_cons (isOutside_of_isBoundary hc).2.2.2]
  inside := run_inside
  behind _ := rfl
  blank {_ c _} hc := by
    have hout : isDigit c = false := (isOutside_of_isBoundary (by simp [isBoundary, hc])).2.2.2
    exact .inl (by simp [digits, run, hout])

theorem stopsAtBoundary_blanks : StopsAtBoundary .layout blanks where
  stops := by
    intro before d cs c rest hd _ _
    simp [blanks, run, hd]
  inside := run_inside
  behind _ := rfl
  blank _ := .inr ⟨rfl, rfl⟩

theorem stopsAtBoundary_identifier {kind : Kind} : StopsAtBoundary kind identifier where
  stops := by
    intro before d cs c rest _ _ hc
    rw [List.cons_append, identifier, identifier,
      takeWhile_append_cons (isOutside_of_isBoundary hc).2.2.1]
  inside := by
    intro before cs length h
    cases cs with
    | nil => simp [identifier] at h
    | cons d cs =>
      have hle := (List.takeWhile_prefix (l := cs) isIdentChar).length_le
      simp only [identifier, Option.ite_none_right_eq_some, Option.some.injEq] at h
      rw [List.length_cons]
      omega
  behind _ := rfl
  blank {_ c _} hc := by
    have hout : isIdentStart c = false := (isOutside_of_isBoundary (by simp [isBoundary, hc])).2.1
    exact .inl (by simp [identifier, hout])

theorem stopsAtBoundary_quoted {kind : Kind} : StopsAtBoundary kind quoted where
  stops := by
    intro before d cs c rest _ hplain _
    have hd : d ≠ '"' := by
      rintro rfl
      simp [isPlain] at hplain
    simp [quoted, hd]
  inside := by
    intro before cs length h
    unfold quoted at h
    split at h
    · simp only [Option.ite_none_right_eq_some, Option.some.injEq] at h
      rw [List.length_cons]
      omega
    · simp at h
  behind _ := rfl
  blank {_ c _} hc := by
    have hquote : c ≠ '"' := by
      rintro rfl
      simp [show isBlank '"' = false by decide] at hc
    exact .inl (by simp [quoted, hquote])

theorem stopsAtBoundary_lineComment {kind : Kind} : StopsAtBoundary kind lineComment where
  stops := by
    intro before d cs c rest _ hplain _
    have hd : d ≠ '#' := by
      rintro rfl
      simp [isPlain] at hplain
    simp [lineComment, hd]
  inside := by
    intro before cs length h
    unfold lineComment at h
    split at h
    · rename_i body
      have hle := (List.takeWhile_prefix (l := body) (· != '\n')).length_le
      rw [Option.some.injEq] at h
      rw [List.length_cons]
      omega
    · simp at h
  behind _ := rfl
  blank {_ c _} hc := by
    have hsharp : c ≠ '#' := by
      rintro rfl
      simp [show isBlank '#' = false by decide] at hc
    exact .inl (by simp [lineComment, hsharp])

theorem toClosing_le {cs : List Char} {length : Nat} (h : toClosing cs = some length) :
    length ≤ cs.length := by
  induction cs using toClosing.induct generalizing length with
  | case1 cs =>
    simp only [toClosing, Option.some.injEq] at h
    simp only [List.length_cons]
    omega
  | case2 c cs hstar ih =>
    rw [toClosing] at h
    · obtain ⟨found, hfound, rfl⟩ := Option.map_eq_some_iff.mp h
      simpa using ih hfound
    · exact hstar
  | case3 => simp [toClosing] at h

theorem blockComment_eq_none {before : Option Char} {cs : List Char}
    (h : ∀ tail, cs ≠ '/' :: '*' :: tail) : blockComment before cs = none := by
  unfold blockComment
  split
  · exact absurd rfl (h _)
  · rfl

theorem stopsAtBoundary_blockComment {kind : Kind} : StopsAtBoundary kind blockComment where
  stops := by
    intro before d cs c rest _ hplain hc
    have hnot : ∀ tail, d :: cs ++ c :: rest ≠ '/' :: '*' :: tail := by
      intro tail heq
      rw [List.cons_append, List.cons.injEq] at heq
      obtain ⟨rfl, heq⟩ := heq
      cases cs with
      | nil =>
        have hstar : c = '*' := (List.cons.inj heq).1
        simp [hstar, show isBoundary '*' = false by decide] at hc
      | cons b cs =>
        have hstar : b = '*' := (List.cons.inj heq).1
        simp [isPlain, holds, hstar, List.isPrefixOf] at hplain
    rw [blockComment_eq_none hnot, blockComment_eq_none]
    intro tail heq
    exact hnot (tail ++ c :: rest) (by rw [heq]; rfl)
  inside := by
    intro before cs length h
    unfold blockComment at h
    split at h
    · obtain ⟨found, hfound, rfl⟩ := Option.map_eq_some_iff.mp h
      simpa using toClosing_le hfound
    · simp at h
  behind _ := rfl
  blank {_ c _} hc := by
    refine .inl (blockComment_eq_none ?_)
    intro tail heq
    simp [(List.cons.inj heq).1, show isBlank '/' = false by decide] at hc

/-- Every lexical rule stops at boundaries. -/
theorem stopsAtBoundary_of_mem_rules : ∀ p ∈ rules, StopsAtBoundary p.1 p.2 := by
  have hsymbol := @stopsAtBoundary_symbol
  have hword := @stopsAtBoundary_word
  simp only [rules, List.forall_mem_cons]
  refine ⟨hword ?_, hword ?_, hword ?_, hsymbol ?_, hsymbol ?_, hsymbol ?_, hsymbol ?_, hword ?_,
    hsymbol ?_, hsymbol ?_, hsymbol ?_, hsymbol ?_, hsymbol ?_, hsymbol ?_, hword ?_,
    stopsAtBoundary_either (hword ?_) (hword ?_), stopsAtBoundary_identifier,
    stopsAtBoundary_digits, stopsAtBoundary_quoted, hsymbol ?_, hsymbol ?_, hsymbol ?_, hsymbol ?_,
    hsymbol ?_, hsymbol ?_, hsymbol ?_, hsymbol ?_, hsymbol ?_, hsymbol ?_, hsymbol ?_, hsymbol ?_,
    hsymbol ?_, stopsAtBoundary_blockComment, hsymbol ?_, hsymbol ?_, hsymbol ?_, hsymbol ?_,
    hsymbol ?_, hsymbol ?_, hsymbol ?_, stopsAtBoundary_blanks, stopsAtBoundary_lineComment, by simp⟩
  all_goals decide +kernel

/-! ### Rules that never match -/

/-- Where no identifier starts, no text that starts like one stands. -/
theorem symbol_eq_none_of_identifier {s : String} (hs : s.toList.head?.any isIdentStart = true)
    {before : Option Char} {cs : List Char} (h : identifier before cs = none) :
    symbol s before cs = none := by
  rw [symbol]
  refine if_neg fun hstarts => ?_
  obtain ⟨rest, rfl⟩ := List.isPrefixOf_iff_prefix.mp hstarts
  cases hchars : s.toList with
  | nil => simp [hchars] at hs
  | cons c w =>
    have hc : isIdentStart c = true := by simpa [hchars] using hs
    simp [hchars, identifier, hc] at h

theorem firstMatch_eq_none_iff {ps : List (Kind × Rule)} {before : Option Char} {cs : List Char} :
    firstMatch ps before cs = none ↔ ∀ p ∈ ps, p.2 before cs = none := by
  rw [firstMatch, List.findSome?_eq_none_iff]
  exact forall₂_congr fun p _ => Option.map_eq_none_iff

/-- **The late rules never match**: where one of their words stands an identifier starts, and the rule
for identifiers is tried first. -/
theorem lexeme?_eq_firstMatch (before : Option Char) (cs : List Char) :
    lexeme? before cs = firstMatch rules before cs := by
  have hsplit : lexeme? before cs =
      (firstMatch rules before cs).or (firstMatch lateRules before cs) :=
    List.findSome?_append
  rw [hsplit]
  cases hfound : firstMatch rules before cs with
  | some found => rfl
  | none =>
    have hident : identifier before cs = none :=
      firstMatch_eq_none_iff.mp hfound (.token .ident, identifier) (by simp [rules])
    rw [Option.none_or, firstMatch_eq_none_iff]
    simp only [lateRules, List.forall_mem_cons]
    exact ⟨symbol_eq_none_of_identifier (by decide) hident,
      symbol_eq_none_of_identifier (by decide) hident,
      symbol_eq_none_of_identifier (by decide) hident, List.forall_mem_nil _⟩

/-! ### Lexemes at a boundary -/

theorem exists_rule_of_lexeme? {before : Option Char} {cs : List Char} {kind : Kind} {length : Nat}
    (h : lexeme? before cs = some (kind, length)) :
    ∃ rule, (kind, rule) ∈ rules ∧ rule before cs = some length := by
  rw [lexeme?_eq_firstMatch] at h
  obtain ⟨⟨kind', rule⟩, hmem, hmatch⟩ := List.exists_of_findSome?_eq_some h
  obtain ⟨found, hfound, heq⟩ := Option.map_eq_some_iff.mp hmatch
  rw [Prod.mk.injEq] at heq
  exact ⟨rule, heq.1 ▸ hmem, heq.2 ▸ hfound⟩

theorem lexeme?_congr {before before' : Option Char} {cs cs' : List Char}
    (h : ∀ p ∈ rules, p.2 before cs = p.2 before' cs') : lexeme? before cs = lexeme? before' cs' := by
  rw [lexeme?_eq_firstMatch, lexeme?_eq_firstMatch, firstMatch, firstMatch]
  generalize rules = ps at h ⊢
  induction ps with
  | nil => rfl
  | cons p ps ih =>
    rw [List.forall_mem_cons] at h
    simp only [List.findSome?_cons, h.1, ih h.2]

theorem lexeme?_le {before : Option Char} {cs : List Char} {kind : Kind} {length : Nat}
    (h : lexeme? before cs = some (kind, length)) : length ≤ cs.length := by
  obtain ⟨rule, hmem, hmatch⟩ := exists_rule_of_lexeme? h
  exact (stopsAtBoundary_of_mem_rules _ hmem).inside hmatch

theorem lexeme?_append {before : Option Char} {d : Char} {cs : List Char} (hd : isBlank d = false)
    (hplain : isPlain (d :: cs) = true) {c : Char} (hc : isBoundary c = true) (rest : List Char) :
    lexeme? before (d :: cs ++ c :: rest) = lexeme? before (d :: cs) :=
  lexeme?_congr fun p hp => (stopsAtBoundary_of_mem_rules p hp).stops hd hplain hc

theorem lexeme?_behind {before : Option Char} (hbefore : isWordAt before = false) (cs : List Char) :
    lexeme? before cs = lexeme? none cs :=
  lexeme?_congr fun p hp => (stopsAtBoundary_of_mem_rules p hp).behind hbefore

theorem lexeme?_blank {before : Option Char} {c : Char} (hc : isBlank c = true) (cs : List Char) :
    lexeme? before (c :: cs) = some (.layout, 1 + (cs.takeWhile isBlank).length) := by
  have hblanks : blanks before (c :: cs) = some (1 + (cs.takeWhile isBlank).length) := by
    simp [blanks, run, hc, Nat.add_comm]
  cases hfound : lexeme? before (c :: cs) with
  | none =>
    rw [lexeme?_eq_firstMatch, firstMatch_eq_none_iff] at hfound
    have hnone : blanks before (c :: cs) = none := hfound (.layout, blanks) (by simp [rules])
    simp [hblanks] at hnone
  | some found =>
    obtain ⟨rule, hmem, hmatch⟩ := exists_rule_of_lexeme? hfound
    have hrule : rule before (c :: cs) = none ∨ found.1 = .layout ∧ rule = blanks :=
      (stopsAtBoundary_of_mem_rules _ hmem).blank hc
    rcases hrule with hnone | ⟨hkind, rfl⟩
    · simp [hnone] at hmatch
    · rw [hblanks, Option.some.injEq] at hmatch
      rw [Option.some.injEq]
      exact Prod.ext hkind hmatch.symm

/-! ### The content of parts -/

/-- Before a text, a character that belongs to no word is as good as nothing. -/
theorem pieces_behind {before : Option Char} (hbefore : isWordAt before = false) (cs : List Char) :
    pieces before cs = pieces none cs := by
  cases cs with
  | nil => simp [pieces]
  | cons d cs => rw [pieces, pieces, lexeme?_behind hbefore]

theorem isWordAt_of_isBoundary {c : Char} (hc : isBoundary c = true) : isWordAt (some c) = false :=
  (isOutside_of_isBoundary hc).1

theorem contentFrom_behind {c : Char} (hc : isBoundary c = true) (cs : List Char) :
    contentFrom (some c) cs = contentFrom none cs := by
  rw [contentFrom, contentFrom, pieces_behind (isWordAt_of_isBoundary hc)]

theorem isBoundary_of_isBlank {c : Char} (hc : isBlank c = true) : isBoundary c = true := by
  simp [isBoundary, hc]

theorem tokensFrom_dropWhile {before : Option Char} {c : Char} (hc : isBlank c = true)
    (cs : List Char) :
    tokensFrom before (c :: cs) = tokensFrom none (cs.dropWhile isBlank) := by
  have hrun : ∀ d ∈ cs.takeWhile isBlank, isBlank d = true :=
    List.all_eq_true.mp List.all_takeWhile
  rw [tokensFrom_lexeme (lexeme?_blank hc cs), Nat.add_sub_cancel_left]
  generalize hcut : cs.takeWhile isBlank = run at hrun
  have hsplit : cs = run ++ cs.dropWhile isBlank := by
    rw [← hcut, List.takeWhile_append_dropWhile]
  rw [hsplit, List.take_left, List.drop_left, ← hsplit]
  cases hlast : (c :: run).getLast? with
  | none => simp at hlast
  | some last =>
    have hblank : isBlank last = true := by
      rcases List.mem_cons.mp (List.mem_of_getLast? hlast) with rfl | hmem
      · exact hc
      · exact hrun last hmem
    rw [tokensFrom, pieces_behind (isWordAt_of_isBoundary (isBoundary_of_isBlank hblank))]
    rfl

/-- A blank adds nothing to the tokens. -/
theorem tokensFrom_blank {before : Option Char} {c : Char} (hc : isBlank c = true)
    (cs : List Char) : tokensFrom before (c :: cs) = tokensFrom none cs := by
  rw [tokensFrom_dropWhile hc]
  cases cs with
  | nil => rfl
  | cons d cs =>
    cases hd : isBlank d with
    | false => simp [hd]
    | true => rw [tokensFrom_dropWhile hd, List.dropWhile_cons_of_pos hd]

/-- A blank adds nothing to the content. -/
theorem contentFrom_blank {before : Option Char} {c : Char} (hc : isBlank c = true)
    (cs : List Char) : contentFrom before (c :: cs) = contentFrom none cs :=
  congrArg (List.filter Token.counts) (tokensFrom_blank hc cs)

theorem contentFrom_of_single {before : Option Char} {c : Char} (hc : isBoundary c = true) (tag : Tag)
    (hfound : ∀ before cs, lexeme? before (c :: cs) = some (.token tag, 1)) (cs : List Char) :
    contentFrom before (c :: cs) = contentFrom none [c] ++ contentFrom none cs := by
  rw [contentFrom_lexeme (hfound _ _), contentFrom_lexeme (hfound _ _)]
  simp only [Nat.sub_self, List.take_zero, List.drop_zero, List.getLast?_singleton,
    contentFrom_behind hc, contentFrom_nil, List.append_nil]

/-- The content of a text that starts with a boundary. -/
theorem contentFrom_boundary {before : Option Char} {c : Char} (hc : isBoundary c = true)
    (cs : List Char) : contentFrom before (c :: cs) = contentFrom none [c] ++ contentFrom none cs := by
  cases hblank : isBlank c with
  | true => rw [contentFrom_blank hblank, contentFrom_blank hblank, contentFrom_nil, List.nil_append]
  | false =>
    have hmark : c = ';' ∨ c = '\x7b' ∨ c = '\x7d' ∨ c = '(' ∨ c = ')' := by
      simpa [isBoundary, hblank] using hc
    rcases hmark with rfl | rfl | rfl | rfl | rfl
    · exact contentFrom_of_single hc .semicolon (fun _ _ => rfl) cs
    · exact contentFrom_of_single hc .lbrace (fun _ _ => rfl) cs
    · exact contentFrom_of_single hc .rbrace (fun _ _ => rfl) cs
    · exact contentFrom_of_single hc .lparen (fun _ _ => rfl) cs
    · exact contentFrom_of_single hc .rparen (fun _ _ => rfl) cs

/-- A text whose tokens do not depend on what stands behind a boundary after it, and which leaves
what stands there alone. -/
def Closed (cs : List Char) : Prop :=
  ∀ before c rest, isBoundary c = true →
    contentFrom before (cs ++ c :: rest) = contentFrom before cs ++ contentFrom none (c :: rest)

/-- **Plain text is closed.** -/
theorem closed_of_isPlain {cs : List Char} (hplain : isPlain cs = true) : Closed cs := by
  intro before c rest hc
  induction hlen : cs.length using Nat.strongRecOn generalizing before cs with
  | ind n ih =>
    subst hlen
    cases cs with
    | nil =>
      rw [List.nil_append, contentFrom_boundary hc, ← contentFrom_boundary hc, contentFrom_nil,
        List.nil_append]
    | cons d cs =>
      have hrest : ∀ before n, contentFrom before (cs.drop n ++ c :: rest) =
          contentFrom before (cs.drop n) ++ contentFrom none (c :: rest) := fun before n =>
        ih _ (by grind) (isPlain_drop n (isPlain_of_cons hplain)) before rfl
      cases hd : isBlank d with
      | true =>
        rw [List.cons_append, contentFrom_blank hd, contentFrom_blank hd]
        exact hrest none 0
      | false =>
        -- the lexeme at the front is the same with and without the boundary, and lies before it
        have hsame : lexeme? before (d :: (cs ++ c :: rest)) = lexeme? before (d :: cs) :=
          lexeme?_append hd hplain hc rest
        cases hfound : lexeme? before (d :: cs) with
        | none =>
          rw [List.cons_append, contentFrom_stray (hsame.trans hfound), contentFrom_stray hfound]
          exact hrest _ 0
        | some found =>
          have hle : found.2 - 1 ≤ cs.length := by
            have := lexeme?_le hfound
            simp only [List.length_cons] at this
            omega
          rw [List.cons_append, contentFrom_lexeme (hsame.trans hfound), contentFrom_lexeme hfound,
            List.take_append_of_le_length hle, List.drop_append_of_le_length hle, hrest,
            List.append_assoc]

theorem isPlain_of_forall {cs : List Char} (h : ∀ c ∈ cs, c ≠ '"' ∧ c ≠ '#' ∧ c ≠ '/') :
    isPlain cs = true := by
  induction cs with
  | nil => rfl
  | cons c cs ih =>
    rw [List.forall_mem_cons] at h
    have hcs := ih h.2
    simp only [isPlain, Bool.and_eq_true, Bool.not_eq_true'] at hcs ⊢
    rw [List.contains_cons, List.contains_cons, holds, hcs.1.1, hcs.1.2, hcs.2]
    simp [List.isPrefixOf, h.1.1.symm, h.1.2.1.symm, h.1.2.2.symm]

/-- The content of a closed text and of what stands from a boundary on. -/
theorem Closed.contentFrom_append {cs rest : List Char} (hcs : Closed cs)
    (hrest : ∀ c ∈ rest.head?, isBoundary c = true) :
    contentFrom none (cs ++ rest) = contentFrom none cs ++ contentFrom none rest := by
  cases rest with
  | nil => simp
  | cons c rest => exact hcs none c rest (hrest c rfl)

/-! ### Layout -/

/-- Whether a character adds nothing to the content of a text. -/
def isLayout (c : Char) : Bool :=
  isBlank c || [';', '\x7b', '\x7d'].contains c

theorem isLayout_of_isBlank {c : Char} (hc : isBlank c = true) : isLayout c = true := by
  simp [isLayout, hc]

theorem isBoundary_of_isLayout {c : Char} (hc : isLayout c = true) : isBoundary c = true := by
  simp only [isLayout, isBoundary, Bool.or_eq_true] at hc ⊢
  rcases hc with hblank | hmark
  · exact .inl hblank
  · refine .inr ?_
    simp only [List.contains_cons, List.contains_nil, Bool.or_eq_true] at hmark ⊢
    rcases hmark with h | h | h | h
    · exact .inl h
    · exact .inr (.inl h)
    · exact .inr (.inr (.inl h))
    · simp at h

theorem contentFrom_isLayout {c : Char} (hc : isLayout c = true) (cs : List Char) :
    contentFrom none (c :: cs) = contentFrom none cs := by
  have hnil : contentFrom none [c] = [] := by
    cases hblank : isBlank c with
    | true => rw [contentFrom_blank hblank, contentFrom_nil]
    | false =>
      have hmark : c = ';' ∨ c = '\x7b' ∨ c = '\x7d' := by
        simpa [isLayout, hblank] using hc
      rcases hmark with rfl | rfl | rfl
      · rw [contentFrom_lexeme (rfl : lexeme? none [';'] = some (.token .semicolon, 1))]
        simp [contentOf, Piece.token?, Piece.tag?, Token.counts]
      · rw [contentFrom_lexeme (rfl : lexeme? none ['\x7b'] = some (.token .lbrace, 1))]
        simp [contentOf, Piece.token?, Piece.tag?, Token.counts]
      · rw [contentFrom_lexeme (rfl : lexeme? none ['\x7d'] = some (.token .rbrace, 1))]
        simp [contentOf, Piece.token?, Piece.tag?, Token.counts]
  rw [contentFrom_boundary (isBoundary_of_isLayout hc), hnil, List.nil_append]

/-- Layout in front of a text adds nothing to the content. -/
theorem contentFrom_layout_append {gap : List Char} (hgap : ∀ c ∈ gap, isLayout c = true)
    (cs : List Char) : contentFrom none (gap ++ cs) = contentFrom none cs := by
  induction gap with
  | nil => rfl
  | cons c gap ih =>
    rw [List.forall_mem_cons] at hgap
    rw [List.cons_append, contentFrom_isLayout hgap.1, ih hgap.2]

end SeqPar
