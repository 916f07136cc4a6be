import SeqPar.Proofs.Recognition
import SeqPar.Proofs.SourceLines

/-!
# The characters that scanning leaves out

A source is cut into lexemes and stray characters, and the stray ones are left out of everything
that follows.  Nothing that could be part of a program is lost in this way.  A letter, an underscore,
a digit, a blank and most marks always start a lexeme: where a longer one is not found, a shorter one
is, and a comment that is never closed starts with a slash.  What is left out is a character of no use
to the language, a quote that no other quote closes, or one of the signs `&` and `|` that stands
alone.

The matches of a source are its pieces without the stray characters, each at the place where it was
found.

## Main definitions

* `Unlexable` — a character that starts no lexeme in front of a text.
* `PlacedPiece`, `placePieces` — pieces with the positions of their first characters.
* `PlacedPiece.FoundIn` — a piece is what the lexical rules find at its place in a text.
* `matchesOf` — the matches of a source.

## Main results

* `lexeme?_eq_none_iff` — **a text starts with no lexeme exactly when its first character is
  unlexable.**
* `foundIn_of_mem_placePieces` — every piece is found at its place, by induction along the pieces.
* `exists_piece_at` — every character belongs to a piece.
* `matches_leave_only_unlexable` — **the matches of a source are not empty, stand in order without
  overlap, and leave out unlexable characters only.**
-/

namespace SeqPar

open Text Lexeme

attribute [local instance] decidableForallMem

/-! ### Characters that start no lexeme -/

/-- The marks that start a lexeme whatever follows them. -/
def firmMarks : List Char :=
  ['=', '!', '<', '>', '+', '-', '*', '/', '(', ')', '\x7b', '\x7d', ',', ';', '#']

/-- A character that starts no lexeme in front of the text `rest`. -/
structure Unlexable (c : Char) (rest : List Char) : Prop where
  /-- It is no ASCII letter. -/
  letter : c.isAlpha = false
  /-- It is no underscore. -/
  underscore : c ≠ '_'
  /-- It is no digit. -/
  digit : isDigit c = false
  /-- It is no blank. -/
  blank : isBlank c = false
  /-- It is none of the marks that start a lexeme whatever follows them. -/
  mark : c ∉ firmMarks
  /-- If it is a quote, no quote stands behind it. -/
  quote : c = '"' → '"' ∉ rest
  /-- If it is an ampersand, another one does not follow. -/
  ampersand : c = '&' → rest.head? ≠ some '&'
  /-- If it is a bar, another one does not follow. -/
  bar : c = '|' → rest.head? ≠ some '|'

theorem Unlexable.isIdentStart_eq {c : Char} {rest : List Char} (h : Unlexable c rest) :
    isIdentStart c = false := by
  simp [isIdentStart, h.letter, h.underscore]

namespace Lexeme

/-- There is a rule for every operator. -/
theorem mem_rules_of_operator {s : String} {tag : Tag} (hs : (s, tag) ∈ operators) :
    (.token tag, symbol s) ∈ rules := by
  simp only [operators, firmOperators, softOperators, List.mem_append, List.mem_cons,
    Prod.mk.injEq, List.not_mem_nil, or_false] at hs
  rcases hs with (⟨rfl, rfl⟩ | ⟨rfl, rfl⟩ | ⟨rfl, rfl⟩ | ⟨rfl, rfl⟩ | ⟨rfl, rfl⟩ | ⟨rfl, rfl⟩ |
    ⟨rfl, rfl⟩ | ⟨rfl, rfl⟩ | ⟨rfl, rfl⟩ | ⟨rfl, rfl⟩ | ⟨rfl, rfl⟩ | ⟨rfl, rfl⟩ | ⟨rfl, rfl⟩ |
    ⟨rfl, rfl⟩ | ⟨rfl, rfl⟩) | ⟨rfl, rfl⟩ | ⟨rfl, rfl⟩ | ⟨rfl, rfl⟩ | ⟨rfl, rfl⟩ | ⟨rfl, rfl⟩
  all_goals simp [rules]

/-- Where no lexeme starts, no operator stands. -/
theorem not_prefix_of_operator {before : Option Char} {cs : List Char}
    (h : lexeme? before cs = none) {s : String} {tag : Tag} (hs : (s, tag) ∈ operators) :
    ¬ s.toList <+: cs := by
  intro hstarts
  rw [lexeme?_eq_firstMatch, firstMatch_eq_none_iff] at h
  have hnone : symbol s before cs = none := h _ (mem_rules_of_operator hs)
  simp [symbol, List.isPrefixOf_iff_prefix.mpr hstarts] at hnone

/-- Every mark that starts a lexeme whatever follows is an operator, but for that of a comment. -/
theorem exists_operator_of_mark {c : Char} (hc : c ∈ firmMarks) :
    c = '#' ∨ ∃ tag, (String.singleton c, tag) ∈ operators := by
  have hall : ∀ d ∈ firmMarks, d = '#' ∨ ∃ p ∈ operators, p.1 = String.singleton d := by decide
  rcases hall c hc with rfl | ⟨p, hp, hspelled⟩
  · exact .inl rfl
  · exact .inr ⟨p.2, hspelled ▸ hp⟩

/-- An operator starts with such a mark, or is one of the two signs that are doubled. -/
theorem mark_or_doubled_of_operator {s : String} {tag : Tag} (hs : (s, tag) ∈ operators) :
    s.toList.head?.any firmMarks.contains = true ∨ s = "&&" ∨ s = "||" := by
  have hall : ∀ p ∈ operators,
      p.1.toList.head?.any firmMarks.contains = true ∨ p.1 = "&&" ∨ p.1 = "||" := by
    decide
  exact hall _ hs

/-- A character that starts no lexeme is unlexable: each kind of lexeme has a rule that would have
matched. -/
theorem unlexable_of_lexeme?_eq_none {before : Option Char} {c : Char} {rest : List Char}
    (h : lexeme? before (c :: rest) = none) : Unlexable c rest := by
  have hrules : ∀ p ∈ rules, p.2 before (c :: rest) = none := by
    rwa [lexeme?_eq_firstMatch, firstMatch_eq_none_iff] at h
  have hstart : isIdentStart c = false := by
    have hident : identifier before (c :: rest) = none :=
      hrules (.token .ident, identifier) (by simp [rules])
    simpa [identifier] using hident
  have hletter : c.isAlpha = false ∧ c ≠ '_' := by simpa [isIdentStart] using hstart
  refine ⟨hletter.1, hletter.2, ?_, ?_, ?_, ?_, ?_, ?_⟩
  · -- A digit starts a number.
    have hdigits : digits before (c :: rest) = none :=
      hrules (.token .number, digits) (by simp [rules])
    by_contra hc
    simp [digits, run, hc] at hdigits
  · by_contra hc
    rw [lexeme?_blank (by simpa using hc)] at h
    cases h
  · -- A mark is an operator by itself, or it starts a comment.
    intro hmark
    rcases exists_operator_of_mark hmark with rfl | ⟨tag, hop⟩
    · rw [lexeme?_lineComment] at h
      cases h
    · refine not_prefix_of_operator h hop ?_
      simp
  · -- A quote starts a text when there is another one behind it.
    rintro rfl hquote
    obtain ⟨body, tail, rfl, hbody⟩ := List.eq_append_cons_of_mem hquote
    rw [lexeme?_quoted hbody] at h
    cases h
  · rintro rfl hnext
    obtain ⟨tail, rfl⟩ := List.head?_eq_some_iff.mp hnext
    have hop : ("&&", Tag.and) ∈ operators := by decide
    exact not_prefix_of_operator h hop ⟨tail, rfl⟩
  · rintro rfl hnext
    obtain ⟨tail, rfl⟩ := List.head?_eq_some_iff.mp hnext
    have hop : ("||", Tag.or) ∈ operators := by decide
    exact not_prefix_of_operator h hop ⟨tail, rfl⟩

/-- No match of the lexical rules starts with an unlexable character. -/
theorem Recognised.not_unlexable {before : Option Char} {c : Char} {rest : List Char} {kind : Kind}
    {length : Nat} (h : Recognised before (c :: rest) kind length) : ¬ Unlexable c rest := by
  intro hc
  -- a name would start with a letter or an underscore
  have hname : ∀ {w tail : List Char}, IsName w → c :: rest ≠ w ++ tail := by
    intro w tail hw heq
    have hstart := hw.isIdentStart_of_eq heq.symm
    simp [hc.isIdentStart_eq] at hstart
  cases h with
  | closedWord hs hcs => exact hname (isName_closedWord hs) hcs
  | openWord hs hcs => exact hname (isName_openWord hs) hcs
  | @operator s tag tail hs hcs =>
    rcases mark_or_doubled_of_operator hs with hmark | rfl | rfl
    · cases hchars : s.toList with
      | nil => simp [hchars] at hmark
      | cons d w =>
        rw [hchars, List.cons_append, List.cons.injEq] at hcs
        have hd : d ∈ firmMarks := by simpa [hchars] using hmark
        exact hc.mark (hcs.1 ▸ hd)
    · obtain ⟨rfl, rfl⟩ := List.cons.inj hcs
      exact hc.ampersand rfl rfl
    · obtain ⟨rfl, rfl⟩ := List.cons.inj hcs
      exact hc.bar rfl rfl
  | ident hw _ hcs => exact hname hw hcs
  | @number w tail hne hw _ hcs =>
    cases w with
    | nil => exact hne rfl
    | cons d w =>
      obtain ⟨rfl, rfl⟩ := List.cons.inj hcs
      have hdigit := hw c List.mem_cons_self
      simp [hc.digit] at hdigit
  | string _ hcs =>
    obtain ⟨rfl, rfl⟩ := List.cons.inj hcs
    exact hc.quote rfl (by simp)
  | blank hblank hcs =>
    obtain ⟨rfl, rfl⟩ := List.cons.inj hcs
    simp [hc.blank] at hblank
  | lineComment hcs =>
    obtain ⟨rfl, rfl⟩ := List.cons.inj hcs
    exact hc.mark (by decide)
  | blockComment hcs =>
    obtain ⟨rfl, rfl⟩ := List.cons.inj hcs
    exact hc.mark (by decide)

/-- **A text starts with no lexeme exactly when its first character is unlexable**, whatever stands
before the text. -/
theorem lexeme?_eq_none_iff {before : Option Char} {c : Char} {rest : List Char} :
    lexeme? before (c :: rest) = none ↔ Unlexable c rest := by
  refine ⟨unlexable_of_lexeme?_eq_none, fun hc => ?_⟩
  cases hfound : lexeme? before (c :: rest) with
  | none => rfl
  | some found => exact absurd hc (recognised_of_lexeme? hfound).not_unlexable

end Lexeme

/-! ### Pieces and their places -/

/-- A piece of a text with the position of its first character. -/
structure PlacedPiece where
  /-- The position of the first character. -/
  start : Nat
  /-- The piece. -/
  piece : Piece
  deriving DecidableEq, Repr

namespace PlacedPiece

/-- The position right after a piece. -/
def stop (q : PlacedPiece) : Nat :=
  q.start + q.piece.text.length

/-- The character at a position belongs to the piece. -/
def Covers (q : PlacedPiece) (i : Nat) : Prop :=
  q.start ≤ i ∧ i < q.stop

instance (q : PlacedPiece) (i : Nat) : Decidable (q.Covers i) :=
  inferInstanceAs (Decidable (_ ∧ _))

/-- A piece is what the lexical rules find at its place in a text. -/
structure FoundIn (cs : List Char) (q : PlacedPiece) : Prop where
  /-- It is not empty. -/
  nonempty : q.start < q.stop
  /-- Its characters are those of the text at its place. -/
  text : q.piece.text <+: cs.drop q.start
  /-- It is the lexeme at its place, or no lexeme starts there. -/
  lexeme : lexeme? (cs.take q.start).getLast? (cs.drop q.start) =
    q.piece.kind.map fun kind => (kind, q.piece.text.length)
  /-- Stray characters are pieces of their own. -/
  stray : q.piece.kind = none → q.piece.text.length = 1

end PlacedPiece

/-- Pieces with their positions; the first one starts at `start`. -/
def placePieces (start : Nat) : List Piece → List PlacedPiece
  | [] => []
  | p :: ps => ⟨start, p⟩ :: placePieces (start + p.text.length) ps

theorem map_piece_placePieces (start : Nat) (ps : List Piece) :
    (placePieces start ps).map PlacedPiece.piece = ps := by
  induction ps generalizing start with
  | nil => rfl
  | cons p ps ih => rw [placePieces, List.map_cons, ih]

theorem le_start_of_mem_placePieces {start : Nat} {ps : List Piece} {q : PlacedPiece}
    (hq : q ∈ placePieces start ps) : start ≤ q.start := by
  induction ps generalizing start with
  | nil => cases hq
  | cons p ps ih =>
    rcases List.mem_cons.mp hq with rfl | hlater
    · exact Nat.le_refl start
    · exact Nat.le_trans (Nat.le_add_right _ _) (ih hlater)

/-- Pieces stand in order, without overlap. -/
theorem pairwise_placePieces (start : Nat) (ps : List Piece) :
    (placePieces start ps).Pairwise fun q r => q.stop ≤ r.start := by
  induction ps generalizing start with
  | nil => exact List.Pairwise.nil
  | cons p ps ih =>
    exact List.Pairwise.cons (fun r hr => le_start_of_mem_placePieces hr) (ih _)

/-- Every position among pieces belongs to one of them. -/
theorem exists_piece_at {start : Nat} {ps : List Piece} {i : Nat} (hstart : start ≤ i)
    (hi : i < start + (textOf ps).length) : ∃ q ∈ placePieces start ps, q.Covers i := by
  induction ps generalizing start with
  | nil => exact absurd hi (Nat.not_lt.mpr hstart)
  | cons p ps ih =>
    rw [textOf_cons, List.length_append, ← Nat.add_assoc] at hi
    by_cases hhere : i < start + p.text.length
    · exact ⟨⟨start, p⟩, List.mem_cons_self, hstart, hhere⟩
    · obtain ⟨q, hq, hcovers⟩ := ih (Nat.not_lt.mp hhere) hi
      exact ⟨q, List.mem_cons_of_mem _ hq, hcovers⟩

/-- The first piece of what is left of a text is found at its place. -/
theorem foundIn_front {front rest : List Char} {p : Piece} (h : p.IsFirst front.getLast? rest) :
    PlacedPiece.FoundIn (front ++ (p.text ++ rest)) ⟨front.length, p⟩ where
  nonempty := Nat.lt_add_of_pos_right (List.length_pos_of_ne_nil h.nonempty)
  text := by
    rw [List.drop_left]
    exact List.prefix_append _ _
  lexeme := by
    rw [List.take_left, List.drop_left]
    exact h.lexeme
  stray := h.stray

/-- **Every piece is found at its place**, by induction along the pieces; the text `front` is cut
already. -/
theorem foundIn_of_mem_placePieces (before : Option Char) (cs : List Char) :
    ∀ front : List Char, front.getLast? = before →
      ∀ q ∈ placePieces front.length (pieces before cs), q.FoundIn (front ++ cs) := by
  induction before, cs using pieces_induction with
  | nil before =>
    intro front _ q hq
    rw [pieces] at hq
    cases hq
  | cons before p rest hfirst ih =>
    rintro front rfl q hq
    rw [hfirst.pieces_eq] at hq
    rcases List.mem_cons.mp hq with rfl | hlater
    · exact foundIn_front hfirst
    · -- the rest is cut behind a longer front
      have hlast : (front ++ p.text).getLast? = p.text.getLast? :=
        List.getLast?_append_of_ne_nil front hfirst.nonempty
      have hfound := ih (front ++ p.text) hlast q (by rwa [List.length_append])
      rwa [List.append_assoc] at hfound

/-! ### The matches of a source -/

/-- The matches of a source: its pieces without the stray characters, each with its position. -/
def matchesOf (source : String) : List PlacedPiece :=
  (placePieces 0 (pieces none source.toList)).filter fun q => q.piece.kind.isSome

/-- The tokens of a source are the matches that are no layout. -/
theorem map_token_tokens_eq_matches (source : String) :
    (tokens source).map Located.token =
      (matchesOf source).filterMap fun q => q.piece.token? := by
  have hpieces : tokensFrom none source.toList =
      (placePieces 0 (pieces none source.toList)).filterMap fun q => q.piece.token? := by
    conv_lhs => rw [tokensFrom, ← map_piece_placePieces 0 (pieces none source.toList)]
    exact List.filterMap_map
  rw [map_token_tokens, hpieces, matchesOf, List.filterMap_filter]
  refine List.filterMap_congr fun q _ => ?_
  -- a stray character is no token
  cases hkind : q.piece.kind with
  | none => simp [Piece.token?, Piece.tag?, hkind]
  | some kind => rfl

/-- A character outside all matches of a source starts no lexeme. -/
theorem unlexable_of_not_covered {source : String} {i : Nat} {c : Char}
    (hc : source.toList[i]? = some c) (h : ∀ q ∈ matchesOf source, ¬ q.Covers i) :
    Unlexable c (source.toList.drop (i + 1)) := by
  obtain ⟨hi, rfl⟩ := List.getElem?_eq_some_iff.mp hc
  obtain ⟨q, hq, hcovers⟩ : ∃ q ∈ placePieces 0 (pieces none source.toList), q.Covers i := by
    refine exists_piece_at (Nat.zero_le i) ?_
    rwa [textOf_pieces, Nat.zero_add]
  have hfound : q.FoundIn source.toList := foundIn_of_mem_placePieces none _ [] rfl q hq
  have hstray : q.piece.kind = none := by
    by_contra hkind
    exact h q (List.mem_filter.mpr ⟨hq, Option.isSome_iff_ne_none.mpr hkind⟩) hcovers
  -- the piece is a single character, so it starts here
  have hstart : q.start = i := by
    have hone := hfound.stray hstray
    obtain ⟨hle, hlt⟩ := hcovers
    rw [PlacedPiece.stop, hone] at hlt
    omega
  have hnone := hfound.lexeme
  rw [hstray, hstart, List.drop_eq_getElem_cons hi] at hnone
  exact lexeme?_eq_none_iff.mp hnone

/-- **Only unlexable characters are left out of a source.**  Its tokens are found among its matches;
every match is what the lexical rules find at its place, and is not empty; the matches stand in order,
without overlap; and a character outside all of them is unlexable. -/
theorem matches_leave_only_unlexable (source : String) :
    (tokens source).map Located.token = (matchesOf source).filterMap (fun q => q.piece.token?) ∧
    (∀ q ∈ matchesOf source, q.FoundIn source.toList) ∧
    (matchesOf source).Pairwise (fun q r => q.stop ≤ r.start) ∧
    ∀ i c, source.toList[i]? = some c → (∀ q ∈ matchesOf source, ¬ q.Covers i) →
      Unlexable c (source.toList.drop (i + 1)) := by
  refine ⟨map_token_tokens_eq_matches source, ?_, ?_, ?_⟩
  · intro q hq
    exact foundIn_of_mem_placePieces none _ [] rfl q (List.mem_of_mem_filter hq)
  · exact (pairwise_placePieces 0 _).filter _
  · intro i c hc houtside
    exact unlexable_of_not_covered hc houtside

/-- A source with a comment and a quoted text that are never closed, and signs that stand alone. -/
def unclosedSource : String :=
  "if1 & x|= /*@ \""

theorem matchesOf_unclosedSource :
    matchesOf unclosedSource =
      [⟨0, some (.token .ifWord), ['i', 'f']⟩, ⟨2, some (.token .number), ['1']⟩,
        ⟨3, some .layout, [' ']⟩, ⟨5, some .layout, [' ']⟩, ⟨6, some (.token .ident), ['x']⟩,
        ⟨8, some (.token .assign), ['=']⟩, ⟨9, some .layout, [' ']⟩,
        ⟨10, some (.token .divide), ['/']⟩, ⟨11, some (.token .times), ['*']⟩,
        ⟨13, some .layout, [' ']⟩] := by
  decide +kernel

/-- The slash of the open comment is found where it stands, and the open quote is left out. -/
theorem unclosed_left_out :
    (⟨10, some (.token .divide), ['/']⟩ ∈ matchesOf unclosedSource ∧
      PlacedPiece.FoundIn unclosedSource.toList ⟨10, some (.token .divide), ['/']⟩) ∧
    unclosedSource.toList[14]? = some '"' ∧ (∀ q ∈ matchesOf unclosedSource, ¬ q.Covers 14) ∧
      Unlexable '"' (unclosedSource.toList.drop 15) := by
  obtain ⟨-, hfound, -, hleft⟩ := matches_leave_only_unlexable unclosedSource
  have hslash : ⟨10, some (.token .divide), ['/']⟩ ∈ matchesOf unclosedSource := by
    rw [matchesOf_unclosedSource]
    decide
  have houtside : ∀ q ∈ matchesOf unclosedSource, ¬ q.Covers 14 := by
    rw [matchesOf_unclosedSource]
    decide
  have hquote : unclosedSource.toList[14]? = some '"' := by decide
  exact ⟨⟨hslash, hfound _ hslash⟩, hquote, houtside, hleft 14 '"' hquote houtside⟩

end SeqPar
