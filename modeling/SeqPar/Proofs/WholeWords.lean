import SeqPar.Proofs.Recognition

/-!
# Words that are one token

A word of a source text stands between characters that belong to no word, and outside quoted texts
and comments.  One would expect one token for it.  The open words are recognised at the front of
longer words, too, so a word that goes on after an open word is cut in two: `output_total` is the
token `output` and the identifier `_total`.  Every other word is one token.

## Main definitions

* `piecesWithin` — the pieces that share a character with a part of the text.
* `WordIn` — a word of a source text, outside quoted texts and comments.
* `WordIn.IsWhole` — the word is one token.

## Main results

* `piecesWithin_pieces` — a piece starts where a word starts.
* `WordIn.isWhole_iff` — **a word is one token exactly when it does not go on after an open word.**
-/

namespace SeqPar

open Text Lexeme

/-! ### Parts of a text and pieces -/

/-- The pieces, the first of which starts at `offset`, that share a character with the text from
`start` up to `stop`. -/
def piecesWithin (start stop : Nat) : (offset : Nat) → List Piece → List Piece
  | _, [] => []
  | offset, p :: ps =>
    if offset < stop ∧ start < offset + p.text.length then
      p :: piecesWithin start stop (offset + p.text.length) ps
    else piecesWithin start stop (offset + p.text.length) ps

/-- Whether a piece is a quoted text, a comment or blanks. -/
def Piece.hides (p : Piece) : Bool :=
  p.kind == some (.token .string) || p.kind == some .layout

theorem piecesWithin_cons_of_le {start stop offset : Nat} {p : Piece}
    (h : offset + p.text.length ≤ start) (ps : List Piece) :
    piecesWithin start stop offset (p :: ps) =
      piecesWithin start stop (offset + p.text.length) ps := by
  rw [piecesWithin, if_neg (by omega)]

theorem piecesWithin_cons_of_lt {start stop offset : Nat} {p : Piece} (hstop : offset < stop)
    (hstart : start < offset + p.text.length) (ps : List Piece) :
    piecesWithin start stop offset (p :: ps) =
      p :: piecesWithin start stop (offset + p.text.length) ps := by
  rw [piecesWithin, if_pos ⟨hstop, hstart⟩]

/-- No piece from the end of a part on shares a character with it. -/
theorem piecesWithin_of_le {start stop offset : Nat} (h : stop ≤ offset) (ps : List Piece) :
    piecesWithin start stop offset ps = [] := by
  induction ps generalizing offset with
  | nil => rfl
  | cons p ps ih =>
    rw [piecesWithin, if_neg (by omega)]
    exact ih (by omega)

/-! ### Where words start -/

/-- A token other than a quoted text consists of word characters, or of characters that start no
name. -/
theorem Lexeme.Recognised.wordChars_or {before : Option Char} {cs : List Char} {tag : Tag}
    {length : Nat} (h : Recognised before cs (.token tag) length) (htag : tag ≠ .string) :
    (∀ c ∈ cs.take length, isWordChar c = true) ∨
      ∀ c ∈ cs.take length, isIdentStart c = false := by
  have hname : ∀ {w rest : List Char}, IsName w → cs = w ++ rest → length = w.length →
      ∀ c ∈ cs.take length, isWordChar c = true := by
    rintro w rest hw rfl rfl c hc
    rw [List.take_left] at hc
    exact isWordChar_of_isIdentChar (hw.isIdentChar_of_mem c hc)
  cases h with
  | closedWord hs hcs _ _ =>
    exact .inl (hname (isName_closedWord hs) hcs String.length_toList.symm)
  | openWord hs hcs => exact .inl (hname (isName_openWord hs) hcs String.length_toList.symm)
  | operator hs hcs =>
    refine .inr fun c hc => ?_
    rw [hcs, ← String.length_toList, List.take_left] at hc
    exact isIdentStart_of_isOperatorChar ((isOperatorChar_of_mem hs).2 c hc)
  | ident hw _ hcs => exact .inl (hname hw hcs rfl)
  | number _ hw _ hcs =>
    refine .inr fun c hc => ?_
    rw [hcs, List.take_left] at hc
    by_contra hstart
    have hdigit := (not_special_of_isIdentStart (by simpa using hstart)).1
    simp [hw c hc] at hdigit
  | string _ _ => exact absurd rfl htag

/-- Only quoted texts, comments and blanks go on from a character that belongs to no word into a
word. -/
theorem hides_of_reaches {before : Option Char} {front word back : List Char} {kind : Kind}
    {length : Nat} (hname : IsName word) (hne : front ≠ [])
    (hlast : isWordAt front.getLast? = false)
    (hfound : lexeme? before (front ++ (word ++ back)) = some (kind, length))
    (hlong : front.length < length) : kind = .token .string ∨ kind = .layout := by
  cases kind with
  | layout => exact .inr rfl
  | token tag =>
    by_cases htag : tag = .string
    · exact .inl (by rw [htag])
    · -- the lexeme holds the last character of the front and the first of the word
      obtain ⟨c, hc, hstart⟩ := hname.starts
      obtain ⟨w, rfl⟩ := List.head?_eq_some_iff.mp hc
      obtain ⟨more, rfl⟩ : ∃ more, length = front.length + (more + 1) :=
        ⟨length - front.length - 1, by omega⟩
      have hrecognised := recognised_of_lexeme? hfound
      have hmem : ∀ d ∈ front ++ [c],
          d ∈ (front ++ (c :: w ++ back)).take (front.length + (more + 1)) := by
        intro d hd
        rw [List.take_length_add_append, List.cons_append, List.take_succ_cons]
        rw [List.mem_append, List.mem_singleton] at hd
        rcases hd with hfront | rfl
        · exact List.mem_append_left _ hfront
        · exact List.mem_append_right _ List.mem_cons_self
      rcases hrecognised.wordChars_or htag with hword | hmark
      · have hfront := hword (front.getLast hne) (hmem _ (by simp))
        rw [List.getLast?_eq_some_getLast hne] at hlast
        simp [isWordAt, hfront] at hlast
      · simp [hmark c (hmem c (by simp))] at hstart

/-- **A piece starts where a word starts**: the pieces of a word outside quoted texts and comments
are those of the text from the word on. -/
theorem piecesWithin_pieces {word back : List Char} (hname : IsName word) {start stop : Nat}
    (hstop : start < stop) {front : List Char} {before : Option Char} {offset : Nat}
    (hstart : start = offset + front.length)
    (hbefore : isWordAt (front.getLast?.or before) = false)
    (houtside : ∀ p ∈ piecesWithin start stop offset (pieces before (front ++ (word ++ back))),
      p.hides = false) :
    piecesWithin start stop offset (pieces before (front ++ (word ++ back))) =
      piecesWithin start stop start (pieces (front.getLast?.or before) (word ++ back)) := by
  -- by induction along the pieces of the front
  generalize hcs : front ++ (word ++ back) = cs at houtside ⊢
  induction before, cs using pieces_induction generalizing front offset with
  | nil before => simp [hname.ne_nil] at hcs
  | cons before p rest hfirst ih =>
    by_cases hempty : front = []
    · subst hempty
      simp [hstart, ← hcs]
    rw [hfirst.pieces_eq] at houtside ⊢
    by_cases hshort : p.text.length ≤ front.length
    · -- the piece ends in the front
      obtain ⟨front, rfl⟩ :=
        List.prefix_of_prefix_length_le (List.prefix_append _ rest) ⟨word ++ back, hcs⟩ hshort
      rw [List.append_assoc, List.append_cancel_left_eq] at hcs
      rw [List.length_append, ← Nat.add_assoc] at hstart
      have hlast : (p.text ++ front).getLast?.or before = front.getLast?.or p.text.getLast? := by
        rw [List.getLast?_append, Option.or_assoc, List.getLast?_eq_some_getLast hfirst.nonempty]
        rfl
      have hskip : offset + p.text.length ≤ start := hstart ▸ Nat.le_add_right _ _
      rw [piecesWithin_cons_of_le hskip] at houtside ⊢
      rw [hlast] at hbefore ⊢
      exact ih hstart hbefore hcs houtside
    · -- the piece would go on into the word
      rw [Nat.not_le] at hshort
      have hlast : isWordAt front.getLast? = false := by
        rwa [List.getLast?_eq_some_getLast hempty] at hbefore ⊢
      have hreaches : start < offset + p.text.length := hstart ▸ Nat.add_lt_add_left hshort offset
      have hhere : offset < stop := by omega
      rw [piecesWithin_cons_of_lt hhere hreaches, List.forall_mem_cons] at houtside
      cases hkind : p.kind with
      | none =>
        have hpos := List.length_pos_of_ne_nil hempty
        have hone := hfirst.stray hkind
        omega
      | some kind =>
        have hfound := hfirst.lexeme
        rw [hkind, ← hcs] at hfound
        have hhides := houtside.1
        rcases hides_of_reaches hname hempty hlast hfound hshort with rfl | rfl
        · simp [Piece.hides, hkind] at hhides
        · simp [Piece.hides, hkind] at hhides

/-! ### Words -/

/-- A word of a source text: identifier characters between characters that belong to no word,
outside quoted texts and comments. -/
structure WordIn (source : String) where
  /-- The text before the word. -/
  front : List Char
  /-- The word. -/
  word : List Char
  /-- The text after the word. -/
  back : List Char
  toList_eq : source.toList = front ++ (word ++ back)
  isName : IsName word
  isWordAt_front : isWordAt front.getLast? = false
  isWordAt_back : isWordAt back.head? = false
  hides_eq_false : ∀ p ∈ piecesWithin front.length (front.length + word.length) 0
    (pieces none source.toList), p.hides = false

namespace WordIn

variable {source : String} (w : WordIn source)

/-- The pieces of the source text that share a character with a word. -/
def covering : List Piece :=
  piecesWithin w.front.length (w.front.length + w.word.length) 0 (pieces none source.toList)

/-- A word that is one token. -/
def IsWhole : Prop :=
  ∃ tag, w.covering = [⟨some (.token tag), w.word⟩]

theorem covering_eq : w.covering = piecesWithin w.front.length (w.front.length + w.word.length)
    w.front.length (pieces w.front.getLast? (w.word ++ w.back)) := by
  have hpos := List.length_pos_of_ne_nil w.isName.ne_nil
  have houtside := w.hides_eq_false
  rw [w.toList_eq] at houtside
  have hstarts := piecesWithin_pieces w.isName (Nat.lt_add_of_pos_right hpos) (Nat.zero_add _).symm
    (by simpa using w.isWordAt_front) houtside
  rw [covering, w.toList_eq, hstarts, Option.or_none]

/-- The first piece of a word is the lexeme at its front. -/
theorem covering_eq_cons {kind : Kind} {v rest : List Char} (hne : v ≠ [])
    (hsplit : w.word ++ w.back = v ++ rest)
    (hfound : lexeme? w.front.getLast? (v ++ rest) = some (kind, v.length)) :
    w.covering = ⟨some kind, v⟩ ::
      piecesWithin w.front.length (w.front.length + w.word.length) (w.front.length + v.length)
        (pieces v.getLast? rest) := by
  have hstop : w.front.length < w.front.length + w.word.length :=
    Nat.lt_add_of_pos_right (List.length_pos_of_ne_nil w.isName.ne_nil)
  have hstart : w.front.length < w.front.length + v.length :=
    Nat.lt_add_of_pos_right (List.length_pos_of_ne_nil hne)
  rw [covering_eq, hsplit, pieces_append hne hfound, piecesWithin_cons_of_lt hstop hstart]

/-- The word is the lexeme at its front if it does not go on after an open word. -/
theorem exists_lexeme?_eq
    (h : ∀ s tag, (s, tag) ∈ openWords → s.toList <+: w.word → s.toList = w.word) :
    ∃ tag, lexeme? w.front.getLast? (w.word ++ w.back) = some (.token tag, w.word.length) := by
  by_cases hopen : ∃ s tag, (s, tag) ∈ openWords ∧ s.toList <+: w.word
  · obtain ⟨s, tag, hs, hleads⟩ := hopen
    have hfound := lexeme?_openWord hs w.front.getLast? w.back
    rw [← String.length_toList, h s tag hs hleads] at hfound
    exact ⟨tag, hfound⟩
  · refine ⟨_, lexeme?_name w.isName w.isWordAt_front w.isWordAt_back ?_⟩
    intro s tag hs hleads
    exact hopen ⟨s, tag, hs, hleads⟩

/-- **A word is one token exactly when it does not go on after an open word.** -/
theorem isWhole_iff : w.IsWhole ↔
    ∀ s tag, (s, tag) ∈ openWords → s.toList <+: w.word → s.toList = w.word := by
  constructor
  · rintro ⟨tag', hwhole⟩ s tag hs ⟨tail, htail⟩
    have hsplit : w.word ++ w.back = s.toList ++ (tail ++ w.back) := by
      rw [← htail, List.append_assoc]
    have hfound := lexeme?_openWord hs w.front.getLast? (tail ++ w.back)
    rw [← String.length_toList] at hfound
    have hcons := w.covering_eq_cons (isName_openWord hs).ne_nil hsplit hfound
    -- the open word is the first piece of the word, and the word its only piece
    have hfirst := (List.cons.inj (hwhole.symm.trans hcons)).1
    exact (congrArg Piece.text hfirst).symm
  · intro h
    obtain ⟨tag, hfound⟩ := w.exists_lexeme?_eq h
    refine ⟨tag, ?_⟩
    rw [w.covering_eq_cons w.isName.ne_nil rfl hfound, piecesWithin_of_le (Nat.le_refl _)]

end WordIn

/-! ### Names that hold an open word -/

attribute [local instance] decidableForallMem

/-- A name that goes on after an open word. -/
def wantedOutput : WordIn "output(output_desire);" where
  front := "output(".toList
  word := "output_desire".toList
  back := ");".toList
  toList_eq := by decide
  isName := by decide
  isWordAt_front := by decide
  isWordAt_back := by decide
  hides_eq_false := by decide +kernel

/-- The name is cut into the open word and the rest. -/
theorem not_isWhole_wantedOutput : ¬ wantedOutput.IsWhole := by
  rintro ⟨tag, hwhole⟩
  have hcut : wantedOutput.covering =
      [⟨some (.token .output), "output".toList⟩, ⟨some (.token .ident), "_desire".toList⟩] := by
    decide +kernel
  simp [hcut] at hwhole

/-- A name that ends with an open word, after a quoted text and before a comment that hold one. -/
def wishedOutput : WordIn "\"send_it\"+desire_output#send_it" where
  front := "\"send_it\"+".toList
  word := "desire_output".toList
  back := "#send_it".toList
  toList_eq := by decide
  isName := by decide
  isWordAt_front := by decide
  isWordAt_back := by decide
  hides_eq_false := by decide +kernel

theorem isWhole_iff_wishedOutput : wishedOutput.IsWhole := by
  have hnone : ∀ p ∈ openWords, ¬ p.1.toList <+: wishedOutput.word := by decide
  refine wishedOutput.isWhole_iff.mpr ?_
  intro s tag hs hleads
  exact absurd hleads (hnone (s, tag) hs)

end SeqPar
