import Mathlib.Data.List.DropRight
import Mathlib.Data.List.Forall2
import SeqPar.Layout
import SeqPar.Proofs.Boundaries

/-!
# Segments of a text

The steps of the standard layout that work line by line move blanks and line feeds around and add
semicolons, and do nothing else.  To say so, a text is cut into its **segments**: the parts between
line feeds and semicolons and after opening braces, without the blanks around them and without those
that are blank.  A segment knows whether a semicolon ends it.  The line steps keep the segments, and
at most put a semicolon to the end of some that had none.

A text is its segments with blanks and semicolons in between, so what is known of the segments of
a text can be read off the text itself.  In particular the segments decide the **runs** of a text,
which are its parts between blanks, semicolons and braces.

## Main definitions

* `Segment`, `segments` — the segments of a text.
* `Completes xs ys` — the same segments, with semicolons added.
* `runs` — the runs of a text.

## Main results

* `completes_standardiseLines` — **the line steps keep the segments and add semicolons.**
* `Completes.runs_eq` — so they keep the runs.
* `exists_of_segmentsFrom_eq_append` — a segment with its semicolon, found again in the text.
-/

namespace SeqPar.Layout

open SeqPar.Text

attribute [local instance] decidableForallMem

/-! ### Blanks around a text -/

theorem trimRight_eq_rdropWhile (cs : List Char) : trimRight cs = cs.rdropWhile isBlank :=
  rfl

theorem trim_blank_append {l : List Char} (hl : ∀ c ∈ l, isBlank c = true) (cs : List Char) :
    trim (l ++ cs) = trim cs := by
  rw [trim, trimLeft, List.dropWhile_append_of_pos hl]
  rfl

theorem trimRight_append_blank {r : List Char} (hr : ∀ c ∈ r, isBlank c = true) (cs : List Char) :
    trimRight (cs ++ r) = trimRight cs := by
  rw [trimRight, List.reverse_append, List.dropWhile_append_of_pos (by simpa using hr)]
  rfl

theorem trim_append_blank {r : List Char} (hr : ∀ c ∈ r, isBlank c = true) (cs : List Char) :
    trim (cs ++ r) = trim cs := by
  rw [trim, trimLeft, List.dropWhile_append]
  split
  · rename_i hempty
    rw [List.isEmpty_iff] at hempty
    rw [List.dropWhile_eq_nil_iff.mpr hr, trim, trimLeft, hempty]
  · rw [trimRight_append_blank hr]
    rfl

/-- A text is its trimmed form with blanks around it. -/
theorem exists_trim (cs : List Char) : ∃ l r, (∀ c ∈ l, isBlank c = true) ∧
    (∀ c ∈ r, isBlank c = true) ∧ cs = l ++ trim cs ++ r := by
  refine ⟨cs.takeWhile isBlank, (trimLeft cs).rtakeWhile isBlank,
    fun c hc => List.mem_takeWhile_imp hc, fun c hc => List.mem_rtakeWhile_imp hc, ?_⟩
  rw [List.append_assoc, trim, trimRight_eq_rdropWhile, List.rdropWhile_append_rtakeWhile, trimLeft,
    List.takeWhile_append_dropWhile]

theorem mem_trim {cs : List Char} {c : Char} (hc : c ∈ cs) (hblank : isBlank c = false) :
    c ∈ trim cs := by
  obtain ⟨l, r, hl, hr, hcs⟩ := exists_trim cs
  rw [hcs, List.mem_append, List.mem_append] at hc
  rcases hc with (hleft | hmid) | hright
  · simp [hl c hleft] at hblank
  · exact hmid
  · simp [hr c hright] at hblank

theorem mem_of_mem_trim {cs : List Char} {c : Char} (hc : c ∈ trim cs) : c ∈ cs := by
  obtain ⟨l, r, -, -, hcs⟩ := exists_trim cs
  rw [hcs]
  simp [hc]

theorem trim_eq_nil_iff (cs : List Char) : trim cs = [] ↔ ∀ c ∈ cs, isBlank c = true := by
  constructor
  · intro hnil
    obtain ⟨l, r, hl, hr, hcs⟩ := exists_trim cs
    rw [hnil, List.append_nil] at hcs
    intro c hc
    rw [hcs, List.mem_append] at hc
    exact hc.elim (hl c) (hr c)
  · intro hblank
    rw [trim, trimLeft, List.dropWhile_eq_nil_iff.mpr hblank]
    rfl

/-- A text that neither starts nor ends with a blank is trimmed. -/
theorem trim_eq_self {cs : List Char} (hhead : ∀ c ∈ cs.head?, isBlank c = false)
    (hlast : ∀ c ∈ cs.getLast?, isBlank c = false) : trim cs = cs := by
  have hleft : trimLeft cs = cs := by
    cases cs with
    | nil => rfl
    | cons c cs => simp [trimLeft, hhead c rfl]
  rw [trim, hleft, trimRight_eq_rdropWhile, List.rdropWhile_eq_self_iff]
  intro hne
  simp [hlast _ (List.getLast?_eq_getLast_of_ne_nil hne)]

/-! ### Segments -/

/-- A part of a text, without the blanks around it. -/
structure Segment where
  /-- The characters of the segment. -/
  text : List Char
  /-- Whether a semicolon ends the segment. -/
  ended : Bool
  deriving DecidableEq, Repr

/-- The segment that a part of a text is; none if the part is blank. -/
def segment (part : List Char) (ended : Bool) : List Segment :=
  if (trim part).isEmpty then [] else [⟨trim part, ended⟩]

/-- Whether a segment ends at a character. -/
def isMark (c : Char) : Bool :=
  c == '\n' || c == ';' || c == '\x7b'

/-- What a mark adds to the segment that it ends: an opening brace belongs to its segment. -/
def kept (c : Char) : List Char :=
  if c == '\x7b' then [c] else []

/-- The segments of a text after a part that belongs to the first of them. -/
def segmentsFrom (part : List Char) : List Char → List Segment
  | [] => segment part false
  | c :: cs =>
    if isMark c then segment (part ++ kept c) (c == ';') ++ segmentsFrom [] cs
    else segmentsFrom (part ++ [c]) cs

/-- The segments of a text. -/
def segments (cs : List Char) : List Segment :=
  segmentsFrom [] cs

theorem isMark_iff {c : Char} : isMark c = true ↔ c = '\n' ∨ c = ';' ∨ c = '\x7b' := by
  simp [isMark, or_assoc]

theorem eq_lineFeed_of_isMark {c : Char} (hblank : isBlank c = true) (hc : isMark c = true) :
    c = '\n' := by
  rcases isMark_iff.mp hc with rfl | rfl | rfl
  · rfl
  · exact absurd hblank (by decide)
  · exact absurd hblank (by decide)

theorem segment_blank {part : List Char} (h : ∀ c ∈ part, isBlank c = true) (ended : Bool) :
    segment part ended = [] := by
  simp [segment, (trim_eq_nil_iff part).mpr h]

theorem segment_blank_append {l : List Char} (hl : ∀ c ∈ l, isBlank c = true) (part : List Char)
    (ended : Bool) : segment (l ++ part) ended = segment part ended := by
  rw [segment, segment, trim_blank_append hl]

theorem segment_append_blank {r : List Char} (hr : ∀ c ∈ r, isBlank c = true) (part : List Char)
    (ended : Bool) : segment (part ++ r) ended = segment part ended := by
  rw [segment, segment, trim_append_blank hr]

theorem segment_cases (part : List Char) (ended : Bool) :
    segment part ended = [] ∧ (∀ c ∈ part, isBlank c = true) ∨
      segment part ended = [⟨trim part, ended⟩] := by
  rw [segment]
  split
  · rename_i hempty
    exact .inl ⟨rfl, (trim_eq_nil_iff part).mp (List.isEmpty_iff.mp hempty)⟩
  · exact .inr rfl

@[simp] theorem segments_nil : segments [] = [] :=
  rfl

theorem segmentsFrom_mark {c : Char} (hc : isMark c = true) (part cs : List Char) :
    segmentsFrom part (c :: cs) = segment (part ++ kept c) (c == ';') ++ segments cs := by
  rw [segmentsFrom, if_pos hc]
  rfl

theorem segmentsFrom_other {c : Char} (hc : isMark c = false) (part cs : List Char) :
    segmentsFrom part (c :: cs) = segmentsFrom (part ++ [c]) cs := by
  rw [segmentsFrom, if_neg (by simp [hc])]

/-- Text without marks only prolongs the part before it. -/
theorem segmentsFrom_append_of_unmarked {xs : List Char} (hxs : ∀ c ∈ xs, isMark c = false)
    (part cs : List Char) : segmentsFrom part (xs ++ cs) = segmentsFrom (part ++ xs) cs := by
  induction xs generalizing part with
  | nil => simp
  | cons c xs ih =>
    rw [List.forall_mem_cons] at hxs
    rw [List.cons_append, segmentsFrom_other hxs.1, ih hxs.2, List.append_assoc]
    rfl

/-- After a mark the segments start afresh. -/
theorem segmentsFrom_append_mark {c : Char} (hc : isMark c = true) (part xs cs : List Char) :
    segmentsFrom part (xs ++ c :: cs) = segmentsFrom part (xs ++ [c]) ++ segments cs := by
  induction xs generalizing part with
  | nil =>
    rw [List.nil_append, List.nil_append, segmentsFrom_mark hc, segmentsFrom_mark hc]
    simp
  | cons d xs ih =>
    cases hd : isMark d with
    | true =>
      simp only [List.cons_append]
      rw [segmentsFrom_mark hd, segmentsFrom_mark hd, segments, segments, ih, List.append_assoc]
    | false =>
      simp only [List.cons_append]
      rw [segmentsFrom_other hd, segmentsFrom_other hd, ih]

/-- What has the same segments after every part has the same segments after every text. -/
theorem segmentsFrom_append_congr {cs cs' : List Char}
    (h : ∀ part, segmentsFrom part cs = segmentsFrom part cs') (part xs : List Char) :
    segmentsFrom part (xs ++ cs) = segmentsFrom part (xs ++ cs') := by
  induction xs generalizing part with
  | nil => exact h part
  | cons d xs ih =>
    rw [List.cons_append, List.cons_append, segmentsFrom, segmentsFrom, ih, ih]

theorem segmentsFrom_blank_append {l : List Char} (hl : ∀ c ∈ l, isBlank c = true)
    (part cs : List Char) : segmentsFrom (l ++ part) cs = segmentsFrom part cs := by
  induction cs generalizing part with
  | nil => exact segment_blank_append hl part false
  | cons c cs ih =>
    rw [segmentsFrom, segmentsFrom, List.append_assoc, segment_blank_append hl, List.append_assoc, ih]

theorem segmentsFrom_of_blank {l : List Char} (hl : ∀ c ∈ l, isBlank c = true) (cs : List Char) :
    segmentsFrom l cs = segments cs := by
  rw [← List.append_nil l, segmentsFrom_blank_append hl, segments]

/-- Blanks at the start make no difference. -/
theorem segments_blank_append {l : List Char} (hl : ∀ c ∈ l, isBlank c = true) (cs : List Char) :
    segments (l ++ cs) = segments cs := by
  induction l with
  | nil => rfl
  | cons c l ih =>
    rw [List.forall_mem_cons] at hl
    rw [List.cons_append, segments]
    cases hc : isMark c with
    | true =>
      obtain rfl := eq_lineFeed_of_isMark hl.1 hc
      rw [segmentsFrom_mark hc, ← ih hl.2]
      rfl
    | false =>
      rw [segmentsFrom_other hc, segmentsFrom_of_blank (by simpa using hl.1), ih hl.2]

/-- Blanks at the end make no difference. -/
theorem segmentsFrom_append_blank {r : List Char} (hr : ∀ c ∈ r, isBlank c = true)
    (part cs : List Char) : segmentsFrom part (cs ++ r) = segmentsFrom part cs := by
  have hend : ∀ part, segmentsFrom part r = segmentsFrom part [] := by
    induction r with
    | nil => intro part; rfl
    | cons c r ih =>
      rw [List.forall_mem_cons] at hr
      intro part
      cases hc : isMark c with
      | true =>
        obtain rfl := eq_lineFeed_of_isMark hr.1 hc
        rw [segmentsFrom_mark hc, segments, ih hr.2]
        simp [kept, segmentsFrom, segment_blank]
      | false =>
        rw [segmentsFrom_other hc, ih hr.2]
        exact segment_append_blank (by simpa using hr.1) part false
  simpa using segmentsFrom_append_congr hend part cs

/-- Blanks before a line feed or semicolon make no difference. -/
theorem segmentsFrom_blank_mark {r : List Char} (hr : ∀ c ∈ r, isBlank c = true)
    (hmark : ∀ c ∈ r, isMark c = false) {c : Char} (hc : isMark c = true) (hkept : kept c = [])
    (part xs cs : List Char) :
    segmentsFrom part (xs ++ (r ++ c :: cs)) = segmentsFrom part (xs ++ c :: cs) := by
  refine segmentsFrom_append_congr (fun part => ?_) part xs
  rw [segmentsFrom_append_of_unmarked hmark, segmentsFrom_mark hc, segmentsFrom_mark hc, hkept,
    List.append_nil, List.append_nil, segment_append_blank hr]

theorem mem_append_kept {part : List Char} {d : Char} (hpart : '\x7b' ∉ part)
    (h : '\x7b' ∈ part ++ kept d) : d = '\x7b' := by
  rw [kept] at h
  split at h
  · simpa using ‹(d == '\x7b') = true›
  · exact absurd (by simpa using h) hpart

theorem segments_trim (cs : List Char) : segments (trim cs) = segments cs := by
  obtain ⟨l, r, hl, hr, hcs⟩ := exists_trim cs
  conv_rhs => rw [hcs, List.append_assoc, segments_blank_append hl]
  exact (segmentsFrom_append_blank hr [] _).symm

/-! ### Added semicolons -/

/-- The segments `ys` are the segments `xs`, with semicolons added to the end of some. -/
def Completes (xs ys : List Segment) : Prop :=
  List.Forall₂ (fun x y => x.text = y.text ∧ (x.ended = true → y.ended = true)) xs ys

theorem Completes.refl (xs : List Segment) : Completes xs xs :=
  List.forall₂_same.mpr fun _ _ => ⟨rfl, id⟩

theorem Completes.of_eq {xs ys : List Segment} (h : xs = ys) : Completes xs ys :=
  h ▸ .refl xs

theorem Completes.trans {xs ys zs : List Segment} (h : Completes xs ys) (h' : Completes ys zs) :
    Completes xs zs := by
  induction h generalizing zs with
  | nil => exact h'
  | cons hxy _ ih =>
    cases h' with
    | cons hyz htail => exact .cons ⟨hxy.1.trans hyz.1, hyz.2 ∘ hxy.2⟩ (ih htail)

theorem Completes.append {xs xs' ys ys' : List Segment} (h : Completes xs xs')
    (h' : Completes ys ys') : Completes (xs ++ ys) (xs' ++ ys') :=
  List.rel_append h h'

theorem Completes.exists_cons {x : Segment} {xs ys : List Segment} (h : Completes (x :: xs) ys) :
    ∃ ended zs, ys = ⟨x.text, ended⟩ :: zs ∧ (x.ended = true → ended = true) ∧ Completes xs zs := by
  cases h with
  | @cons _ y _ zs hhead htail =>
    refine ⟨y.ended, zs, ?_, hhead.2, htail⟩
    rw [hhead.1]

theorem Completes.exists_append {xs xs' ys : List Segment} (h : Completes (xs ++ xs') ys) :
    ∃ zs zs', ys = zs ++ zs' ∧ Completes xs zs ∧ Completes xs' zs' := by
  induction xs generalizing ys with
  | nil => exact ⟨[], ys, rfl, .nil, h⟩
  | cons x xs ih =>
    cases h with
    | cons hhead htail =>
      obtain ⟨zs, zs', rfl, hxs, hxs'⟩ := ih htail
      exact ⟨_ :: zs, zs', rfl, .cons hhead hxs, hxs'⟩

theorem Completes.exists_mem {xs ys : List Segment} (h : Completes xs ys) {y : Segment}
    (hy : y ∈ ys) : ∃ x ∈ xs, x.text = y.text := by
  induction h with
  | nil => simp at hy
  | cons hhead _ ih =>
    rcases List.mem_cons.mp hy with rfl | hmem
    · exact ⟨_, List.mem_cons_self, hhead.1⟩
    · obtain ⟨x, hx, htext⟩ := ih hmem
      exact ⟨x, .tail _ hx, htext⟩

theorem completes_segment (part : List Char) (ended : Bool) :
    Completes (segment part false) (segment part ended) := by
  rw [segment, segment]
  split
  · exact .refl []
  · exact .cons ⟨rfl, by simp⟩ .nil

/-- A semicolon at the end adds one to the last segment at most. -/
theorem completes_append_semicolon (part cs : List Char) :
    Completes (segmentsFrom part cs) (segmentsFrom part (cs ++ [';'])) := by
  induction cs generalizing part with
  | nil =>
    rw [List.nil_append, segmentsFrom_mark (by decide), segments_nil, List.append_nil]
    exact (completes_segment part true).trans (.of_eq (by simp [kept]))
  | cons c cs ih =>
    rw [List.cons_append, segmentsFrom, segmentsFrom]
    split
    · exact (Completes.refl _).append (ih [])
    · exact ih _

/-! ### Lines -/

theorem join_cons {mark piece : List Char} {rest : List (List Char)} (h : rest ≠ []) :
    join mark (piece :: rest) = piece ++ mark ++ join mark rest := by
  cases rest with
  | nil => contradiction
  | cons next rest => rfl

theorem splitAt_ne_nil (mark : Char) (cs : List Char) : splitAt mark cs ≠ [] := by
  cases cs with
  | nil => simp [splitAt]
  | cons c cs =>
    rw [splitAt]
    split
    · simp
    · split <;> simp

theorem join_splitAt (mark : Char) (cs : List Char) : join [mark] (splitAt mark cs) = cs := by
  induction cs with
  | nil => rfl
  | cons c cs ih =>
    rw [splitAt]
    split
    · rename_i hc
      rw [join_cons (splitAt_ne_nil mark cs), ih, beq_iff_eq.mp hc]
      rfl
    · cases hpieces : splitAt mark cs with
      | nil => exact absurd hpieces (splitAt_ne_nil mark cs)
      | cons piece rest =>
        rw [hpieces] at ih
        cases rest with
        | nil => simpa [join] using ih
        | cons next rest => simpa [join] using ih

/-- The pieces between the occurrences of a character do not hold it, and hold nothing new. -/
theorem mem_of_mem_splitAt {mark : Char} {cs piece : List Char} (h : piece ∈ splitAt mark cs) :
    ∀ c ∈ piece, c ∈ cs ∧ c ≠ mark := by
  induction cs generalizing piece with
  | nil => simp_all [splitAt]
  | cons d cs ih =>
    rw [splitAt] at h
    intro c hc
    split at h
    · rcases List.mem_cons.mp h with rfl | hmem
      · simp at hc
      · exact ⟨.tail d (ih hmem c hc).1, (ih hmem c hc).2⟩
    · rename_i hd
      cases hpieces : splitAt mark cs with
      | nil => exact absurd hpieces (splitAt_ne_nil mark cs)
      | cons first rest =>
        rw [hpieces] at h ih
        rcases List.mem_cons.mp h with rfl | hmem
        · rcases List.mem_cons.mp hc with rfl | hfirst
          · exact ⟨.head cs, by simpa using hd⟩
          · exact ⟨.tail d (ih (.head rest) c hfirst).1, (ih (.head rest) c hfirst).2⟩
        · exact ⟨.tail d (ih (.tail first hmem) c hc).1, (ih (.tail first hmem) c hc).2⟩

theorem segments_append_lineFeed (xs cs : List Char) :
    segments (xs ++ '\n' :: cs) = segments xs ++ segments cs := by
  rw [segments, segmentsFrom_append_mark (by decide), segmentsFrom_append_blank (by decide)]
  rfl

theorem segments_append_semicolon (xs cs : List Char) :
    segments (xs ++ ';' :: cs) = segments (xs ++ [';']) ++ segments cs :=
  segmentsFrom_append_mark (by decide) [] xs cs

theorem segments_unlines (ls : List (List Char)) : segments (unlines ls) = ls.flatMap segments := by
  induction ls with
  | nil => rfl
  | cons l ls ih =>
    cases ls with
    | nil => simp [unlines, join]
    | cons l' ls =>
      rw [unlines, join_cons (by simp), List.append_assoc, List.flatMap_cons, ← ih]
      exact segments_append_lineFeed l _

theorem flatMap_segments_lines (cs : List Char) : (lines cs).flatMap segments = segments cs := by
  rw [← segments_unlines, unlines, lines, join_splitAt]

/-! ### The line steps -/

/-- A part of a line, laid out as a line of its own, has the segments of the part with a
semicolon. -/
theorem segments_partLine {part : List Char} (hline : '\n' ∉ part) :
    (partLine part).flatMap segments = segments (part ++ [';']) := by
  obtain ⟨l, r, hl, hr, hpart⟩ := exists_trim part
  have hmark : ∀ c ∈ r, isMark c = false := by
    intro c hc
    by_contra hmark
    obtain rfl := eq_lineFeed_of_isMark (hr c hc) (by simpa using hmark)
    exact hline (by rw [hpart]; simp [hc])
  have htrim : segments (part ++ [';']) = segments (trim part ++ [';']) := by
    conv_lhs => rw [hpart, List.append_assoc, List.append_assoc, segments_blank_append hl]
    exact segmentsFrom_blank_mark hr hmark (by decide) rfl [] _ []
  rw [partLine]
  split
  · have hindent : ∀ c ∈ List.replicate (part.length - (trimLeft part).length) ' ',
        isBlank c = true := by
      intro c hc
      rw [List.eq_of_mem_replicate hc]
      decide
    rw [List.flatMap_singleton, List.append_assoc, segments_blank_append hindent, htrim]
  · split
    · rename_i hempty
      rw [htrim, List.isEmpty_iff.mp hempty]
      rfl
    · simp

theorem completes_parts {parts : List (List Char)} (hline : ∀ part ∈ parts, '\n' ∉ part) :
    Completes (segments (join [';'] parts)) ((parts.flatMap partLine).flatMap segments) := by
  induction parts with
  | nil => exact .refl []
  | cons part parts ih =>
    rw [List.forall_mem_cons] at hline
    rw [List.flatMap_cons, List.flatMap_append, segments_partLine hline.1]
    by_cases hparts : parts = []
    · rw [hparts, List.flatMap_nil, List.flatMap_nil, List.append_nil]
      exact completes_append_semicolon [] part
    · rw [join_cons hparts, List.append_assoc]
      exact (Completes.of_eq (segments_append_semicolon part _)).trans
        ((Completes.refl _).append (ih hline.2))

theorem completes_splitLine {line : List Char} (hline : '\n' ∉ line) :
    Completes (segments line) ((splitLine line).flatMap segments) := by
  rw [splitLine]
  split
  · have hparts : Completes (segments (join [';'] (splitAt ';' line)))
        (((splitAt ';' line).flatMap partLine).flatMap segments) :=
      completes_parts fun part hpart hmem => hline (mem_of_mem_splitAt hpart _ hmem).1
    rwa [join_splitAt] at hparts
  · simp [Completes.refl]

theorem Completes.flatMap {f : List Char → List (List Char)} {ls : List (List Char)}
    (h : ∀ l ∈ ls, Completes (segments l) ((f l).flatMap segments)) :
    Completes (ls.flatMap segments) ((ls.flatMap f).flatMap segments) := by
  induction ls with
  | nil => exact .refl []
  | cons l ls ih =>
    rw [List.forall_mem_cons] at h
    rw [List.flatMap_cons, List.flatMap_cons, List.flatMap_append]
    exact h.1.append (ih h.2)

theorem completes_splitAssignments (cs : List Char) :
    Completes (segments cs) (segments (splitAssignments cs)) := by
  rw [splitAssignments, segments_unlines, ← flatMap_segments_lines cs]
  refine Completes.flatMap fun line hline => completes_splitLine fun hmem => ?_
  exact (mem_of_mem_splitAt hline _ hmem).2 rfl

theorem completes_terminateLine (line : List Char) :
    Completes (segments line) (segments (terminateLine line)) := by
  simp only [terminateLine]
  split
  · exact .refl _
  · split
    · exact .refl _
    · split
      · exact completes_append_semicolon [] line
      · exact .refl _

theorem completes_terminateAssignments (cs : List Char) :
    Completes (segments cs) (segments (terminateAssignments cs)) := by
  rw [terminateAssignments, segments_unlines, ← flatMap_segments_lines cs, List.map_eq_flatMap]
  exact Completes.flatMap fun line _ => by simpa using completes_terminateLine line

theorem completes_terminated (line : List Char) :
    Completes (segments line) (segments (terminated line)) := by
  rw [terminated]
  split
  · exact .refl _
  · exact completes_append_semicolon [] line

theorem completes_tidyLines (inside : Bool) (ls : List (List Char)) :
    Completes (ls.flatMap segments) ((tidyLines inside ls).flatMap segments) := by
  induction ls generalizing inside with
  | nil => exact .refl []
  | cons raw rest ih =>
    have hsame : Completes (segments raw) (segments (trim raw)) := .of_eq (segments_trim raw).symm
    have hended : Completes (segments raw) (segments (terminated (trim raw))) :=
      hsame.trans (completes_terminated _)
    simp only [tidyLines]
    split
    · exact hsame.append (ih inside)
    · split
      · exact hsame.append (ih true)
      · split
        · exact hsame.append (ih false)
        · split
          · exact hended.append (ih inside)
          · split
            · exact hended.append (ih inside)
            · exact hsame.append (ih inside)

theorem completes_tidyTraining (cs : List Char) :
    Completes (segments cs) (segments (tidyTraining cs)) := by
  rw [tidyTraining, segments_unlines, ← flatMap_segments_lines cs]
  exact completes_tidyLines false (lines cs)

/-- **The line steps keep the segments and add semicolons.** -/
theorem completes_standardiseLines (cs : List Char) :
    Completes (segments cs) (segments (standardiseLines cs)) := by
  simp only [standardiseLines]
  split
  · exact (completes_splitAssignments cs).trans (completes_tidyTraining _)
  · exact (completes_splitAssignments cs).trans (completes_terminateAssignments _)

/-- Line breaks of two characters do not matter to the segments. -/
theorem segmentsFrom_substitute_lineBreaks (part cs : List Char) :
    segmentsFrom part (substitute ['\r', '\n'] ['\n'] cs) = segmentsFrom part cs := by
  induction hlen : cs.length using Nat.strongRecOn generalizing part cs with
  | ind n ih =>
    subst hlen
    cases cs with
    | nil => rfl
    | cons c cs =>
      rw [substitute, substituteFrom]
      split
      · rename_i hbreak
        obtain ⟨rest, hrest⟩ := List.isPrefixOf_iff_prefix.mp hbreak
        obtain ⟨rfl, rfl⟩ := List.cons.inj hrest
        have hblank : segmentsFrom part ('\r' :: '\n' :: rest) = segmentsFrom part ('\n' :: rest) :=
          segmentsFrom_blank_mark (r := ['\r']) (by decide) (by decide) (by decide) rfl part [] rest
        change segmentsFrom part ('\n' :: substitute ['\r', '\n'] ['\n'] rest) =
          segmentsFrom part ('\r' :: '\n' :: rest)
        rw [hblank, segmentsFrom_mark (by decide), segmentsFrom_mark (by decide), segments, segments,
          ih _ (by grind) _ _ rfl]
      · have hrest : ∀ part, segmentsFrom part (substituteFrom ['\r', '\n'] ['\n'] 0 cs) =
            segmentsFrom part cs := fun part => ih _ (by simp) part cs rfl
        rw [segmentsFrom, segmentsFrom, hrest, hrest]

/-! ### Runs -/

/-- The run that a part of a text is; none if the part is empty. -/
def wholeRun (run : List Char) : List (List Char) :=
  if run.isEmpty then [] else [run]

/-- The runs of a text after a part that belongs to the first of them. -/
def runsFrom (run : List Char) : List Char → List (List Char)
  | [] => wholeRun run
  | c :: cs => if isLayout c then wholeRun run ++ runsFrom [] cs else runsFrom (run ++ [c]) cs

/-- The runs of a text: its parts between blanks, semicolons and braces. -/
def runs (cs : List Char) : List (List Char) :=
  runsFrom [] cs

@[simp] theorem runs_nil : runs [] = [] :=
  rfl

theorem runsFrom_layout {c : Char} (hc : isLayout c = true) (run cs : List Char) :
    runsFrom run (c :: cs) = wholeRun run ++ runs cs := by
  rw [runsFrom, if_pos hc]
  rfl

theorem runsFrom_other {c : Char} (hc : isLayout c = false) (run cs : List Char) :
    runsFrom run (c :: cs) = runsFrom (run ++ [c]) cs := by
  rw [runsFrom, if_neg (by simp [hc])]

/-- After a character of layout the runs start afresh. -/
theorem runsFrom_append_layout {c : Char} (hc : isLayout c = true) (run xs cs : List Char) :
    runsFrom run (xs ++ c :: cs) = runsFrom run xs ++ runs cs := by
  induction xs generalizing run with
  | nil => exact runsFrom_layout hc run cs
  | cons d xs ih =>
    rw [List.cons_append]
    cases hd : isLayout d with
    | true => rw [runsFrom_layout hd, runsFrom_layout hd, runs, runs, ih, List.append_assoc, runs]
    | false => rw [runsFrom_other hd, runsFrom_other hd, ih]

theorem runs_append_layout {c : Char} (hc : isLayout c = true) (xs cs : List Char) :
    runs (xs ++ c :: cs) = runs xs ++ runs cs :=
  runsFrom_append_layout hc [] xs cs

theorem runs_layout {l : List Char} (hl : ∀ c ∈ l, isLayout c = true) : runs l = [] := by
  induction l with
  | nil => rfl
  | cons c l ih =>
    rw [List.forall_mem_cons] at hl
    rw [runs, runsFrom_layout hl.1, ih hl.2]
    rfl

/-- Blanks around a text make no difference to its runs. -/
theorem runs_trim (cs : List Char) : runs (trim cs) = runs cs := by
  obtain ⟨l, r, hl, hr, hcs⟩ := exists_trim cs
  have hleft : runs (l ++ trim cs ++ r) = runs (trim cs ++ r) := by
    rcases List.eq_nil_or_concat l with rfl | ⟨l, c, rfl⟩
    · rfl
    · have hl' : ∀ c ∈ l, isLayout c = true := fun c hc => isLayout_of_isBlank (hl c (by simp [hc]))
      rw [List.concat_eq_append, List.append_assoc, List.append_assoc, List.singleton_append,
        runs_append_layout (isLayout_of_isBlank (hl c (by simp))), runs_layout hl', List.nil_append]
  have hright : runs (trim cs ++ r) = runs (trim cs) := by
    cases r with
    | nil => rw [List.append_nil]
    | cons c r =>
      rw [List.forall_mem_cons] at hr
      rw [runs_append_layout (isLayout_of_isBlank hr.1),
        runs_layout fun c hc => isLayout_of_isBlank (hr.2 c hc), List.append_nil]
  conv_rhs => rw [hcs, hleft, hright]

theorem runs_segment (part : List Char) (ended : Bool) :
    (segment part ended).flatMap (runs ·.text) = runs part := by
  rcases segment_cases part ended with ⟨hnil, hblank⟩ | hone
  · rw [hnil, runs_layout fun c hc => isLayout_of_isBlank (hblank c hc)]
    rfl
  · rw [hone, List.flatMap_singleton, runs_trim]

theorem isLayout_of_isMark {c : Char} (hc : isMark c = true) : isLayout c = true := by
  rcases isMark_iff.mp hc with rfl | rfl | rfl
  · decide
  · decide
  · decide

/-- The runs of a text are those of its segments. -/
theorem flatMap_runs_segmentsFrom (part cs : List Char) :
    (segmentsFrom part cs).flatMap (runs ·.text) = runs (part ++ cs) := by
  induction cs generalizing part with
  | nil =>
    rw [List.append_nil]
    exact runs_segment part false
  | cons d cs ih =>
    cases hd : isMark d with
    | false => rw [segmentsFrom_other hd, ih, List.append_assoc, List.singleton_append]
    | true =>
      have hkept : runs (part ++ kept d) = runs part := by
        rw [kept]
        split
        · rw [runs_append_layout (isLayout_of_isMark hd), runs_nil, List.append_nil]
        · rw [List.append_nil]
      rw [segmentsFrom_mark hd, List.flatMap_append, runs_segment, hkept, segments, ih,
        List.nil_append, runs_append_layout (isLayout_of_isMark hd)]

/-- Added semicolons make no difference to the runs. -/
theorem Completes.runs_eq {cs cs' : List Char} (h : Completes (segments cs) (segments cs')) :
    runs cs = runs cs' := by
  have hruns : ∀ {xs ys : List Segment}, Completes xs ys →
      xs.flatMap (runs ·.text) = ys.flatMap (runs ·.text) := by
    intro xs ys hxy
    induction hxy with
    | nil => rfl
    | cons hhead _ ih => rw [List.flatMap_cons, List.flatMap_cons, hhead.1, ih]
  have hcs := hruns h
  rwa [segments, segments, flatMap_runs_segmentsFrom, flatMap_runs_segmentsFrom] at hcs

theorem runsFrom_append_of_forall {word : List Char} (hword : ∀ c ∈ word, isLayout c = false)
    (run cs : List Char) : runsFrom run (word ++ cs) = runsFrom (run ++ word) cs := by
  induction word generalizing run with
  | nil => simp
  | cons c word ih =>
    rw [List.forall_mem_cons] at hword
    rw [List.cons_append, runsFrom_other hword.1, ih hword.2, List.append_assoc]
    rfl

/-- A word before a character of layout stands at the end of a run. -/
theorem exists_run_of_append_layout {word : List Char} (hne : word ≠ [])
    (hword : ∀ c ∈ word, isLayout c = false) {c : Char} (hc : isLayout c = true)
    (run before after : List Char) :
    ∃ r ∈ runsFrom run (before ++ (word ++ c :: after)), word <:+ r := by
  induction before generalizing run with
  | nil =>
    refine ⟨run ++ word, ?_, List.suffix_append run word⟩
    rw [List.nil_append, runsFrom_append_of_forall hword, runsFrom_layout hc, wholeRun,
      if_neg (by simp [hne])]
    exact List.mem_append_left _ List.mem_cons_self
  | cons d before ih =>
    rw [List.cons_append]
    cases hd : isLayout d with
    | false =>
      rw [runsFrom_other hd]
      exact ih _
    | true =>
      obtain ⟨r, hr, hsuffix⟩ := ih []
      rw [runsFrom_layout hd]
      exact ⟨r, List.mem_append_right _ hr, hsuffix⟩

/-! ### From segments back to the text -/

theorem mem_segment {part : List Char} {c : Char} (hc : c ∈ part) (hblank : isBlank c = false)
    (ended : Bool) : ∃ s ∈ segment part ended, c ∈ s.text := by
  have htrim := mem_trim hc hblank
  refine ⟨⟨trim part, ended⟩, ?_, htrim⟩
  rw [segment, if_neg (by simpa using List.ne_nil_of_mem htrim)]
  exact .head []

/-- A character that is neither blank nor a semicolon stands in a segment. -/
theorem exists_mem_segmentsFrom {part cs : List Char} {c : Char} (hc : c ∈ part ++ cs)
    (hblank : isBlank c = false) (hsemi : c ≠ ';') : ∃ s ∈ segmentsFrom part cs, c ∈ s.text := by
  induction cs generalizing part with
  | nil => exact mem_segment (by simpa using hc) hblank false
  | cons d cs ih =>
    cases hd : isMark d with
    | false =>
      rw [segmentsFrom_other hd]
      exact ih (by simpa using hc)
    | true =>
      rw [segmentsFrom_mark hd]
      by_cases hrest : c ∈ cs
      · have hsegment : ∃ s ∈ segmentsFrom [] cs, c ∈ s.text := ih hrest
        obtain ⟨s, hs, hmem⟩ := hsegment
        exact ⟨s, List.mem_append_right _ hs, hmem⟩
      · have hpart : c ∈ part ++ kept d := by
          rcases List.mem_append.mp hc with hpart | htail
          · exact List.mem_append_left _ hpart
          · rcases List.mem_cons.mp htail with rfl | htail
            · rcases isMark_iff.mp hd with rfl | rfl | rfl
              · exact absurd hblank (by decide)
              · contradiction
              · simp [kept]
            · exact absurd htail hrest
        obtain ⟨s, hs, hmem⟩ := mem_segment hpart hblank (d == ';')
        exact ⟨s, List.mem_append_left _ hs, hmem⟩

theorem infix_of_mem_segment {part : List Char} {ended : Bool} {s : Segment}
    (h : s ∈ segment part ended) : s.text <:+: part := by
  obtain ⟨l, r, -, -, hpart⟩ := exists_trim part
  rw [segment] at h
  split at h
  · simp at h
  · rw [List.mem_singleton.mp h]
    exact ⟨l, r, hpart.symm⟩

/-- A segment stands in its text. -/
theorem infix_of_mem_segmentsFrom {part cs : List Char} {s : Segment}
    (h : s ∈ segmentsFrom part cs) : s.text <:+: part ++ cs := by
  induction cs generalizing part with
  | nil => simpa using infix_of_mem_segment h
  | cons d cs ih =>
    cases hd : isMark d with
    | false =>
      rw [segmentsFrom_other hd] at h
      simpa using ih h
    | true =>
      rw [segmentsFrom_mark hd, List.mem_append] at h
      rcases h with hpart | hrest
      · refine (infix_of_mem_segment hpart).trans ?_
        rw [kept]
        split
        · exact ⟨[], cs, by simp⟩
        · exact ⟨[], d :: cs, by simp⟩
      · exact (ih hrest).trans ⟨part ++ [d], [], by simp⟩

/-- A character that is neither blank nor a semicolon is not new after semicolons are added. -/
theorem Completes.mem_of_mem {cs cs' : List Char} (h : Completes (segments cs) (segments cs'))
    {c : Char} (hblank : isBlank c = false) (hsemi : c ≠ ';') (hc : c ∈ cs') : c ∈ cs := by
  obtain ⟨y, hy, hytext⟩ := exists_mem_segmentsFrom (List.mem_append_right [] hc) hblank hsemi
  obtain ⟨x, hx, hxtext⟩ := h.exists_mem hy
  exact (infix_of_mem_segmentsFrom hx).subset (hxtext ▸ hytext)

/-- A text that ends with an opening brace is its trimmed form after blanks. -/
theorem exists_trim_brace (part : List Char) : ∃ l, (∀ c ∈ l, isBlank c = true) ∧
    part ++ ['\x7b'] = l ++ trim (part ++ ['\x7b']) := by
  obtain ⟨l, r, hl, hr, hpart⟩ := exists_trim (part ++ ['\x7b'])
  rcases List.eq_nil_or_concat r with rfl | ⟨r, c, rfl⟩
  · exact ⟨l, hl, by simpa using hpart⟩
  · rw [List.concat_eq_append, ← List.append_assoc] at hpart
    have hbrace : '\x7b' = c := by simpa using (List.append_inj' hpart rfl).2
    exact absurd (hr c (by simp)) (by rw [← hbrace]; decide)

/-- A first segment that holds an opening brace stands at the start of its text, after blanks and
semicolons. -/
theorem exists_of_segmentsFrom_eq_cons {part cs : List Char} {s : Segment} {rest : List Segment}
    (hpart : '\x7b' ∉ part) (hs : '\x7b' ∈ s.text) (h : segmentsFrom part cs = s :: rest) :
    ∃ gap tail, part ++ cs = gap ++ s.text ++ tail ∧ segments tail = rest ∧
      ∀ c ∈ gap, isBlank c = true ∨ c = ';' := by
  induction cs generalizing part with
  | nil =>
    -- What is left is one segment of the part, which holds no brace.
    have hmem : s ∈ segment part false := by
      rw [segmentsFrom] at h
      simp [h]
    exact absurd ((infix_of_mem_segment hmem).subset hs) hpart
  | cons d cs ih =>
    cases hd : isMark d with
    | false =>
      have hbrace : '\x7b' ≠ d := by
        rintro rfl
        exact absurd hd (by decide)
      rw [segmentsFrom_other hd] at h
      simpa using ih (by simp [hpart, hbrace]) h
    | true =>
      rw [segmentsFrom_mark hd] at h
      rcases segment_cases (part ++ kept d) (d == ';') with ⟨hnil, hblank⟩ | hone
      · -- Only blanks stand in front of the mark: both belong to the gap.
        rw [hnil, List.nil_append] at h
        obtain ⟨gap, tail, hcs, htail, hgap⟩ := @ih [] (by simp) h
        refine ⟨part ++ d :: gap, tail, ?_, htail, ?_⟩
        · rw [List.nil_append] at hcs
          simp [hcs]
        · intro c hc
          rw [List.mem_append, List.mem_cons] at hc
          rcases hc with hc | rfl | hc
          · exact .inl (hblank c (List.mem_append_left _ hc))
          · rcases isMark_iff.mp hd with rfl | rfl | rfl
            · exact .inl (by decide)
            · exact .inr rfl
            · exact absurd (hblank '\x7b' (by simp [kept])) (by decide)
          · exact hgap c hc
      · -- This is the segment, so the mark is its brace.
        rw [hone, List.singleton_append, List.cons.injEq] at h
        obtain ⟨rfl, hrest⟩ := h
        obtain rfl : d = '\x7b' := mem_append_kept hpart (mem_of_mem_trim hs)
        obtain ⟨l, hl, htrim⟩ := exists_trim_brace part
        refine ⟨l, cs, ?_, hrest, fun c hc => .inl (hl c hc)⟩
        rw [← List.singleton_append, ← List.append_assoc, htrim]
        rfl

/-- A segment with its semicolon, found again in the text: before it stands a text with the segments
before, which ends where a segment may end, and after it blanks and the semicolon. -/
theorem exists_of_segmentsFrom_eq_append {part cs : List Char} {xs rest : List Segment} {s : Segment}
    (hpart : ∀ c ∈ part, isMark c = false) (hs : s.ended = true)
    (h : segmentsFrom part cs = xs ++ s :: rest) :
    ∃ front blanks tail, part ++ cs = front ++ s.text ++ blanks ++ ';' :: tail ∧
      segments front = xs ∧ segments tail = rest ∧ (∀ c ∈ blanks, isBlank c = true) ∧
      ∀ c ∈ front.getLast?, isBlank c = true ∨ isMark c = true := by
  induction cs generalizing part xs with
  | nil =>
    rw [segmentsFrom] at h
    rcases segment_cases part false with ⟨hnil, -⟩ | hone
    · simp [hnil] at h
    · have hmem : s ∈ segment part false := by simp [h]
      rw [hone, List.mem_singleton] at hmem
      simp [hmem] at hs
  | cons d cs ih =>
    cases hd : isMark d with
    | false =>
      rw [segmentsFrom_other hd] at h
      simpa using ih (by simpa [or_imp, forall_and] using ⟨hpart, hd⟩) h
    | true =>
      rw [segmentsFrom_mark hd] at h
      -- a segment before this mark, or the segment that this mark ends
      have hcases : (∃ xs', xs = segment (part ++ kept d) (d == ';') ++ xs' ∧
          segments cs = xs' ++ s :: rest) ∨
          xs = [] ∧ s = ⟨trim (part ++ kept d), d == ';'⟩ ∧ segments cs = rest := by
        rcases segment_cases (part ++ kept d) (d == ';') with ⟨hnil, -⟩ | hone
        · exact .inl ⟨xs, by simp [hnil], by simpa [hnil] using h⟩
        · rw [hone] at h ⊢
          cases xs with
          | nil =>
            obtain ⟨hhead, htail⟩ := List.cons.inj h
            exact .inr ⟨rfl, hhead.symm, htail⟩
          | cons x xs =>
            obtain ⟨rfl, htail⟩ := List.cons.inj h
            exact .inl ⟨xs, rfl, htail⟩
      rcases hcases with ⟨xs', rfl, hcs⟩ | ⟨rfl, rfl, hrest⟩
      · obtain ⟨front, blanks, tail, htext, hfront, htail, hblanks, hlast⟩ := @ih [] xs' (by simp) hcs
        rw [List.nil_append] at htext
        refine ⟨part ++ d :: front, blanks, tail, by simp [htext], ?_, htail, hblanks, ?_⟩
        · rw [segments, segmentsFrom_append_of_unmarked hpart, List.nil_append, segmentsFrom_mark hd,
            hfront]
        · cases front with
          | nil => simp [hd]
          | cons a front => simpa using hlast
      · have hsemi : d = ';' := by simpa using hs
        subst hsemi
        obtain ⟨l, r, hl, hr, htrim⟩ := exists_trim part
        refine ⟨l, r, cs, ?_, ?_, hrest, hr, fun c hc => .inl (hl c (List.mem_of_getLast? hc))⟩
        · conv_lhs => rw [htrim]
          simp [kept]
        · simpa using segments_blank_append hl []

end SeqPar.Layout
