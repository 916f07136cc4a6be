import SeqPar.Proofs.Enclosing
import SeqPar.Proofs.Recognition

/-!
# Literals in the standard layout

The source `output("…");` is followed through all steps of the standard layout, and through the
scanner.  The steps on lines split the call at the semicolons of its literal if there is an equals
sign too; the steps on braces are those of `SeqPar.Proofs.Enclosing`; and the last step removes the
marks of blocks, also from the literal.

A literal that is once broken over lines stays so, and one that has lost a mark is shorter.  So the
tokens are those of the source exactly if no step finds anything to change.

## Main definitions

* `CallLines` — the lines of a call that is broken over lines.
* `Edited` — what the steps make of a line once lines are split.
* `Disturbed` — the literals in which some step finds something to change.

## Main results

* `broken_standardiseLines`, `standardiseLines_enclosed` — what the steps on lines do to a literal.
* `pieces_enclosed` — a call is scanned as five tokens, with its literal as one of them.
* `tokens_standardise_outputOf_iff` — **a literal survives exactly if it is not disturbed.**
-/

namespace SeqPar.Layout

open SeqPar.Text

attribute [local instance] decidableForallMem

/-! ### Cutting a text at a character -/

theorem splitAt_of_not_mem {mark : Char} {xs : List Char} (h : mark ∉ xs) :
    splitAt mark xs = [xs] := by
  induction xs with
  | nil => rfl
  | cons x xs ih =>
    rw [List.mem_cons, not_or] at h
    rw [splitAt, if_neg (by simpa using Ne.symm h.1), ih h.2]

theorem splitAt_append_mark (mark : Char) (xs ys : List Char) :
    splitAt mark (xs ++ mark :: ys) = splitAt mark xs ++ splitAt mark ys := by
  induction xs with
  | nil => simp [splitAt]
  | cons x xs ih =>
    rw [List.cons_append, splitAt, splitAt, ih]
    split
    · rfl
    · cases hpieces : splitAt mark xs with
      | nil => exact absurd hpieces (splitAt_ne_nil mark xs)
      | cons piece rest => rfl

/-- A text without the mark belongs to the last piece of the text in front of it. -/
theorem exists_splitAt_append {mark : Char} {ys : List Char} (hys : mark ∉ ys) (xs : List Char) :
    ∃ ps b, splitAt mark (xs ++ ys) = ps ++ [b ++ ys] ∧ splitAt mark xs = ps ++ [b] := by
  induction xs with
  | nil => exact ⟨[], [], by simpa using splitAt_of_not_mem hys, rfl⟩
  | cons x xs ih =>
    obtain ⟨ps, b, hsplit, hxs⟩ := ih
    rw [List.cons_append, splitAt, splitAt, hsplit, hxs]
    split
    · exact ⟨[] :: ps, b, rfl, rfl⟩
    · cases ps with
      | nil => exact ⟨[], x :: b, rfl, rfl⟩
      | cons p ps => exact ⟨(x :: p) :: ps, b, rfl, rfl⟩

/-! ### Lines of a call -/

/-- The lines of a call that is broken over lines: the first one starts it, the last one ends it,
and there are no other quotes. -/
def CallLines (ls : List (List Char)) : Prop :=
  ∃ a mids b, ls = (callFront ++ a) :: (mids ++ [b ++ callEnd]) ∧ '"' ∉ a ∧
    (∀ l ∈ mids, '"' ∉ l) ∧ '"' ∉ b

theorem eq_lineFeed_or_exists_of_mem_unlines {ls : List (List Char)} {c : Char}
    (h : c ∈ unlines ls) : c = '\n' ∨ ∃ l ∈ ls, c ∈ l := by
  induction ls with
  | nil => simp [unlines, join] at h
  | cons l ls ih =>
    by_cases hnil : ls = []
    · subst hnil
      exact .inr ⟨l, List.mem_cons_self, h⟩
    · rw [unlines, join_cons hnil] at h
      simp only [List.mem_append, List.mem_singleton] at h
      rcases h with (hl | hfeed) | hrest
      · exact .inr ⟨l, List.mem_cons_self, hl⟩
      · exact .inl hfeed
      · rcases ih hrest with hfeed | ⟨l', hl', hc⟩
        · exact .inl hfeed
        · exact .inr ⟨l', List.mem_cons_of_mem _ hl', hc⟩

theorem unlines_concat_append (ls : List (List Char)) (b ys : List Char) :
    unlines (ls ++ [b ++ ys]) = unlines (ls ++ [b]) ++ ys := by
  induction ls with
  | nil => rfl
  | cons l ls ih =>
    unfold unlines at ih ⊢
    rw [List.cons_append, List.cons_append, join_cons (by simp), join_cons (by simp), ih]
    simp

theorem CallLines.exists_unlines {ls : List (List Char)} (h : CallLines ls) :
    ∃ x, unlines ls = enclosed x [] ∧ '"' ∉ x ∧ '\n' ∈ x := by
  obtain ⟨a, mids, b, rfl, ha, hmids, hb⟩ := h
  refine ⟨a ++ '\n' :: unlines (mids ++ [b]), ?_, ?_, by simp⟩
  · rw [unlines, join_cons (by simp)]
    show callFront ++ a ++ ['\n'] ++ unlines (mids ++ [b ++ callEnd]) = _
    rw [unlines_concat_append]
    simp [enclosed]
  · intro hmem
    rcases List.mem_append.mp hmem with hmem | hmem
    · exact ha hmem
    · rcases List.mem_cons.mp hmem with hfeed | hmem
      · exact absurd hfeed (by decide)
      · rcases eq_lineFeed_or_exists_of_mem_unlines hmem with hfeed | ⟨l, hl, hquote⟩
        · exact absurd hfeed (by decide)
        · rcases List.mem_append.mp hl with hl | hl
          · exact hmids l hl hquote
          · rw [List.mem_singleton.mp hl] at hquote
            exact hb hquote

theorem callLines_lines {x : List Char} (hx : '"' ∉ x) (hline : '\n' ∈ x) :
    CallLines (lines (enclosed x [])) := by
  obtain ⟨a, rest, rfl, ha⟩ := List.eq_append_cons_of_mem hline
  simp only [List.mem_append, List.mem_cons, not_or] at hx
  have hend : '\n' ∉ callEnd := by decide
  obtain ⟨mids, b, hsplit, hpieces⟩ := exists_splitAt_append hend rest
  have hquote : ∀ l ∈ mids ++ [b], '"' ∉ l := by
    intro l hl hmem
    rw [← hpieces] at hl
    exact hx.2.2 (mem_of_mem_splitAt hl _ hmem).1
  have hfront : '\n' ∉ callFront ++ a := by simp [callFront, ha]
  have henclosed : enclosed (a ++ '\n' :: rest) [] =
      (callFront ++ a) ++ '\n' :: (rest ++ callEnd) := by
    simp [enclosed]
  refine ⟨a, mids, b, ?_, hx.1, fun l hl => hquote l (by simp [hl]), hquote b (by simp)⟩
  rw [lines, henclosed, splitAt_append_mark, splitAt_of_not_mem hfront, hsplit]
  rfl

/-! ### The steps on lines -/

theorem trim_callFront (a : List Char) : trim (callFront ++ a) = callFront ++ trimRight a := by
  have hfront : trimLeft ['o', 'u', 't', 'p', 'u', 't', '('] =
      ['o', 'u', 't', 'p', 'u', 't', '('] := by decide
  show trim (['o', 'u', 't', 'p', 'u', 't', '('] ++ '"' :: a) = _
  rw [trim_append_cons (by decide), hfront]
  rfl

/-- What the steps make of a line: they may trim it and put a semicolon at its end. -/
def Edited (raw line : List Char) : Prop :=
  ∃ core, (core = raw ∨ core = trim raw) ∧ (line = core ∨ line = terminated core)

theorem terminated_append_callEnd (b : List Char) : terminated (b ++ callEnd) = b ++ callEnd := by
  simp [terminated, callEnd]

theorem mem_of_mem_terminated {line : List Char} {c : Char} (h : c ∈ terminated line) :
    c ∈ line ∨ c = ';' := by
  unfold terminated at h
  split at h
  · exact .inl h
  · simpa using h

/-- Nothing but semicolons is new in an edited line. -/
theorem Edited.mem {raw line : List Char} {c : Char} (h : Edited raw line) (hc : c ∈ line) :
    c ∈ raw ∨ c = ';' := by
  obtain ⟨core, hcore, hline⟩ := h
  have hraw : c ∈ core → c ∈ raw := by
    rcases hcore with rfl | rfl
    · exact id
    · exact mem_of_mem_trim
  rcases hline with rfl | rfl
  · exact .inl (hraw hc)
  · exact (mem_of_mem_terminated hc).imp_left hraw

theorem Edited.front {a line : List Char} (h : Edited (callFront ++ a) line) (ha : '"' ∉ a) :
    ∃ a', line = callFront ++ a' ∧ '"' ∉ a' := by
  obtain ⟨core, hcore, hline⟩ := h
  obtain ⟨a₁, rfl, ha₁⟩ : ∃ a₁, core = callFront ++ a₁ ∧ '"' ∉ a₁ := by
    rcases hcore with rfl | rfl
    · exact ⟨a, rfl, ha⟩
    · exact ⟨trimRight a, trim_callFront a, fun hmem => ha (mem_of_mem_trimRight hmem)⟩
  rcases hline with rfl | rfl
  · exact ⟨a₁, rfl, ha₁⟩
  · unfold terminated
    split
    · exact ⟨a₁, rfl, ha₁⟩
    · exact ⟨a₁ ++ [';'], List.append_assoc _ _ _, by simp [ha₁]⟩

theorem Edited.ending {b line : List Char} (h : Edited (b ++ callEnd) line) (hb : '"' ∉ b) :
    ∃ b', line = b' ++ callEnd ∧ '"' ∉ b' := by
  obtain ⟨core, hcore, hline⟩ := h
  obtain ⟨b', rfl, hb'⟩ : ∃ b', core = b' ++ callEnd ∧ '"' ∉ b' := by
    rcases hcore with rfl | rfl
    · exact ⟨b, rfl, hb⟩
    · exact ⟨trimLeft b, trim_callEnd b, fun hmem => hb (mem_of_mem_trimLeft hmem)⟩
  rw [terminated_append_callEnd, or_self] at hline
  exact ⟨b', hline, hb'⟩

/-- A call on one line stays as it is. -/
theorem Edited.eq_enclosed {s line : List Char} (h : Edited (enclosed s []) line) :
    line = enclosed s [] := by
  have henclosed : enclosed s [] = (callFront ++ s) ++ callEnd := by simp [enclosed]
  have htrim : trimLeft (callFront ++ s) = callFront ++ s := rfl
  obtain ⟨core, hcore, hline⟩ := h
  rw [henclosed] at hcore ⊢
  rw [trim_callEnd, htrim, or_self] at hcore
  rw [hcore, terminated_append_callEnd, or_self] at hline
  exact hline

theorem Edited.not_mem {raw line : List Char} (h : Edited raw line) (hraw : '"' ∉ raw) :
    '"' ∉ line := by
  intro hmem
  rcases h.mem hmem with hmem | hsemi
  · exact hraw hmem
  · exact absurd hsemi (by decide)

/-- The lines behind the first one. -/
theorem exists_edited_ending {mids ls : List (List Char)} {b : List Char}
    (h : List.Forall₂ Edited (mids ++ [b ++ callEnd]) ls) (hmids : ∀ l ∈ mids, '"' ∉ l)
    (hb : '"' ∉ b) :
    ∃ mids' b', ls = mids' ++ [b' ++ callEnd] ∧ (∀ l ∈ mids', '"' ∉ l) ∧ '"' ∉ b' := by
  induction mids generalizing ls with
  | nil =>
    obtain ⟨last, rest, hlast, hrest, rfl⟩ := List.forall₂_cons_left_iff.mp h
    obtain ⟨b', rfl, hb'⟩ := hlast.ending hb
    rw [List.forall₂_nil_left_iff.mp hrest]
    exact ⟨[], b', rfl, by simp, hb'⟩
  | cons l mids ih =>
    obtain ⟨l', rest, hl, hrest, rfl⟩ := List.forall₂_cons_left_iff.mp h
    rw [List.forall_mem_cons] at hmids
    obtain ⟨mids', b', rfl, hmids', hb'⟩ := ih hrest hmids.2
    refine ⟨l' :: mids', b', rfl, ?_, hb'⟩
    exact List.forall_mem_cons.mpr ⟨hl.not_mem hmids.1, hmids'⟩

/-- The lines of a call stay those of a call. -/
theorem CallLines.edited {ls ls' : List (List Char)} (hls : CallLines ls)
    (h : List.Forall₂ Edited ls ls') : CallLines ls' := by
  obtain ⟨a, mids, b, rfl, ha, hmids, hb⟩ := hls
  obtain ⟨first, rest, hfirst, hrest, rfl⟩ := List.forall₂_cons_left_iff.mp h
  obtain ⟨a', rfl, ha'⟩ := hfirst.front ha
  obtain ⟨mids', b', rfl, hmids', hb'⟩ := exists_edited_ending hrest hmids hb
  exact ⟨a', mids', b', rfl, ha', hmids', hb'⟩

theorem edited_terminateLine (line : List Char) : Edited line (terminateLine line) := by
  refine ⟨line, .inl rfl, ?_⟩
  unfold terminateLine
  simp only []
  split
  · exact .inl rfl
  split
  · exact .inl rfl
  next hsemi =>
  split
  · -- A line without semicolon does not end with one.
    right
    have hlast : ¬ (line.getLast? == some ';') = true := by
      intro hlast
      have hmem := List.mem_of_getLast? (beq_iff_eq.mp hlast)
      simp [hmem] at hsemi
    rw [terminated, if_neg hlast]
  · exact .inl rfl

theorem forall₂_edited_tidyLines (inside : Bool) (ls : List (List Char)) :
    List.Forall₂ Edited ls (tidyLines inside ls) := by
  have htrim : ∀ raw, Edited raw (trim raw) := fun raw => ⟨trim raw, .inr rfl, .inl rfl⟩
  have hterminated : ∀ raw, Edited raw (terminated (trim raw)) :=
    fun raw => ⟨trim raw, .inr rfl, .inr rfl⟩
  induction ls generalizing inside with
  | nil => exact .nil
  | cons raw rest ih =>
    unfold tidyLines
    simp only []
    split
    · exact .cons (htrim raw) (ih inside)
    split
    · exact .cons (htrim raw) (ih true)
    split
    · exact .cons (htrim raw) (ih false)
    split
    · exact .cons (hterminated raw) (ih inside)
    split
    · exact .cons (hterminated raw) (ih inside)
    · exact .cons (htrim raw) (ih inside)

/-- After lines are split, each line is only edited. -/
theorem exists_standardiseLines (cs : List Char) : ∃ ls, standardiseLines cs = unlines ls ∧
    List.Forall₂ Edited (lines (splitAssignments cs)) ls := by
  unfold standardiseLines
  simp only []
  split
  · exact ⟨_, rfl, forall₂_edited_tidyLines false _⟩
  · refine ⟨_, rfl, List.forall₂_map_right_iff.mpr ?_⟩
    exact List.forall₂_same.mpr fun line _ => edited_terminateLine line

theorem partLine_callFront {a : List Char} (ha : '"' ∉ a) :
    ∃ a', partLine (callFront ++ a) = [callFront ++ a'] ∧ '"' ∉ a' := by
  have hleft : trimLeft (callFront ++ a) = callFront ++ a := rfl
  unfold partLine
  split
  · refine ⟨trimRight a ++ [';'], ?_, ?_⟩
    · rw [hleft, Nat.sub_self, trim_callFront]
      simp
    · simpa using fun hmem => ha (mem_of_mem_trimRight hmem)
  · rw [trim_callFront]
    exact ⟨a ++ [';'], by simp [callFront], by simp [ha]⟩

theorem partLine_callEnd {b : List Char} (hb : '"' ∉ b) :
    ∃ b', partLine (b ++ ['"', ')']) = [b' ++ callEnd] ∧ '"' ∉ b' := by
  have hend : trimRight [')'] = [')'] := by decide
  have htrim : trim (b ++ ['"', ')']) = trimLeft b ++ ['"', ')'] := by
    rw [trim_append_cons (by decide), hend]
  unfold partLine
  rw [htrim]
  split
  · refine ⟨List.replicate _ ' ' ++ trimLeft b, by simp [callEnd]; rfl, ?_⟩
    have hleft : '"' ∉ trimLeft b := fun hmem => hb (mem_of_mem_trimLeft hmem)
    simp [hleft]
  · exact ⟨b, by simp [callEnd], hb⟩

theorem not_mem_of_mem_partLine {part line : List Char} (hpart : '"' ∉ part)
    (h : line ∈ partLine part) : '"' ∉ line := by
  have htrim : '"' ∉ trim part := fun hmem => hpart (mem_of_mem_trim hmem)
  unfold partLine at h
  split at h
  · rw [List.mem_singleton.mp h]
    simp [htrim]
  · split at h
    · simp at h
    · rw [List.mem_singleton.mp h]
      simp [hpart]

theorem isComment_enclosed (s : List Char) : isComment (enclosed s []) = false := by
  unfold isComment enclosed
  rw [trim_callFront]
  rfl

/-- A call with an assignment in its literal is split at semicolons, and nothing comes behind the
last one. -/
theorem splitLine_enclosed {s : List Char} (heq : '=' ∈ s) : splitLine (enclosed s []) =
    (splitAt ';' (callFront ++ s ++ ['"', ')'])).flatMap partLine := by
  have hsplit : enclosed s [] = (callFront ++ s ++ ['"', ')']) ++ ';' :: [] := by
    simp [enclosed, callEnd]
  have hchars : '=' ∈ enclosed s [] ∧ ';' ∈ enclosed s [] := by
    simp [enclosed, callEnd, heq]
  have hrest : (splitAt ';' []).flatMap partLine = [] := by decide
  unfold splitLine
  rw [if_pos (by simp [isComment_enclosed, hchars]), hsplit, splitAt_append_mark,
    List.flatMap_append, hrest, List.append_nil]

theorem lines_enclosed {s : List Char} (hline : '\n' ∉ s) :
    lines (enclosed s []) = [enclosed s []] := by
  apply splitAt_of_not_mem
  simp [enclosed, callFront, callEnd, hline]

/-- A call on one line that is a single assignment keeps its semicolon. -/
theorem partLine_call {s : List Char} (heq : '=' ∈ s) :
    partLine (callFront ++ s ++ ['"', ')']) = [enclosed s []] := by
  have hleft : trimLeft (callFront ++ s ++ ['"', ')']) = callFront ++ s ++ ['"', ')'] := rfl
  have hend : trimRight [')'] = [')'] := by decide
  have htrim : trim (callFront ++ s ++ ['"', ')']) = callFront ++ s ++ ['"', ')'] := by
    rw [trim_append_cons (by decide), hend]
    rfl
  unfold partLine
  rw [if_pos (by simp [heq]), hleft, htrim, Nat.sub_self]
  simp [enclosed, callEnd]

/-- A call without several assignments in its literal stays on its line. -/
theorem splitLine_enclosed_of_not {s : List Char} (h : ¬ ('=' ∈ s ∧ ';' ∈ s)) :
    splitLine (enclosed s []) = [enclosed s []] := by
  by_cases heq : '=' ∈ s
  · have hsemi : ';' ∉ s := fun hmem => h ⟨heq, hmem⟩
    have hpart : ';' ∉ callFront ++ s ++ ['"', ')'] := by simp [callFront, hsemi]
    rw [splitLine_enclosed heq, splitAt_of_not_mem hpart, List.flatMap_singleton,
      partLine_call heq]
  · unfold splitLine
    rw [if_neg]
    simp [enclosed, callFront, callEnd, heq]

/-- A call with several of them is split, in front of the end of the call. -/
theorem callLines_splitLine {s : List Char} (hquote : '"' ∉ s) (heq : '=' ∈ s) (hsemi : ';' ∈ s) :
    CallLines (splitLine (enclosed s [])) := by
  rw [splitLine_enclosed heq]
  clear heq
  obtain ⟨a, rest, rfl, ha⟩ := List.eq_append_cons_of_mem hsemi
  simp only [List.mem_append, List.mem_cons, not_or] at hquote
  have hfront : ';' ∉ callFront ++ a := by simp [callFront, ha]
  have hend : ';' ∉ ['"', ')'] := by decide
  obtain ⟨parts, b, hsplit, hpieces⟩ := exists_splitAt_append hend rest
  have hparts : ∀ part ∈ parts ++ [b], '"' ∉ part := by
    intro part hpart hmem
    rw [← hpieces] at hpart
    exact hquote.2.2 (mem_of_mem_splitAt hpart _ hmem).1
  obtain ⟨a', hfirst, ha'⟩ := partLine_callFront hquote.1
  obtain ⟨b', hlast, hb'⟩ := partLine_callEnd (hparts b (by simp))
  refine ⟨a', parts.flatMap partLine, b', ?_, ha', ?_, hb'⟩
  · have hcall : callFront ++ (a ++ ';' :: rest) ++ ['"', ')'] =
        (callFront ++ a) ++ ';' :: (rest ++ ['"', ')']) := by simp
    rw [hcall, splitAt_append_mark, splitAt_of_not_mem hfront, hsplit]
    simp only [List.flatMap_append, List.flatMap_singleton, hfirst, hlast]
    rfl
  · intro l hl
    obtain ⟨part, hpart, hmem⟩ := List.mem_flatMap.mp hl
    exact not_mem_of_mem_partLine (hparts part (by simp [hpart])) hmem

/-- **Several assignments in a literal break it over lines.** -/
theorem broken_standardiseLines {s : List Char} (hquote : '"' ∉ s) (hline : '\n' ∉ s)
    (heq : '=' ∈ s) (hsemi : ';' ∈ s) : Broken (standardiseLines (enclosed s [])) := by
  obtain ⟨ls, hls, hedited⟩ := exists_standardiseLines (enclosed s [])
  obtain ⟨x, hsplit, hx, hfeed⟩ := (callLines_splitLine hquote heq hsemi).exists_unlines
  rw [splitAssignments, lines_enclosed hline, List.flatMap_singleton, hsplit] at hedited
  obtain ⟨x', hls', hx', hfeed'⟩ := ((callLines_lines hx hfeed).edited hedited).exists_unlines
  rw [hls, hls']
  exact ⟨x', [], rfl, hx', by simp, hfeed'⟩

/-- Other literals stay on their line. -/
theorem standardiseLines_enclosed {s : List Char} (hline : '\n' ∉ s)
    (h : ¬ ('=' ∈ s ∧ ';' ∈ s)) : standardiseLines (enclosed s []) = enclosed s [] := by
  obtain ⟨ls, hls, hedited⟩ := exists_standardiseLines (enclosed s [])
  have hunlines : unlines [enclosed s []] = enclosed s [] := rfl
  rw [splitAssignments, lines_enclosed hline, List.flatMap_singleton, splitLine_enclosed_of_not h,
    hunlines, lines_enclosed hline] at hedited
  obtain ⟨line, rest, hfirst, hrest, rfl⟩ := List.forall₂_cons_left_iff.mp hedited
  rw [hls, hfirst.eq_enclosed, List.forall₂_nil_left_iff.mp hrest, hunlines]

/-! ### The marks of blocks -/

theorem prefix_of_prefix_append_cons {old ys : List Char} {c : Char} (hc : c ∉ old)
    (xs : List Char) (h : old <+: xs ++ c :: ys) : old <+: xs := by
  rcases List.prefix_or_prefix_of_prefix h (List.prefix_append xs (c :: ys)) with hle | ⟨tail, rfl⟩
  · exact hle
  · rw [List.prefix_append_right_inj] at h
    cases tail with
    | nil => simp
    | cons d tail =>
      obtain ⟨rfl, -⟩ := List.cons_prefix_cons.mp h
      simp at hc

theorem mem_of_mem_substituteFrom {old new : List Char} {c : Char} {cs : List Char} {skip : Nat}
    (h : c ∈ substituteFrom old new skip cs) : c ∈ cs ∨ c ∈ new := by
  induction cs generalizing skip with
  | nil => simp [substituteFrom] at h
  | cons d cs ih =>
    cases skip with
    | succ skip => exact (ih h).imp_left (List.mem_cons_of_mem d)
    | zero =>
      rw [substituteFrom] at h
      split at h
      · rcases List.mem_append.mp h with hnew | hrest
        · exact .inr hnew
        · exact (ih hrest).imp_left (List.mem_cons_of_mem d)
      · rcases List.mem_cons.mp h with rfl | hrest
        · exact .inl List.mem_cons_self
        · exact (ih hrest).imp_left (List.mem_cons_of_mem d)

/-- A part of a text and what is put in its place, when the marks of blocks are removed: the text
gets shorter, and no occurrence reaches over the parts of a call or a line feed. -/
structure MarkRule (old new : List Char) : Prop where
  shorter : new.length < old.length
  not_mem_old : ∀ c ∈ '\n' :: (callFront ++ callEnd), c ∉ old
  quote_not_mem : '"' ∉ new
  semicolon_not_mem : ';' ∉ new

namespace MarkRule

variable {old new : List Char} (hr : MarkRule old new)

include hr

theorem old_ne_nil : old ≠ [] := by
  have hpos := Nat.zero_lt_of_lt hr.shorter
  exact List.ne_nil_of_length_pos hpos

/-- No occurrence reaches over a character that is not in the part; those that are left over from
an occurrence are passed first. -/
theorem substituteFrom_append_cons {c : Char} (hc : c ∉ old) (ys xs : List Char) :
    ∀ skip ≤ xs.length, substituteFrom old new skip (xs ++ c :: ys) =
      substituteFrom old new skip xs ++ c :: substitute old new ys := by
  induction xs with
  | nil =>
    intro skip hskip
    obtain rfl : skip = 0 := Nat.le_zero.mp hskip
    have hnot : ¬ old.isPrefixOf (c :: ys) = true := by
      intro hprefix
      have hnil := prefix_of_prefix_append_cons hc [] (List.isPrefixOf_iff_prefix.mp hprefix)
      exact hr.old_ne_nil (List.prefix_nil.mp hnil)
    show substituteFrom old new 0 (c :: ys) = c :: substitute old new ys
    rw [substituteFrom, if_neg hnot]
    rfl
  | cons x xs ih =>
    intro skip hskip
    cases skip with
    | succ skip => exact ih skip (Nat.le_of_succ_le_succ hskip)
    | zero =>
      show substituteFrom old new 0 (x :: (xs ++ c :: ys)) = _
      rw [substituteFrom, substituteFrom]
      -- An occurrence at the start ends before the character, as that is not in the part.
      by_cases hprefix : old.isPrefixOf (x :: xs) = true
      · have hle := (List.isPrefixOf_iff_prefix.mp hprefix).length_le
        have hlong : old.isPrefixOf (x :: (xs ++ c :: ys)) = true := by
          apply List.isPrefixOf_iff_prefix.mpr
          exact (List.isPrefixOf_iff_prefix.mp hprefix).trans (List.prefix_append _ (c :: ys))
        rw [if_pos hprefix, if_pos hlong, ih _ (by rw [List.length_cons] at hle; omega),
          List.append_assoc]
      · have hlong : ¬ old.isPrefixOf (x :: (xs ++ c :: ys)) = true := by
          intro hlong
          apply hprefix
          apply List.isPrefixOf_iff_prefix.mpr
          exact prefix_of_prefix_append_cons hc (x :: xs) (List.isPrefixOf_iff_prefix.mp hlong)
        rw [if_neg hprefix, if_neg hlong, ih 0 (Nat.zero_le _)]
        rfl

theorem substitute_append_cons {c : Char} (hc : c ∉ old) (xs ys : List Char) :
    substitute old new (xs ++ c :: ys) = substitute old new xs ++ c :: substitute old new ys :=
  hr.substituteFrom_append_cons hc ys xs 0 (Nat.zero_le _)

theorem substitute_append_of_forall {ds : List Char} (hds : ∀ c ∈ ds, c ∉ old) (ys : List Char) :
    substitute old new (ds ++ ys) = ds ++ substitute old new ys := by
  induction ds with
  | nil => rfl
  | cons d ds ih =>
    rw [List.forall_mem_cons] at hds
    have hcons := hr.substitute_append_cons hds.1 [] (ds ++ ys)
    rw [ih hds.2] at hcons
    exact hcons

/-- A call stays a call. -/
theorem substitute_enclosed (x z : List Char) : substitute old new (enclosed x z) =
    enclosed (substitute old new x) (substitute old new z) := by
  have hmem := hr.not_mem_old
  simp only [List.forall_mem_cons, List.forall_mem_append] at hmem
  obtain ⟨-, hfront, hend⟩ := hmem
  have hclose : ∀ c ∈ [')', ';'], c ∉ old := fun c hc => hend c (List.mem_cons_of_mem _ hc)
  unfold enclosed
  rw [hr.substitute_append_of_forall hfront]
  show callFront ++ substitute old new (x ++ '"' :: ([')', ';'] ++ z)) = _
  rw [hr.substitute_append_cons (hend '"' List.mem_cons_self),
    hr.substitute_append_of_forall hclose]
  rfl

theorem quote_not_mem_substitute {x : List Char} (hx : '"' ∉ x) : '"' ∉ substitute old new x := by
  intro hmem
  rcases mem_of_mem_substituteFrom hmem with hmem | hmem
  · exact hx hmem
  · exact hr.quote_not_mem hmem

/-- A literal that is broken over lines stays so. -/
theorem broken {cs : List Char} (h : Broken cs) : Broken (substitute old new cs) := by
  obtain ⟨x, z, rfl, hx, hz, hline⟩ := h
  refine ⟨_, _, hr.substitute_enclosed x z, hr.quote_not_mem_substitute hx, ?_, ?_⟩
  · intro hmem
    rcases mem_of_mem_substituteFrom hmem with hmem | hmem
    · exact hz hmem
    · exact hr.semicolon_not_mem hmem
  · obtain ⟨a, b, rfl⟩ := List.append_of_mem hline
    rw [hr.substitute_append_cons (hr.not_mem_old '\n' List.mem_cons_self)]
    simp

theorem length_substituteFrom_le (cs : List Char) : ∀ skip ≤ cs.length,
    (substituteFrom old new skip cs).length + skip ≤ cs.length := by
  have hshorter := hr.shorter
  induction cs with
  | nil =>
    intro skip hskip
    obtain rfl : skip = 0 := Nat.le_zero.mp hskip
    simp [substituteFrom]
  | cons c cs ih =>
    intro skip hskip
    cases skip with
    | succ skip =>
      have hle := ih skip (Nat.le_of_succ_le_succ hskip)
      rw [substituteFrom, List.length_cons]
      omega
    | zero =>
      rw [substituteFrom]
      split
      · next hprefix =>
        have hlength := (List.isPrefixOf_iff_prefix.mp hprefix).length_le
        rw [List.length_cons] at hlength
        have hle := ih (old.length - 1) (by omega)
        rw [List.length_append, List.length_cons]
        omega
      · have hle := ih 0 (Nat.zero_le _)
        simpa using hle

/-- A text with an occurrence gets shorter. -/
theorem length_substitute_lt {cs : List Char} (h : old <:+: cs) :
    (substitute old new cs).length < cs.length := by
  have hshorter := hr.shorter
  induction cs with
  | nil =>
    rw [List.infix_nil] at h
    exact absurd h hr.old_ne_nil
  | cons c cs ih =>
    show (substituteFrom old new 0 (c :: cs)).length < (c :: cs).length
    rw [substituteFrom]
    split
    · next hprefix =>
      have hlength := (List.isPrefixOf_iff_prefix.mp hprefix).length_le
      rw [List.length_cons] at hlength
      have hle := hr.length_substituteFrom_le cs (old.length - 1) (by omega)
      rw [List.length_append, List.length_cons]
      omega
    · next hprefix =>
      have hin : old <:+: cs := by
        rcases List.infix_cons_iff.mp h with hpre | hin
        · exact absurd (List.isPrefixOf_iff_prefix.mpr hpre) hprefix
        · exact hin
      have hlt := ih hin
      rw [List.length_cons, List.length_cons]
      exact Nat.succ_lt_succ hlt

theorem length_substitute_le (cs : List Char) : (substitute old new cs).length ≤ cs.length :=
  hr.length_substituteFrom_le cs 0 (Nat.zero_le _)

end MarkRule

theorem markRule_seq : MarkRule "BLOCK SEQ \x7b".toList "SEQ \x7b".toList where
  shorter := by decide
  not_mem_old := by decide
  quote_not_mem := by decide
  semicolon_not_mem := by decide

theorem markRule_par : MarkRule "BLOCK PAR \x7b".toList "PAR \x7b".toList where
  shorter := by decide
  not_mem_old := by decide
  quote_not_mem := by decide
  semicolon_not_mem := by decide

/-- A text with the mark of a block in it. -/
def Marked (s : List Char) : Prop :=
  "BLOCK SEQ \x7b".toList <:+: s ∨ "BLOCK PAR \x7b".toList <:+: s

theorem unmarkBlocks_enclosed (x z : List Char) :
    unmarkBlocks (enclosed x z) = enclosed (unmarkBlocks x) (unmarkBlocks z) := by
  unfold unmarkBlocks
  rw [markRule_seq.substitute_enclosed, markRule_par.substitute_enclosed]

theorem quote_not_mem_unmarkBlocks {s : List Char} (h : '"' ∉ s) : '"' ∉ unmarkBlocks s :=
  markRule_par.quote_not_mem_substitute (markRule_seq.quote_not_mem_substitute h)

theorem Broken.unmarkBlocks {cs : List Char} (h : Broken cs) : Broken (unmarkBlocks cs) :=
  markRule_par.broken (markRule_seq.broken h)

theorem Marked.length_unmarkBlocks_lt {s : List Char} (h : Marked s) :
    (Layout.unmarkBlocks s).length < s.length := by
  unfold Layout.unmarkBlocks
  by_cases hseq : "BLOCK SEQ \x7b".toList <:+: s
  · exact (markRule_par.length_substitute_le _).trans_lt (markRule_seq.length_substitute_lt hseq)
  · rw [substitute_eq_self hseq]
    exact markRule_par.length_substitute_lt (h.resolve_left hseq)

theorem unmarkBlocks_of_not_marked {s : List Char} (h : ¬ Marked s) : unmarkBlocks s = s := by
  rw [Marked, not_or] at h
  rw [unmarkBlocks, substitute_eq_self h.1, substitute_eq_self h.2]

/-! ### The tokens of a call -/

theorem pieces_firmOperator {s : String} {tag : Tag} (hs : (s, tag) ∈ Lexeme.firmOperators)
    (before : Option Char) (rest : List Char) : pieces before (s.toList ++ rest) =
      ⟨some (.token tag), s.toList⟩ :: pieces s.toList.getLast? rest := by
  apply pieces_append (Lexeme.isOperatorChar_of_mem (List.mem_append_left _ hs)).1
  rw [String.length_toList]
  exact Lexeme.lexeme?_firmOperator hs before rest

theorem pieces_quoted {x : List Char} (hx : '"' ∉ x) (before : Option Char) (rest : List Char) :
    pieces before ('"' :: (x ++ '"' :: rest)) =
      ⟨some (.token .string), '"' :: (x ++ ['"'])⟩ :: pieces (some '"') rest := by
  have hsplit : '"' :: (x ++ '"' :: rest) = ('"' :: (x ++ ['"'])) ++ rest := by simp
  have hlength : ('"' :: (x ++ ['"'])).length = x.length + 2 := by simp
  have hlast : ('"' :: (x ++ ['"'])).getLast? = some '"' := by simp [List.getLast?_cons]
  have hlexeme := Lexeme.lexeme?_quoted hx before rest
  rw [hsplit, ← hlength] at hlexeme
  rw [hsplit, pieces_append (by simp) hlexeme, hlast]

/-- **A call is scanned as five tokens**, with its literal as one of them. -/
theorem pieces_enclosed {x : List Char} (hx : '"' ∉ x) (z : List Char) :
    pieces none (enclosed x z) =
      [⟨some (.token .output), ['o', 'u', 't', 'p', 'u', 't']⟩, ⟨some (.token .lparen), ['(']⟩,
        ⟨some (.token .string), '"' :: (x ++ ['"'])⟩, ⟨some (.token .rparen), [')']⟩,
        ⟨some (.token .semicolon), [';']⟩] ++ pieces (some ';') z := by
  have hword : ∀ rest, pieces none ('o' :: 'u' :: 't' :: 'p' :: 'u' :: 't' :: rest) =
      ⟨some (.token .output), ['o', 'u', 't', 'p', 'u', 't']⟩ :: pieces (some 't') rest :=
    fun rest => pieces_append (w := ['o', 'u', 't', 'p', 'u', 't']) (by decide)
      (Lexeme.lexeme?_openWord (s := "output") (by decide) none rest)
  have hopen : ∀ before rest, pieces before ('(' :: rest) =
      ⟨some (.token .lparen), ['(']⟩ :: pieces (some '(') rest :=
    pieces_firmOperator (s := "(") (by decide)
  have hclose : ∀ before rest, pieces before (')' :: rest) =
      ⟨some (.token .rparen), [')']⟩ :: pieces (some ')') rest :=
    pieces_firmOperator (s := ")") (by decide)
  have hsemi : ∀ before rest, pieces before (';' :: rest) =
      ⟨some (.token .semicolon), [';']⟩ :: pieces (some ';') rest :=
    pieces_firmOperator (s := ";") (by decide)
  show pieces none ('o' :: 'u' :: 't' :: 'p' :: 'u' :: 't' :: '(' :: '"' ::
    (x ++ '"' :: ')' :: ';' :: z)) = _
  rw [hword, hopen, pieces_quoted hx, hclose, hsemi]
  rfl

/-- The source that writes a literal. -/
def outputOf (s : String) : String :=
  "output(\"" ++ s ++ "\");"

/-- Its tokens, all on the first line. -/
def outputTokens (s : String) : List Located :=
  [⟨⟨.output, "output"⟩, 1⟩, ⟨⟨.lparen, "("⟩, 1⟩, ⟨⟨.string, "\"" ++ s ++ "\""⟩, 1⟩,
    ⟨⟨.rparen, ")"⟩, 1⟩, ⟨⟨.semicolon, ";"⟩, 1⟩]

theorem toList_outputOf (s : String) : (outputOf s).toList = enclosed s.toList [] := by
  simp [outputOf, enclosed, callFront, callEnd]

theorem tokens_outputOf {s : String} (hquote : '"' ∉ s.toList) (hline : '\n' ∉ s.toList) :
    tokens (outputOf s) = outputTokens s := by
  have hfeeds : s.toList.count '\n' = 0 := List.count_eq_zero.mpr hline
  have hnil : pieces (some ';') [] = [] := by rw [pieces]
  unfold tokens scan
  simp only []
  rw [toList_outputOf, pieces_enclosed hquote, hnil]
  simp [locate, Scanner.start, Scanner.here, Scanner.pass, Piece.tag?, lineFeeds, hfeeds, outputTokens,
    String.append_assoc]

/-- Another literal gives other tokens. -/
theorem tokens_enclosed_ne {x z : List Char} {s : String} (hx : '"' ∉ x) (hne : x ≠ s.toList) :
    tokens (String.ofList (enclosed x z)) ≠ outputTokens s := by
  intro heq
  -- The third token is the literal.
  have htokens := congrArg (List.map Located.token) heq
  rw [map_token_tokens, String.toList_ofList, tokensFrom, pieces_enclosed hx,
    List.filterMap_append] at htokens
  have hthird : some (⟨.string, String.ofList ('"' :: (x ++ ['"']))⟩ : Token) =
      some ⟨.string, "\"" ++ s ++ "\""⟩ := congrArg (fun ts => ts[2]?) htokens
  have hliteral := congrArg (fun t => t.text.toList) (Option.some.inj hthird)
  apply hne
  simpa using hliteral

/-! ### Literals that are disturbed -/

/-- Some step of the standard layout finds something to change in a literal: several assignments, a
head that gets braces, or the mark of a block. -/
def Disturbed (s : List Char) : Prop :=
  '=' ∈ s ∧ ';' ∈ s ∨ Braced s ∨ Marked s

/-- Without parentheses there is no head, and without braces there is no mark of a block. -/
theorem not_disturbed_of_not_mem {s : List Char} (hparen : '(' ∉ s) (hbrace : '\x7b' ∉ s)
    (hassign : ¬ ('=' ∈ s ∧ ';' ∈ s)) : ¬ Disturbed s := by
  have hcall : '(' ∉ s ++ callEnd := by simp [callEnd, hparen]
  rintro (hassign' | (hreturns | hfunction | ⟨word, -, hguard⟩) | hmarked)
  · exact hassign hassign'
  · exact hcall hreturns.mem
  · exact hcall (headRule_plainFunction.mem_of_bared hfunction)
  · exact hcall ((headRule_guarded word).mem_of_bared hguard)
  · have hmem : ∀ mark ∈ ["BLOCK SEQ \x7b".toList, "BLOCK PAR \x7b".toList], '\x7b' ∈ mark := by
      decide
    rcases hmarked with hseq | hpar
    · exact hbrace (hseq.subset (hmem _ List.mem_cons_self))
    · exact hbrace (hpar.subset (hmem _ (.tail _ List.mem_cons_self)))

theorem standardiseChars_enclosed {s : List Char} (hline : '\n' ∉ s) :
    standardiseChars (enclosed s []) =
      unmarkBlocks (addBraces (standardiseLines (enclosed s []))) := by
  have hbreak : ¬ ['\r', '\n'] <:+: enclosed s [] := by
    intro hin
    have hmem : '\n' ∈ enclosed s [] := hin.subset (by simp)
    simp [enclosed, callFront, callEnd, hline] at hmem
  unfold standardiseChars
  simp only []
  rw [substitute_eq_self hbreak]
  rfl

/-- A literal that is disturbed becomes another one. -/
theorem Disturbed.exists_standardiseChars {s : List Char} (h : Disturbed s) (hquote : '"' ∉ s)
    (hline : '\n' ∉ s) :
    ∃ x z, standardiseChars (enclosed s []) = enclosed x z ∧ '"' ∉ x ∧ x ≠ s := by
  have hbroken : ∀ {cs}, Broken cs → ∃ x z, cs = enclosed x z ∧ '"' ∉ x ∧ x ≠ s := by
    rintro _ ⟨x, z, rfl, hx, -, hfeed⟩
    refine ⟨x, z, rfl, hx, ?_⟩
    rintro rfl
    exact hline hfeed
  rw [standardiseChars_enclosed hline]
  -- The first step that finds something breaks the literal; only the last one shortens it.
  by_cases hassign : '=' ∈ s ∧ ';' ∈ s
  · have hlines := broken_standardiseLines hquote hline hassign.1 hassign.2
    exact hbroken (breaks_addBraces.broken hlines).unmarkBlocks
  rw [standardiseLines_enclosed hline hassign]
  by_cases hbraced : Braced s
  · exact hbroken (breaks_addBraces.breaks hquote hline hbraced).unmarkBlocks
  rw [breaks_addBraces.keeps hbraced, unmarkBlocks_enclosed]
  have hmarked : Marked s := (h.resolve_left hassign).resolve_left hbraced
  refine ⟨_, _, rfl, quote_not_mem_unmarkBlocks hquote, fun heq => ?_⟩
  have hlt := hmarked.length_unmarkBlocks_lt
  rw [heq] at hlt
  exact absurd hlt (Nat.lt_irrefl _)

/-- A literal that is not disturbed stays as it is. -/
theorem standardiseChars_of_not_disturbed {s : List Char} (h : ¬ Disturbed s)
    (hline : '\n' ∉ s) : standardiseChars (enclosed s []) = enclosed s [] := by
  rw [Disturbed, not_or, not_or] at h
  rw [standardiseChars_enclosed hline, standardiseLines_enclosed hline h.1,
    breaks_addBraces.keeps h.2.1, unmarkBlocks_enclosed, unmarkBlocks_of_not_marked h.2.2]
  rfl

/-- **A literal survives exactly if it is not disturbed**: the source that writes it has five
tokens, and the standard layout of that source has the same five exactly if no step finds anything
to change in the literal. -/
theorem tokens_standardise_outputOf_iff (s : String) (hquote : '"' ∉ s.toList)
    (hline : '\n' ∉ s.toList) : tokens (outputOf s) = outputTokens s ∧
      (tokens (standardise (outputOf s)) = outputTokens s ↔ ¬ Disturbed s.toList) := by
  refine ⟨tokens_outputOf hquote hline, ?_⟩
  unfold standardise
  rw [toList_outputOf]
  constructor
  · intro heq hdisturbed
    obtain ⟨x, z, hchars, hx, hne⟩ := hdisturbed.exists_standardiseChars hquote hline
    rw [hchars] at heq
    exact tokens_enclosed_ne hx hne heq
  · intro h
    rw [standardiseChars_of_not_disturbed h hline, ← toList_outputOf, String.ofList_toList,
      tokens_outputOf hquote hline]

/-- An equals sign alone is no assignment that is split. -/
theorem tokens_standardise_total :
    tokens (standardise (outputOf "total = 3")) = outputTokens "total = 3" :=
  (tokens_standardise_outputOf_iff "total = 3" (by decide) (by decide)).2.mpr
    (not_disturbed_of_not_mem (by decide) (by decide) (by decide))

/-- Two assignments are split, although they stand between quotes. -/
theorem tokens_standardise_assignments_ne :
    '"' ∉ "a = 1; b = 2".toList ∧ '\n' ∉ "a = 1; b = 2".toList ∧
      tokens (standardise (outputOf "a = 1; b = 2")) ≠ outputTokens "a = 1; b = 2" := by
  decide +kernel

end SeqPar.Layout
