import SeqPar.Proofs.QuotedLayout
import SeqPar.Proofs.SortingProgram

/-!
# Ties in the sorting program

The sorting program shows the least, the middle one and the greatest of three numbers.  The least
and the greatest are found by comparing each number with the others, and are right whatever the
numbers are.  The middle one is found by elimination: it is the first number that is neither the
least nor the greatest, and the third one if there is none.

Elimination goes by value, so that of two equal numbers both are eliminated.  The third number is
right then if it is one of the two, and wrong if they are the first and the second: `1`, `1` and `2`
are shown as `1`, `2` and `2`.  This is the only case in which the three lines under the heading are
not the numbers in ascending order.

## Main definitions

* `shownTriple` — the three numbers that are shown.
* `EndsSorted` — a text that ends with the heading and given numbers in ascending order.

## Main results

* `shownTriple_of_lt`, `shownTriple_of_gt`, `shownTriple_self` — what is shown, by the order of the
  first two numbers.
* `shownTriple_sorted_iff` — the numbers that are shown are the given ones in ascending order if and
  only if the first two are different or all three are the same.
* `withLines_inj` — the lines at the end of a text can be told from it.
* `sortThree_endsSorted_iff` — **the shortcut sorts all triples but those whose first two numbers
  are the same and whose third is another.**
-/

namespace SeqPar

open Exec

/-! ### The numbers that are shown -/

/-- The three numbers that are shown: the least, the middle one and the greatest. -/
def shownTriple (a b c : Int) : List Int :=
  [lowest a b c, between a b c (lowest a b c) (highest a b c), highest a b c]

section Numbers

variable {a b c : Int}

theorem lowest_eq (a b c : Int) : lowest a b c = min a (min b c) := by
  simp only [lowest, pick, Bool.and_eq_true, decide_eq_true_eq]
  omega

theorem highest_eq (a b c : Int) : highest a b c = max a (max b c) := by
  simp only [highest, pick, Bool.and_eq_true, decide_eq_true_eq]
  omega

theorem between_eq (a b c low high : Int) : between a b c low high =
    if a ≠ low ∧ a ≠ high then a else if b ≠ low ∧ b ≠ high then b else c := by
  simp only [between, pick, Bool.and_eq_true, Bool.not_eq_true', decide_eq_false_iff_not, ne_eq]

theorem shownTriple_eq {x z : Int} (hx : min a (min b c) = x) (hz : max a (max b c) = z) :
    shownTriple a b c = [x, between a b c x z, z] := by
  rw [shownTriple, lowest_eq, highest_eq, hx, hz]

/-- Two numbers in ascending order, and where the third one stands among them. -/
theorem shownTriple_of_lt (h : a < b) : shownTriple a b c =
    if c ≤ a then [c, a, b] else if c ≤ b then [a, c, b] else [a, b, c] := by
  by_cases hca : c ≤ a
  · rw [if_pos hca, shownTriple_eq (x := c) (z := b) (by omega) (by omega), between_eq]
    grind
  by_cases hcb : c ≤ b
  · rw [if_neg hca, if_pos hcb, shownTriple_eq (x := a) (z := b) (by omega) (by omega),
      between_eq]
    grind
  · rw [if_neg hca, if_neg hcb, shownTriple_eq (x := a) (z := c) (by omega) (by omega),
      between_eq]
    grind

/-- Two numbers in descending order, and where the third one stands among them. -/
theorem shownTriple_of_gt (h : b < a) : shownTriple a b c =
    if c ≤ b then [c, b, a] else if c ≤ a then [b, c, a] else [b, a, c] := by
  by_cases hcb : c ≤ b
  · rw [if_pos hcb, shownTriple_eq (x := c) (z := a) (by omega) (by omega), between_eq]
    grind
  by_cases hca : c ≤ a
  · rw [if_neg hcb, if_pos hca, shownTriple_eq (x := b) (z := a) (by omega) (by omega),
      between_eq]
    grind
  · rw [if_neg hcb, if_neg hca, shownTriple_eq (x := b) (z := c) (by omega) (by omega),
      between_eq]
    grind

/-- Of a number twice and another one, the other one is shown in the middle. -/
theorem shownTriple_self (a c : Int) : shownTriple a a c = [min a c, c, max a c] := by
  rw [shownTriple_eq (x := min a c) (z := max a c) (by omega) (by omega), between_eq]
  grind

/-- **The numbers that are shown are the given ones in ascending order** if and only if the first
two are different or all three are the same. -/
theorem shownTriple_sorted_iff :
    ((shownTriple a b c).Perm [a, b, c] ∧ (shownTriple a b c).Pairwise (· ≤ ·)) ↔
      (a = b → b = c) := by
  constructor
  · rintro ⟨hperm, -⟩ rfl
    rw [shownTriple_self] at hperm
    -- the third number is the least or the greatest as well, so that it is shown twice
    have hcount := hperm.count_eq c
    grind
  · intro htie
    rcases Int.lt_trichotomy a b with hlt | rfl | hgt
    · rw [shownTriple_of_lt hlt]
      split
      · exact ⟨((List.Perm.swap a c [b]).trans ((List.Perm.swap b c []).cons a)), by grind⟩
      · split
        · exact ⟨(List.Perm.swap b c []).cons a, by grind⟩
        · exact ⟨.refl _, by grind⟩
    · obtain rfl := htie rfl
      rw [shownTriple_self, Int.min_self, Int.max_self]
      exact ⟨.refl _, by grind⟩
    · rw [shownTriple_of_gt hgt]
      split
      · exact ⟨List.reverse_perm [a, b, c], by grind⟩
      · split
        · exact ⟨((List.Perm.swap a c []).cons b).trans (.swap a b [c]), by grind⟩
        · exact ⟨.swap a b [c], by grind⟩

end Numbers

/-! ### The lines of a text -/

theorem withLines_cons (text line : String) (lines : List String) :
    withLines text (line :: lines) = withLines (text ++ line ++ "\n") lines := by
  rw [String.append_assoc]
  rfl

/-- A text to which lines were added, cut at its line feeds. -/
theorem splitAt_withLines {lines : List String} (hlines : ∀ line ∈ lines, '\n' ∉ line.toList)
    (text : String) : Text.splitAt '\n' (withLines (text ++ "\n") lines).toList =
      Text.splitAt '\n' text.toList ++ (lines.map String.toList ++ [[]]) := by
  induction lines generalizing text with
  | nil =>
    have hlast : (withLines (text ++ "\n") []).toList = text.toList ++ ['\n'] :=
      String.toList_append
    rw [hlast, Layout.splitAt_append_mark]
    rfl
  | cons line lines ih =>
    obtain ⟨hline, hrest⟩ := List.forall_mem_cons.mp hlines
    have hchars : (text ++ "\n" ++ line).toList = text.toList ++ '\n' :: line.toList := by
      rw [String.toList_append, String.toList_append, List.append_assoc]
      rfl
    rw [withLines_cons, ih hrest, hchars, Layout.splitAt_append_mark,
      Layout.splitAt_of_not_mem hline, List.append_assoc]
    rfl

/-- **The lines at the end of a text can be told from it**, if a line feed stands in front of
them. -/
theorem withLines_inj {text text' : String} {lines lines' : List String}
    (hlines : ∀ line ∈ lines, '\n' ∉ line.toList) (hlines' : ∀ line ∈ lines', '\n' ∉ line.toList)
    (hlength : lines.length = lines'.length)
    (h : withLines (text ++ "\n") lines = withLines (text' ++ "\n") lines') : lines = lines' := by
  have hsplit := congrArg (fun t : String => Text.splitAt '\n' t.toList) h
  rw [splitAt_withLines hlines, splitAt_withLines hlines'] at hsplit
  have hparts := List.append_inj_right' hsplit (by simp [hlength])
  exact List.map_injective_iff.mpr (fun _ _ => String.toList_inj.mp)
    (List.append_inj_left' hparts rfl)

/-! ### Written numbers -/

namespace Number

theorem toList_writeInt (n : Int) : (writeInt n).toList =
    if n < 0 then '-' :: Nat.toDigits 10 n.natAbs else Nat.toDigits 10 n.natAbs := by
  rw [writeInt]
  split
  · simp
  · simp

theorem isDigit_of_mem_toDigits {n : Nat} {c : Char} (h : c ∈ Nat.toDigits 10 n) :
    c.isDigit = true :=
  Nat.isDigit_of_mem_toDigits (by decide) (by decide) h

/-- A written number stands in one line. -/
theorem lineFeed_not_mem_writeInt (n : Int) : '\n' ∉ (writeInt n).toList := by
  have hdigits : '\n' ∉ Nat.toDigits 10 n.natAbs := by
    intro hmem
    exact absurd (isDigit_of_mem_toDigits hmem) (by decide)
  rw [toList_writeInt]
  split
  · rw [List.mem_cons, not_or]
    exact ⟨by decide, hdigits⟩
  · exact hdigits

/-- **A whole number can be told from its text.** -/
theorem writeInt_injective {n k : Int} (h : writeInt n = writeInt k) : n = k := by
  have habs : ∀ {x y : Nat}, Nat.toDigits 10 x = Nat.toDigits 10 y → x = y := by
    intro x y hxy
    rw [← Nat.ofDigitChars_ten_toDigits (n := x), hxy, Nat.ofDigitChars_ten_toDigits]
  have hsign : ∀ {x : Nat} {cs : List Char}, Nat.toDigits 10 x ≠ '-' :: cs := by
    intro x cs hx
    have hdash : '-' ∈ Nat.toDigits 10 x := by simp [hx]
    exact absurd (isDigit_of_mem_toDigits hdash) (by decide)
  have hchars := congrArg String.toList h
  rw [toList_writeInt, toList_writeInt] at hchars
  split at hchars
  · split at hchars
    · have := habs (List.tail_eq_of_cons_eq hchars)
      omega
    · exact absurd hchars.symm hsign
  · split at hchars
    · exact absurd hchars hsign
    · have := habs hchars
      omega

end Number

/-! ### The text of the shortcut -/

/-- The heading over the sorted numbers. -/
def sortedHeading : String := "Vetor ordenado:"

/-- The text ends with the heading and, one in a line, the given numbers in ascending order. -/
def EndsSorted (text : String) (numbers : List Int) : Prop :=
  ∃ (front : String) (sorted : List Int), sorted.Perm numbers ∧ sorted.Pairwise (· ≤ ·) ∧
    text = withLines front (sortedHeading :: sorted.map Number.writeInt)

/-- A text under whose heading some numbers stand ends with the given ones in ascending order if
they are the given ones in ascending order. -/
theorem endsSorted_withLines_iff {front : String} {shown numbers : List Int}
    (hlength : shown.length = numbers.length) :
    EndsSorted (withLines front (sortedHeading :: shown.map Number.writeInt)) numbers ↔
      shown.Perm numbers ∧ shown.Pairwise (· ≤ ·) := by
  constructor
  · rintro ⟨front', sorted, hperm, hsorted, htext⟩
    have hlines (ns : List Int) : ∀ line ∈ ns.map Number.writeInt, '\n' ∉ line.toList :=
      List.forall_mem_map.mpr fun n _ => Number.lineFeed_not_mem_writeInt n
    rw [withLines_cons, withLines_cons] at htext
    have hsame := withLines_inj (hlines shown) (hlines sorted) (by simp [hlength, hperm.length_eq])
      htext
    rw [List.map_injective_iff.mpr (fun _ _ => Number.writeInt_injective) hsame]
    exact ⟨hperm, hsorted⟩
  · rintro ⟨hperm, hsorted⟩
    exact ⟨front, shown, hperm, hsorted, rfl⟩

section Run

variable {m : Machine} {l₁ l₂ l₃ : String} {rest : List String} {a b c : Int}

/-- On three lines that spell whole numbers the shortcut leaves a text that ends with the heading
and the numbers that are shown. -/
theorem exists_sortThree (hinput : m.input = l₁ :: l₂ :: l₃ :: rest) (huncut : m.outputsLeft = none)
    (ha : intOfText l₁ = .ok a) (hb : intOfText l₂ = .ok b) (hc : intOfText l₃ = .ok c) :
    ∃ m' front, sortThree m = .ok () m' ∧
      m'.output = withLines front (sortedHeading :: (shownTriple a b c).map Number.writeInt) := by
  let s : View := ⟨m.input, m.output, fun x => m.scopes.top.get? x⟩
  obtain ⟨m', hrun, hshows⟩ :=
    yields_sortThree (s := s) hinput ha hb hc m ⟨rfl, rfl, fun _ => rfl, huncut⟩
  -- the heading is the ninth line of the dialogue
  exact ⟨m', withLines m.output ((dialogue a b c).take 8), hrun, hshows.written⟩

theorem endsSorted_shownTriple_iff (front : String) :
    EndsSorted (withLines front (sortedHeading :: (shownTriple a b c).map Number.writeInt))
      [a, b, c] ↔ (a = b → b = c) := by
  have hlength : (shownTriple a b c).length = [a, b, c].length := rfl
  rw [endsSorted_withLines_iff hlength]
  exact shownTriple_sorted_iff

/-- **The shortcut sorts all triples but those whose first two numbers are the same and whose third
is another.**  On every machine whose next three lines of input spell whole numbers it runs without
a fault, and the text that it leaves ends with the heading and these numbers in ascending order if
and only if the first two numbers are different or all three are the same. -/
theorem sortThree_endsSorted_iff (hinput : m.input = l₁ :: l₂ :: l₃ :: rest)
    (huncut : m.outputsLeft = none) (ha : intOfText l₁ = .ok a) (hb : intOfText l₂ = .ok b)
    (hc : intOfText l₃ = .ok c) :
    ∃ m', sortThree m = .ok () m' ∧ (EndsSorted m'.output [a, b, c] ↔ (a = b → b = c)) := by
  obtain ⟨m', front, hrun, houtput⟩ := exists_sortThree hinput huncut ha hb hc
  refine ⟨m', hrun, ?_⟩
  rw [houtput]
  exact endsSorted_shownTriple_iff front

end Run

/-- A tie of the first and the third number does no harm. -/
theorem sortThree_endsSorted_of_outer_tie :
    ∃ m', sortThree (.initial "2\n-1\n2\n" false none []) = .ok () m' ∧
      EndsSorted m'.output [2, -1, 2] := by
  have hinput : (Machine.initial "2\n-1\n2\n" false none []).input = ["2", "-1", "2"] :=
    rfl
  have htwo : intOfText "2" = .ok 2 := rfl
  have hone : intOfText "-1" = .ok (-1) := rfl
  obtain ⟨m', hrun, hsorted⟩ := sortThree_endsSorted_iff hinput rfl htwo hone htwo
  exact ⟨m', hrun, hsorted.mpr (by decide)⟩

/-- The numbers `1`, `1` and `2` are not shown in ascending order. -/
theorem sortThree_not_endsSorted_of_first_tie :
    ¬ ∃ m', sortThree (.initial "1\n1\n2\n" false none []) = .ok () m' ∧
      EndsSorted m'.output [1, 1, 2] := by
  have hinput : (Machine.initial "1\n1\n2\n" false none []).input = ["1", "1", "2"] :=
    rfl
  have hone : intOfText "1" = .ok 1 := rfl
  have htwo : intOfText "2" = .ok 2 := rfl
  obtain ⟨m₁, front, hrun, houtput⟩ := exists_sortThree hinput rfl hone hone htwo
  rintro ⟨m₂, hrun', hsorted⟩
  cases hrun.symm.trans hrun'
  rw [houtput, endsSorted_shownTriple_iff] at hsorted
  exact absurd (hsorted rfl) (by decide)

end SeqPar
