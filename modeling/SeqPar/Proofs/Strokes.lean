import SeqPar.Proofs.Phrases

/-!
# Strokes of a text

The steps of the standard layout that look for conditionals and loops put blanks next to parentheses
and braces around statements.  They cut no word in two and put no two words together.  To say so, a
text is cut into its **strokes**: the parts between blanks, semicolons, braces and parentheses, where
every parenthesis is a stroke of its own.

Strokes are finer than runs, so the line steps keep them as well.  A text without its layout is its
strokes one after the other, and a word stands in a text exactly when it stands in one of the strokes.
Therefore a text without functions and marked blocks stays, layout apart, what it is.

## Main definitions

* `strokesFrom`, `strokes` — the strokes of a text.
* `Respaced xs ys` — the texts `xs` and `ys` can stand for each other in every text without a change
  of its strokes.
* `withoutLayout` — a text without blanks, semicolons and braces.

## Main results

* `infix_iff_exists_stroke` — a word stands in a text when it stands in a stroke.
* `respaced_guarded` — a conditional or loop that gets braces keeps its strokes.
* `strokes_standardiseChars` — the standard layout keeps the strokes of a text without functions and
  marked blocks.
* `withoutLayout_standardise` — **the standard layout of such a text differs from it in layout
  only.**
-/

namespace SeqPar.Layout

open SeqPar.Text

attribute [local instance] decidableForallMem

/-! ### Strokes -/

/-- The stroke that a boundary is: none for layout, and a parenthesis otherwise. -/
def ownStroke (c : Char) : List (List Char) :=
  if isLayout c then [] else [[c]]

/-- The strokes of a text after a part that belongs to the first of them. -/
def strokesFrom (run : List Char) : List Char → List (List Char)
  | [] => wholeRun run
  | c :: cs =>
    if isBoundary c then wholeRun run ++ (ownStroke c ++ strokesFrom [] cs)
    else strokesFrom (run ++ [c]) cs

/-- The strokes of a text: its parentheses, and its parts between blanks, semicolons, braces and
parentheses. -/
def strokes (cs : List Char) : List (List Char) :=
  strokesFrom [] cs

@[simp] theorem strokes_nil : strokes [] = [] :=
  rfl

theorem strokesFrom_boundary {c : Char} (hc : isBoundary c = true) (run cs : List Char) :
    strokesFrom run (c :: cs) = wholeRun run ++ (ownStroke c ++ strokes cs) := by
  rw [strokesFrom, if_pos hc]
  rfl

theorem strokesFrom_other {c : Char} (hc : isBoundary c = false) (run cs : List Char) :
    strokesFrom run (c :: cs) = strokesFrom (run ++ [c]) cs := by
  rw [strokesFrom, if_neg (by simp [hc])]

/-- After a boundary the strokes start afresh. -/
theorem strokesFrom_append_boundary {c : Char} (hc : isBoundary c = true) (run xs cs : List Char) :
    strokesFrom run (xs ++ c :: cs) = strokesFrom run xs ++ (ownStroke c ++ strokes cs) := by
  induction xs generalizing run with
  | nil => exact strokesFrom_boundary hc run cs
  | cons d xs ih =>
    rw [List.cons_append]
    cases hd : isBoundary d with
    | true =>
      have hrest : strokes (xs ++ c :: cs) = strokes xs ++ (ownStroke c ++ strokes cs) := ih []
      rw [strokesFrom_boundary hd, strokesFrom_boundary hd, hrest]
      simp only [List.append_assoc]
    | false => rw [strokesFrom_other hd, strokesFrom_other hd, ih]

theorem ownStroke_layout {c : Char} (hc : isLayout c = true) : ownStroke c = [] :=
  if_pos hc

theorem strokes_append_layout {c : Char} (hc : isLayout c = true) (xs cs : List Char) :
    strokes (xs ++ c :: cs) = strokes xs ++ strokes cs := by
  have hsplit : strokes (xs ++ c :: cs) = strokes xs ++ (ownStroke c ++ strokes cs) :=
    strokesFrom_append_boundary (isBoundary_of_isLayout hc) [] xs cs
  rw [hsplit, ownStroke_layout hc, List.nil_append]

/-- Layout in front of a text makes no difference to its strokes. -/
theorem strokes_layout_append {gap : List Char} (hgap : ∀ c ∈ gap, isLayout c = true)
    (cs : List Char) : strokes (gap ++ cs) = strokes cs := by
  induction gap with
  | nil => rfl
  | cons c gap ih =>
    rw [List.forall_mem_cons] at hgap
    have hfirst : strokes (c :: (gap ++ cs)) = strokes [] ++ strokes (gap ++ cs) :=
      strokes_append_layout hgap.1 [] (gap ++ cs)
    rw [List.cons_append, hfirst, ih hgap.2, strokes_nil, List.nil_append]

/-! ### Strokes and runs -/

theorem flatMap_strokes_wholeRun (run : List Char) :
    (wholeRun run).flatMap strokes = strokes run := by
  cases run with
  | nil => rfl
  | cons c run => simp [wholeRun]

/-- The strokes of a text are those of its runs. -/
theorem flatMap_strokes_runsFrom (run cs : List Char) :
    (runsFrom run cs).flatMap strokes = strokes (run ++ cs) := by
  induction cs generalizing run with
  | nil =>
    rw [List.append_nil]
    exact flatMap_strokes_wholeRun run
  | cons c cs ih =>
    cases hc : isLayout c with
    | true =>
      have hrest : (runs cs).flatMap strokes = strokes cs := ih []
      rw [runsFrom_layout hc, List.flatMap_append, flatMap_strokes_wholeRun, hrest,
        strokes_append_layout hc]
    | false => rw [runsFrom_other hc, ih, List.append_assoc, List.singleton_append]

/-- Texts with the same runs have the same strokes. -/
theorem strokes_eq_of_runs_eq {cs cs' : List Char} (h : runs cs = runs cs') :
    strokes cs = strokes cs' := by
  have hflat : ∀ cs, (runs cs).flatMap strokes = strokes cs := flatMap_strokes_runsFrom []
  rw [← hflat cs, ← hflat cs', h]

/-! ### Strokes and the text -/

/-- A text without blanks, semicolons and braces. -/
def withoutLayout (cs : List Char) : List Char :=
  cs.filter (!isLayout ·)

theorem flatten_wholeRun (run : List Char) : (wholeRun run).flatten = run := by
  cases run with
  | nil => rfl
  | cons c run => simp [wholeRun]

theorem flatten_ownStroke (c : Char) : (ownStroke c).flatten = withoutLayout [c] := by
  cases hc : isLayout c with
  | true => simp [ownStroke, withoutLayout, hc]
  | false => simp [ownStroke, withoutLayout, hc]

theorem flatten_strokesFrom (run cs : List Char) :
    (strokesFrom run cs).flatten = run ++ withoutLayout cs := by
  induction cs generalizing run with
  | nil =>
    rw [strokesFrom, flatten_wholeRun]
    simp [withoutLayout]
  | cons c cs ih =>
    have hcons : withoutLayout (c :: cs) = withoutLayout [c] ++ withoutLayout cs :=
      List.filter_append [c] cs
    cases hc : isBoundary c with
    | true =>
      have hrest : (strokes cs).flatten = withoutLayout cs := ih []
      rw [strokesFrom_boundary hc, List.flatten_append, List.flatten_append, flatten_wholeRun,
        flatten_ownStroke, hrest, hcons]
    | false =>
      have hkept : withoutLayout [c] = [c] := by
        have hlayout : isLayout c = false := by
          by_contra hlayout
          simp [isBoundary_of_isLayout (by simpa using hlayout)] at hc
        simp [withoutLayout, hlayout]
      rw [strokesFrom_other hc, ih, hcons, hkept, List.append_assoc]

/-- The strokes of a text, one after the other, are the text without its layout. -/
theorem flatten_strokes (cs : List Char) : (strokes cs).flatten = withoutLayout cs :=
  flatten_strokesFrom [] cs

theorem mem_wholeRun {run stroke : List Char} (h : stroke ∈ wholeRun run) : stroke = run := by
  rw [wholeRun] at h
  split at h
  · simp at h
  · exact List.mem_singleton.mp h

/-- A stroke stands in its text. -/
theorem infix_of_mem_strokesFrom {run cs stroke : List Char} (h : stroke ∈ strokesFrom run cs) :
    stroke <:+: run ++ cs := by
  induction cs generalizing run with
  | nil =>
    rw [strokesFrom] at h
    exact ⟨[], [], by rw [mem_wholeRun h, List.nil_append]⟩
  | cons c cs ih =>
    cases hc : isBoundary c with
    | true =>
      rw [strokesFrom_boundary hc, List.mem_append, List.mem_append] at h
      rcases h with hrun | hown | hrest
      · rw [mem_wholeRun hrun]
        exact (List.prefix_append run (c :: cs)).isInfix
      · have hstroke : stroke = [c] := by
          rw [ownStroke] at hown
          split at hown
          · simp at hown
          · exact List.mem_singleton.mp hown
        exact ⟨run, cs, by simp [hstroke]⟩
      · have hin : stroke <:+: cs := @ih [] hrest
        exact hin.trans ⟨run ++ [c], [], by simp⟩
    | false =>
      rw [strokesFrom_other hc] at h
      have hin := ih h
      rwa [List.append_assoc, List.singleton_append] at hin

/-- A word without a character stands before it or behind it. -/
theorem infix_append_cons {word xs ys : List Char} {c : Char} (hc : c ∉ word)
    (h : word <:+: xs ++ c :: ys) : word <:+: xs ∨ word <:+: ys := by
  obtain ⟨front, back, heq⟩ := h
  rw [List.append_assoc] at heq
  rcases List.append_eq_append_iff.mp heq with ⟨mid, hxs, hrest⟩ | ⟨mid, hfront, hrest⟩
  · rcases List.append_eq_append_iff.mp hrest with ⟨tail, hmid, hback⟩ | ⟨tail, hword, htail⟩
    · refine .inl ⟨front, tail, ?_⟩
      rw [hxs, hmid, List.append_assoc]
    · cases tail with
      | nil =>
        refine .inl ⟨front, [], ?_⟩
        rw [hxs, hword, List.append_nil, List.append_nil]
      | cons d tail =>
        have hd : c = d := (List.cons.inj htail).1
        exact absurd (by simp [hword, hd]) hc
  · cases mid with
    | nil =>
      rw [List.nil_append] at hrest
      cases word with
      | nil => exact .inl List.nil_infix
      | cons d word =>
        have hd : c = d := (List.cons.inj hrest).1
        exact absurd (by simp [hd]) hc
    | cons d mid =>
      have htail : ys = mid ++ (word ++ back) := (List.cons.inj hrest).2
      exact .inr ⟨mid, back, by rw [htail, List.append_assoc]⟩

/-- A word without boundaries stands in a stroke if it stands in the text. -/
theorem exists_stroke_of_isInfix {word : List Char} (hne : word ≠ [])
    (hword : ∀ c ∈ word, isBoundary c = false) {run cs : List Char} (h : word <:+: run ++ cs) :
    ∃ stroke ∈ strokesFrom run cs, word <:+: stroke := by
  induction cs generalizing run with
  | nil =>
    rw [List.append_nil] at h
    refine ⟨run, ?_, h⟩
    have hrun : run ≠ [] := by
      rintro rfl
      exact hne (List.infix_nil.mp h)
    simp [strokesFrom, wholeRun, hrun]
  | cons c cs ih =>
    cases hc : isBoundary c with
    | true =>
      have hnot : c ∉ word := by
        intro hmem
        simp [hword c hmem] at hc
      rw [strokesFrom_boundary hc]
      rcases infix_append_cons hnot h with hrun | hcs
      · refine ⟨run, List.mem_append_left _ ?_, hrun⟩
        have hrun' : run ≠ [] := by
          rintro rfl
          exact hne (List.infix_nil.mp hrun)
        simp [wholeRun, hrun']
      · obtain ⟨stroke, hmem, hin⟩ := @ih [] hcs
        exact ⟨stroke, List.mem_append_right _ (List.mem_append_right _ hmem), hin⟩
    | false =>
      rw [strokesFrom_other hc]
      exact ih (by rwa [List.append_assoc, List.singleton_append])

/-- A word without boundaries stands in a text exactly when it stands in a stroke. -/
theorem infix_iff_exists_stroke {word : List Char} (hne : word ≠ [])
    (hword : ∀ c ∈ word, isBoundary c = false) (cs : List Char) :
    word <:+: cs ↔ ∃ stroke ∈ strokes cs, word <:+: stroke := by
  constructor
  · intro h
    exact @exists_stroke_of_isInfix word hne hword [] cs h
  · rintro ⟨stroke, hmem, hin⟩
    exact hin.trans (infix_of_mem_strokesFrom hmem)

/-! ### Texts that can stand for each other -/

/-- The texts `xs` and `ys` can stand for each other in every text without a change of its strokes. -/
def Respaced (xs ys : List Char) : Prop :=
  ∀ run rest, strokesFrom run (xs ++ rest) = strokesFrom run (ys ++ rest)

namespace Respaced

theorem refl (xs : List Char) : Respaced xs xs :=
  fun _ _ => rfl

theorem trans {xs ys zs : List Char} (h : Respaced xs ys) (h' : Respaced ys zs) :
    Respaced xs zs :=
  fun run rest => (h run rest).trans (h' run rest)

theorem strokes_eq {xs ys : List Char} (h : Respaced xs ys) : strokes xs = strokes ys := by
  have hnil := h [] []
  rwa [List.append_nil, List.append_nil] at hnil

theorem append_left (front : List Char) {xs ys : List Char} (h : Respaced xs ys) :
    Respaced (front ++ xs) (front ++ ys) := by
  intro run rest
  rw [List.append_assoc, List.append_assoc]
  induction front generalizing run with
  | nil => exact h run rest
  | cons c front ih =>
    have hrest : strokes (front ++ (xs ++ rest)) = strokes (front ++ (ys ++ rest)) := ih []
    simp only [List.cons_append]
    cases hc : isBoundary c with
    | true => rw [strokesFrom_boundary hc, strokesFrom_boundary hc, hrest]
    | false => rw [strokesFrom_other hc, strokesFrom_other hc, ih]

theorem append {xs xs' ys ys' : List Char} (hxs : Respaced xs xs') (hys : Respaced ys ys') :
    Respaced (xs ++ ys) (xs' ++ ys') := by
  refine (hys.append_left xs).trans ?_
  intro run rest
  rw [List.append_assoc, List.append_assoc]
  exact hxs run (ys' ++ rest)

/-- The layout in front of a boundary does not matter. -/
theorem before_boundary {gap gap' : List Char} (hgap : ∀ c ∈ gap, isLayout c = true)
    (hgap' : ∀ c ∈ gap', isLayout c = true) {c : Char} (hc : isBoundary c = true) :
    Respaced (gap ++ [c]) (gap' ++ [c]) := by
  have hsame : ∀ {gap : List Char}, (∀ c ∈ gap, isLayout c = true) → ∀ run rest,
      strokesFrom run (gap ++ c :: rest) = wholeRun run ++ (ownStroke c ++ strokes rest) := by
    intro gap hgap run rest
    cases gap with
    | nil => exact strokesFrom_boundary hc run rest
    | cons d gap =>
      rw [List.forall_mem_cons] at hgap
      have hrest : strokes (c :: rest) = ownStroke c ++ strokes rest :=
        strokesFrom_boundary hc [] rest
      rw [List.cons_append, strokesFrom_boundary (isBoundary_of_isLayout hgap.1),
        ownStroke_layout hgap.1, List.nil_append, strokes_layout_append hgap.2, hrest]
  intro run rest
  rw [List.append_assoc, List.append_assoc, List.singleton_append, hsame hgap, hsame hgap']

/-- The layout behind a boundary does not matter. -/
theorem behind_boundary {gap gap' : List Char} (hgap : ∀ c ∈ gap, isLayout c = true)
    (hgap' : ∀ c ∈ gap', isLayout c = true) {c : Char} (hc : isBoundary c = true) :
    Respaced (c :: gap) (c :: gap') := by
  intro run rest
  rw [List.cons_append, List.cons_append, strokesFrom_boundary hc, strokesFrom_boundary hc,
    strokes_layout_append hgap, strokes_layout_append hgap']

end Respaced

/-- A matcher that puts in place of every phrase a text with the strokes of the phrase. -/
def Respaces (m : Matcher) : Prop :=
  ∀ cs replacement length, m cs = some (replacement, length) → ∃ phrase rest, phrase ≠ [] ∧
    cs = phrase ++ rest ∧ phrase.length = length ∧ Respaced replacement phrase

/-- Replacing phrases by texts with the same strokes keeps the strokes. -/
theorem Respaces.replaceMatches {m : Matcher} (h : Respaces m) (cs : List Char) :
    Respaced (replaceMatches m cs) cs := by
  induction hlen : cs.length using Nat.strongRecOn generalizing cs with
  | ind n ih =>
    subst hlen
    cases cs with
    | nil => exact .refl []
    | cons c cs =>
      cases hfound : m (c :: cs) with
      | none =>
        have hstep : Layout.replaceMatches m (c :: cs) = [c] ++ Layout.replaceMatches m cs := by
          rw [Layout.replaceMatches, replaceFrom, hfound]
          rfl
        rw [hstep]
        exact (ih _ (by simp) cs rfl).append_left [c]
      | some found =>
        obtain ⟨replacement, length⟩ := found
        obtain ⟨phrase, rest, hne, hcs, rfl, hsame⟩ := h _ _ _ hfound
        have hshort : rest.length < (c :: cs).length := by
          have hpos := List.length_pos_of_ne_nil hne
          rw [hcs, List.length_append]
          omega
        rw [hcs] at hfound ⊢
        rw [replaceMatches_of_some hne hfound]
        exact hsame.append (ih _ hshort rest rfl)

/-! ### Conditionals and loops -/

theorem parenthesised?_eq_some {cs inner rest : List Char}
    (h : parenthesised? cs = some (inner, rest)) : cs = '(' :: (inner ++ ')' :: rest) := by
  unfold parenthesised? at h
  split at h
  · rename_i body
    have hsplit : body.takeWhile (· != ')') ++ body.dropWhile (· != ')') = body :=
      List.takeWhile_append_dropWhile
    split at h
    · simp at h
    · rename_i c tail hdrop
      have hc : c = ')' := by
        have hhead := List.head?_dropWhile_not (· != ')') body
        rw [hdrop] at hhead
        simpa using hhead
      rw [Option.some.injEq, Prod.mk.injEq] at h
      rw [hdrop, h.1, h.2, hc] at hsplit
      rw [hsplit]
  · simp at h

/-- What the head of a conditional or loop is. -/
theorem guardHead?_eq_some {word cs condition rest : List Char}
    (h : guardHead? word cs = some (condition, rest)) :
    ∃ gap, (∀ c ∈ gap, isBlank c = true) ∧
      cs = word ++ (gap ++ '(' :: (condition ++ ')' :: rest)) := by
  unfold guardHead? at h
  cases hafter : after? word cs with
  | none => simp [hafter] at h
  | some afterWord =>
    have hcs : cs = word ++ afterWord := by
      unfold after? at hafter
      split at hafter
      · rename_i hpre
        obtain ⟨tail, rfl⟩ := List.isPrefixOf_iff_prefix.mp hpre
        simpa using hafter
      · simp at hafter
    cases hparen : parenthesised? (trimLeft afterWord) with
    | none => simp [hafter, hparen] at h
    | some found =>
      obtain ⟨inner, after⟩ := found
      have hfound : (inner, after) = (condition, rest) := by
        simp only [hafter, hparen, Option.bind_eq_bind, Option.bind_some] at h
        split at h
        · simp at h
        · simpa using h
      rw [hfound] at hparen
      refine ⟨afterWord.takeWhile isBlank, List.all_eq_true.mp List.all_takeWhile, ?_⟩
      rw [hcs, ← parenthesised?_eq_some hparen, trimLeft, List.takeWhile_append_dropWhile]

/-- The first statement after a head ends with its semicolon. -/
theorem firstStatement?_eq_some {cs statement tail : List Char}
    (h : firstStatement? cs = some (statement, tail)) :
    cs = statement ++ tail ∧ ∃ front, statement = front ++ [';'] := by
  unfold firstStatement? at h
  split at h
  · simp at h
  · rename_i c rest
    split at h
    · simp at h
    · split at h
      · simp at h
      · rename_i mark rest' hdrop
        have hmark : mark = ';' := by
          have hhead := List.head?_dropWhile_not (· != ';') rest
          rw [hdrop] at hhead
          simpa using hhead
        have hsplit : rest.takeWhile (· != ';') ++ rest.dropWhile (· != ';') = rest :=
          List.takeWhile_append_dropWhile
        rw [Option.some.injEq, Prod.mk.injEq] at h
        obtain ⟨rfl, rfl⟩ := h
        refine ⟨?_, c :: rest.takeWhile (· != ';'), by rw [hmark]⟩
        rw [hdrop] at hsplit
        rw [List.append_assoc, List.singleton_append, List.cons_append, hsplit]

/-- A trimmed text that ends with a semicolon lacks only the blanks in front. -/
theorem exists_trim_semicolon (front : List Char) : ∃ gap body, (∀ c ∈ gap, isBlank c = true) ∧
    front ++ [';'] = gap ++ (body ++ [';']) ∧ trim (front ++ [';']) = body ++ [';'] := by
  obtain ⟨gap, r, hgap, hr, heq⟩ := exists_trim (front ++ [';'])
  -- the last character is the semicolon, so no blanks are missing at the end
  have hnil : r = [] := by
    rcases List.eq_nil_or_concat r with hnil | ⟨r', c, rfl⟩
    · exact hnil
    · rw [List.concat_eq_append, ← List.append_assoc] at heq
      have hsemi : ';' = c := by simpa using (List.append_inj' heq rfl).2
      have hblank := hr c (by simp)
      rw [← hsemi] at hblank
      exact absurd hblank (by decide)
  rw [hnil, List.append_nil] at heq
  rcases List.eq_nil_or_concat (trim (front ++ [';'])) with hempty | ⟨body, c, hbody⟩
  · rw [hempty, List.append_nil] at heq
    have hblank := hgap ';' (by simp [← heq])
    exact absurd hblank (by decide)
  · rw [hbody, List.concat_eq_append, ← List.append_assoc] at heq
    have hsemi : ';' = c := by simpa using (List.append_inj' heq rfl).2
    rw [List.concat_eq_append, ← hsemi] at hbody
    refine ⟨gap, body, hgap, ?_, hbody⟩
    rw [heq, ← hsemi, List.append_assoc]

/-- The statement after a closing parenthesis and the same statement in braces have the same
strokes. -/
theorem respaced_braced (head front : List Char) :
    Respaced (braced (head ++ [')']) (trim (front ++ [';'])))
      (head ++ ')' :: (front ++ [';'])) := by
  obtain ⟨gap, body, hgap, hfront, htrim⟩ := exists_trim_semicolon front
  have hopen : Respaced (')' :: " \x7b\n    ".toList) (')' :: gap) :=
    .behind_boundary (by decide) (fun c hc => isLayout_of_isBlank (hgap c hc)) (by decide)
  have hclose : Respaced [';', '\n', '\x7d'] [';'] :=
    .behind_boundary (by decide) (List.forall_mem_nil _) (by decide)
  have hall := (hopen.append (hclose.append_left body)).append_left head
  rw [braced, htrim, hfront]
  generalize " \x7b\n    ".toList = opening at hall ⊢
  simpa using hall

/-- What adding braces to a statement puts in place of what. -/
theorem bracedStatement_eq_some {front head rest replacement : List Char} {length : Nat}
    (h : bracedStatement (front ++ rest) head rest = some (replacement, length)) :
    ∃ inner tail, rest = inner ++ ';' :: tail ∧ length = (front ++ (inner ++ [';'])).length ∧
      (replacement = front ++ (inner ++ [';']) ∨ replacement = braced head (trim (inner ++ [';']))) := by
  unfold bracedStatement at h
  cases hfirst : firstStatement? rest with
  | none => simp [hfirst] at h
  | some found =>
    obtain ⟨statement, tail⟩ := found
    obtain ⟨hrest, inner, rfl⟩ := firstStatement?_eq_some hfirst
    have hlength : (front ++ rest).length - tail.length = (front ++ (inner ++ [';'])).length := by
      rw [hrest, ← List.append_assoc, List.length_append]
      omega
    have htake : (front ++ rest).take (front ++ (inner ++ [';'])).length =
        front ++ (inner ++ [';']) := by
      rw [hrest, ← List.append_assoc front (inner ++ [';']) tail, List.take_left]
    refine ⟨inner, tail, by rw [hrest]; simp, ?_⟩
    simp only [hfirst, Option.bind_eq_bind, Option.bind_some, hlength, htake] at h
    split at h
    · simp only [Option.pure_def, Option.some.injEq, Prod.mk.injEq] at h
      exact ⟨h.2.symm, .inl h.1.symm⟩
    · simp only [Option.pure_def, Option.some.injEq, Prod.mk.injEq] at h
      exact ⟨h.2.symm, .inr h.1.symm⟩

/-- **A conditional or loop that gets braces keeps its strokes.** -/
theorem respaced_guarded {word : List Char} (hword : word ≠ []) : Respaces (guarded word) := by
  intro cs replacement length h
  unfold guarded at h
  cases hhead : guardHead? word cs with
  | none => simp [hhead] at h
  | some found =>
    obtain ⟨condition, rest⟩ := found
    obtain ⟨gap, hgap, hcs⟩ := guardHead?_eq_some hhead
    have hfront : cs = (word ++ (gap ++ '(' :: (condition ++ [')']))) ++ rest := by
      rw [hcs]
      simp
    simp only [hhead, Option.bind_eq_bind, Option.bind_some] at h
    rw [hfront] at h ⊢
    obtain ⟨inner, tail, rfl, rfl, hreplaced⟩ := bracedStatement_eq_some h
    refine ⟨_, tail, ?_, ?_, rfl, ?_⟩
    · simp [hword]
    · simp
    · rcases hreplaced with rfl | rfl
      · exact .refl _
      · have hparen : Respaced ([' '] ++ ['(']) (gap ++ ['(']) :=
          .before_boundary (by decide) (fun c hc => isLayout_of_isBlank (hgap c hc)) (by decide)
        have hbody := respaced_braced (word ++ ' ' :: '(' :: condition) inner
        have hcondition :=
          (hparen.append (.refl (condition ++ ')' :: (inner ++ [';'])))).append_left word
        simp only [List.append_assoc, List.cons_append, List.nil_append]
          at hbody hcondition ⊢
        exact hbody.trans hcondition

/-! ### The steps before the phrases -/

theorem runs_of_segments_eq {cs cs' : List Char} (h : segments cs = segments cs') :
    runs cs = runs cs' :=
  (Completes.of_eq h).runs_eq

theorem strokes_lineBreaks (cs : List Char) :
    strokes (substitute ['\r', '\n'] ['\n'] cs) = strokes cs :=
  strokes_eq_of_runs_eq (runs_of_segments_eq (segmentsFrom_substitute_lineBreaks [] cs))

theorem strokes_standardiseLines (cs : List Char) :
    strokes (standardiseLines cs) = strokes cs :=
  (strokes_eq_of_runs_eq (completes_standardiseLines cs).runs_eq).symm

/-- Layout at the end of a text makes no difference to its strokes. -/
theorem strokes_append_gap {gap : List Char} (hgap : ∀ c ∈ gap, isLayout c = true)
    (cs : List Char) : strokes (cs ++ gap) = strokes cs := by
  cases gap with
  | nil => rw [List.append_nil]
  | cons c gap =>
    rw [List.forall_mem_cons] at hgap
    have hnil : strokes gap = strokes [] := by
      simpa using strokes_layout_append hgap.2 []
    rw [strokes_append_layout hgap.1, hnil, strokes_nil, List.append_nil]

theorem strokes_trimRight (cs : List Char) : strokes (trimRight cs) = strokes cs := by
  have hblank : ∀ c ∈ cs.rtakeWhile isBlank, isLayout c = true := by
    intro c hc
    exact isLayout_of_isBlank (List.mem_rtakeWhile_imp hc)
  have hsplit : trimRight cs ++ cs.rtakeWhile isBlank = cs := by
    rw [trimRight_eq_rdropWhile, List.rdropWhile_append_rtakeWhile]
  have hstrokes := strokes_append_gap hblank (trimRight cs)
  rw [hsplit] at hstrokes
  exact hstrokes.symm

theorem strokes_closeBlock (cs : List Char) : strokes (closeBlock cs) = strokes cs := by
  unfold closeBlock
  split
  · rw [strokes_append_gap (by decide), strokes_trimRight]
  · rfl

/-- A source that is nothing but a word is that word and blanks. -/
theorem eq_append_of_isPrefixOf {word cs : List Char}
    (h : (word.isPrefixOf cs && (cs.drop word.length).all isBlank) = true) :
    ∃ gap, (∀ c ∈ gap, isBlank c = true) ∧ cs = word ++ gap := by
  rw [Bool.and_eq_true, List.isPrefixOf_iff_prefix] at h
  obtain ⟨⟨gap, rfl⟩, hblank⟩ := h
  refine ⟨gap, ?_, rfl⟩
  rw [List.drop_left] at hblank
  exact List.all_eq_true.mp hblank

/-- Opening the first block keeps the strokes, a parallel block apart. -/
theorem strokes_openBlock (cs : List Char) : strokes (openBlock cs) = strokes cs ∨
    openBlock cs = "BLOCK PAR \x7b\n".toList ∧ strokes cs = ["PAR".toList] := by
  unfold openBlock
  split
  · rename_i hseq
    obtain ⟨gap, hgap, rfl⟩ := @eq_append_of_isPrefixOf "SEQ".toList cs hseq
    refine .inl ?_
    rw [strokes_append_gap fun c hc => isLayout_of_isBlank (hgap c hc)]
    decide
  · split
    · rename_i hpar
      obtain ⟨gap, hgap, rfl⟩ := @eq_append_of_isPrefixOf "PAR".toList cs hpar
      refine .inr ⟨rfl, ?_⟩
      rw [strokes_append_gap fun c hc => isLayout_of_isBlank (hgap c hc)]
      decide
    · exact .inl rfl

/-! ### The steps on phrases -/

/-- A matcher of functions leaves a text without the word as it is. -/
theorem replaceMatches_of_not_infix {m : Matcher}
    (hm : ∀ cs, functionHead? cs = none → m cs = none) {cs : List Char}
    (h : ¬ "function".toList <:+: cs) : replaceMatches m cs = cs := by
  refine Untouched.replaceMatches_eq fun v hv _ => .inl (hm v ?_)
  have hprefix : "function".toList.isPrefixOf v = false := by
    by_contra hpre
    have hin : "function".toList <+: v := List.isPrefixOf_iff_prefix.mp (by simpa using hpre)
    exact h (hin.isInfix.trans hv.isInfix)
  unfold functionHead?
  rw [after?_eq_none hprefix]
  rfl

/-- Adding braces to a text without functions keeps its strokes. -/
theorem strokes_addBraces {cs : List Char} (h : ¬ "function".toList <:+: cs) :
    strokes (addBraces cs) = strokes cs := by
  have hreturning : replaceMatches returningFunction cs = cs := by
    refine replaceMatches_of_not_infix (fun cs hnone => ?_) h
    unfold returningFunction
    rw [hnone]
    rfl
  have hplain : replaceMatches plainFunction cs = cs := by
    refine replaceMatches_of_not_infix (fun cs hnone => ?_) h
    unfold plainFunction
    rw [hnone]
    rfl
  have hif := (@respaced_guarded "if".toList (by decide)).replaceMatches cs
  have hwhile := (@respaced_guarded "while".toList (by decide)).replaceMatches
    (replaceMatches (guarded "if".toList) cs)
  unfold addBraces
  rw [hreturning, hplain]
  exact (hwhile.trans hif).strokes_eq

theorem unmarkBlocks_eq_self {cs : List Char} (h : ¬ "BLOCK".toList <:+: cs) :
    unmarkBlocks cs = cs := by
  have hseq : "BLOCK".toList <+: "BLOCK SEQ \x7b".toList := by decide
  have hpar : "BLOCK".toList <+: "BLOCK PAR \x7b".toList := by decide
  unfold unmarkBlocks
  rw [substitute_eq_self fun hin => h (hseq.isInfix.trans hin),
    substitute_eq_self fun hin => h (hpar.isInfix.trans hin)]

/-! ### The whole transformation -/

/-- **The standard layout keeps the strokes of a text without functions and marked blocks.** -/
theorem strokes_standardiseChars {cs : List Char} (hfunction : ¬ "function".toList <:+: cs)
    (hblock : ¬ "BLOCK".toList <:+: cs) : strokes (standardiseChars cs) = strokes cs := by
  let unbroken := substitute ['\r', '\n'] ['\n'] cs
  have hunbroken : strokes unbroken = strokes cs := strokes_lineBreaks cs
  change strokes (unmarkBlocks (addBraces (standardiseLines (closeBlock (openBlock unbroken))))) = _
  rcases strokes_openBlock unbroken with hopen | ⟨hopen, hpar⟩
  · let lined := standardiseLines (closeBlock (openBlock unbroken))
    have hlined : strokes lined = strokes cs := by
      rw [strokes_standardiseLines, strokes_closeBlock, hopen, hunbroken]
    -- words stand in strokes, so the two words are still missing after each step
    have hmissing : ∀ {word cs' : List Char}, word ≠ [] → (∀ c ∈ word, isBoundary c = false) →
        strokes cs' = strokes cs → ¬ word <:+: cs → ¬ word <:+: cs' := by
      intro word cs' hne hword hsame hnot
      rwa [infix_iff_exists_stroke hne hword, hsame, ← infix_iff_exists_stroke hne hword]
    have hbraces : strokes (addBraces lined) = strokes cs := by
      rw [strokes_addBraces (hmissing (by decide) (by decide) hlined hfunction), hlined]
    change strokes (unmarkBlocks (addBraces lined)) = _
    rw [unmarkBlocks_eq_self (hmissing (by decide) (by decide) hbraces hblock), hbraces]
  · rw [hopen, ← hunbroken, hpar]
    decide

theorem holds_iff {part cs : List Char} : holds part cs = true ↔ part <:+: cs := by
  induction cs with
  | nil => simp [holds]
  | cons c cs ih =>
    rw [holds, Bool.or_eq_true, List.isPrefixOf_iff_prefix, ih, List.infix_cons_iff]

theorem not_infix_of_holdsPart {part text : String} (h : holdsPart part text = false) :
    ¬ part.toList <:+: text.toList := by
  rw [← holds_iff]
  simpa [holdsPart] using h

/-- **The standard layout of a text without functions and marked blocks differs from it in layout
only.** -/
theorem withoutLayout_standardise (source : String) (hfunction : holdsPart "function" source = false)
    (hblock : holdsPart "BLOCK" source = false) :
    withoutLayout (standardise source).toList = withoutLayout source.toList := by
  have hstrokes : strokes (standardiseChars source.toList) = strokes source.toList :=
    strokes_standardiseChars (not_infix_of_holdsPart hfunction) (not_infix_of_holdsPart hblock)
  rw [standardise, String.toList_ofList, ← flatten_strokes, ← flatten_strokes, hstrokes]

/-- A conditional around a loop, with several assignments on a line and a missing semicolon. -/
theorem withoutLayout_standardise_sample :
    standardise "SEQ \x7b\n if(a) while (b) c = 1; d = 2;\n e = \"if (x) \";\n f = 3" ≠
        "SEQ \x7b\n if(a) while (b) c = 1; d = 2;\n e = \"if (x) \";\n f = 3" ∧
      withoutLayout (standardise
          "SEQ \x7b\n if(a) while (b) c = 1; d = 2;\n e = \"if (x) \";\n f = 3").toList =
        withoutLayout "SEQ \x7b\n if(a) while (b) c = 1; d = 2;\n e = \"if (x) \";\n f = 3".toList :=
  ⟨by decide, withoutLayout_standardise _ (by decide) (by decide)⟩

end SeqPar.Layout
