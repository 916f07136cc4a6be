import SeqPar.Proofs.Boundaries
import SeqPar.Proofs.Segments

/-!
# Phrases in a text

The steps of the standard layout that add braces look for phrases: the head of a function, a
conditional or a loop, and the statement after it.  Here is what they find in texts of a known form.

## Main definitions

* `LeavesAsIs m cs` — the matcher `m` finds no phrase at the start of `cs`, or puts the phrase itself
  in its place.
* `Untouched m cs` — so it does anywhere in `cs`.
* `Head` — the head of a function, as it is written.

## Main results

* `Untouched.replaceMatches_eq` — a text in which all phrases are replaced by themselves stays as it
  is.
* `Head.functionHead?_append` — the head of a function is found as it is written.
* `firstReturn?_append` — the first `return` after a text that holds none.
* `guardHead?_append` — when more text does not start a guard.
-/

namespace SeqPar.Layout

open SeqPar.Text

attribute [local instance] decidableForallMem

/-! ### Replacing phrases -/

theorem replaceFrom_length (m : Matcher) (xs ys : List Char) :
    replaceFrom m xs.length (xs ++ ys) = replaceMatches m ys := by
  induction xs with
  | nil => rfl
  | cons x xs ih => exact ih

theorem replaceMatches_nil (m : Matcher) : replaceMatches m [] = [] :=
  rfl

/-- A phrase at the start of a text. -/
theorem replaceMatches_of_some {m : Matcher} {phrase rest replacement : List Char}
    (hne : phrase ≠ []) (h : m (phrase ++ rest) = some (replacement, phrase.length)) :
    replaceMatches m (phrase ++ rest) = replacement ++ replaceMatches m rest := by
  cases phrase with
  | nil => contradiction
  | cons c cs =>
    rw [List.cons_append] at h
    rw [List.cons_append, replaceMatches, replaceFrom, h]
    exact congrArg (replacement ++ ·) (replaceFrom_length m cs rest)

/-- At the start of a text there is no phrase, or one that is replaced by itself. -/
def LeavesAsIs (m : Matcher) (cs : List Char) : Prop :=
  m cs = none ∨ ∃ phrase rest, phrase ≠ [] ∧ cs = phrase ++ rest ∧ m cs = some (phrase, phrase.length)

/-- Wherever in a text a phrase starts, it is replaced by itself. -/
def Untouched (m : Matcher) (cs : List Char) : Prop :=
  ∀ v, v <:+ cs → v ≠ [] → LeavesAsIs m v

/-- A text in which all phrases are replaced by themselves stays as it is. -/
theorem Untouched.replaceMatches_eq {m : Matcher} {cs : List Char} (h : Untouched m cs) :
    replaceMatches m cs = cs := by
  induction hlen : cs.length using Nat.strongRecOn generalizing cs with
  | ind n ih =>
    subst hlen
    cases cs with
    | nil => rfl
    | cons c cs =>
      rcases h (c :: cs) (List.suffix_refl _) (by simp) with hnone | ⟨phrase, rest, hne, hcs, hsome⟩
      · rw [replaceMatches, replaceFrom, hnone]
        refine congrArg (c :: ·) (ih _ (by simp) (fun v hv => ?_) rfl)
        exact h v (hv.trans (List.suffix_cons c cs))
      · rw [hcs] at hsome h ⊢
        rw [replaceMatches_of_some hne hsome]
        refine congrArg (phrase ++ ·) (ih _ ?_ (fun v hv => ?_) rfl)
        · have hpos := List.length_pos_of_ne_nil hne
          rw [hcs, List.length_append]
          omega
        · exact h v (hv.trans (List.suffix_append phrase rest))

/-- The end of a text that ends in another text: an end of that, or all of it after an end of what
comes before. -/
theorem suffix_append_cases {v xs ys : List Char} (h : v <:+ xs ++ ys) :
    v <:+ ys ∨ ∃ zs, zs ≠ [] ∧ zs <:+ xs ∧ v = zs ++ ys := by
  obtain ⟨front, hfront⟩ := h
  rcases List.append_eq_append_iff.mp hfront with ⟨zs, hxs, hv⟩ | ⟨zs, -, hys⟩
  · cases zs with
    | nil => exact .inl (by simp [hv])
    | cons z zs => exact .inr ⟨z :: zs, by simp, ⟨front, hxs.symm⟩, hv⟩
  · exact .inl ⟨zs, hys.symm⟩

theorem Untouched.append {m : Matcher} {xs ys : List Char} (hys : Untouched m ys)
    (hxs : ∀ zs, zs <:+ xs → zs ≠ [] → LeavesAsIs m (zs ++ ys)) : Untouched m (xs ++ ys) := by
  intro v hv hne
  rcases suffix_append_cases hv with hv | ⟨zs, hzs, hsuffix, rfl⟩
  · exact hys v hv hne
  · exact hxs zs hsuffix hzs

/-- Text with no phrase at any of its characters. -/
theorem replaceMatches_append_of_forall {m : Matcher} {xs : List Char}
    (h : ∀ c ∈ xs, ∀ cs, m (c :: cs) = none) (ys : List Char) :
    replaceMatches m (xs ++ ys) = xs ++ replaceMatches m ys := by
  induction xs with
  | nil => rfl
  | cons c xs ih =>
    rw [List.forall_mem_cons] at h
    rw [List.cons_append, replaceMatches, replaceFrom, h.1]
    exact congrArg (c :: ·) (ih h.2)

theorem replaceMatches_of_forall {m : Matcher} {xs : List Char}
    (h : ∀ c ∈ xs, ∀ cs, m (c :: cs) = none) : replaceMatches m xs = xs := by
  have happend := replaceMatches_append_of_forall h []
  rwa [replaceMatches_nil, List.append_nil] at happend

/-- A part that a text does not hold is not replaced. -/
theorem substitute_eq_self {old new cs : List Char} (h : ¬ old <:+: cs) :
    substitute old new cs = cs := by
  induction cs with
  | nil => rfl
  | cons c cs ih =>
    have hprefix : old.isPrefixOf (c :: cs) = false := by
      by_contra hpre
      exact h (List.isPrefixOf_iff_prefix.mp (by simpa using hpre)).isInfix
    rw [substitute, substituteFrom, hprefix, if_neg (by simp)]
    exact congrArg (c :: ·) (ih fun hin => h (hin.trans (List.suffix_cons c cs).isInfix))

/-! ### Heads -/

theorem after?_append (word cs : List Char) : after? word (word ++ cs) = some cs := by
  simp [after?]

theorem after?_eq_none {word cs : List Char} (h : word.isPrefixOf cs = false) :
    after? word cs = none := by
  simp [after?, h]

/-- Whether two texts differ at a position that both have. -/
def apart (xs ys : List Char) : Bool :=
  (xs.zip ys).any fun p => p.1 != p.2

theorem not_isPrefixOf_of_apart {word xs : List Char} (h : apart word xs = true) (ys : List Char) :
    word.isPrefixOf (xs ++ ys) = false := by
  induction word generalizing xs with
  | nil => simp [apart] at h
  | cons a word ih =>
    cases xs with
    | nil => simp [apart] at h
    | cons b xs =>
      simp only [apart, List.zip_cons_cons, List.any_cons, Bool.or_eq_true] at h
      rw [List.cons_append, List.isPrefixOf, Bool.and_eq_false_iff]
      rcases h with hhead | htail
      · exact .inl (by simpa using hhead)
      · exact .inr (ih htail)

theorem apart_of_not_mem {word : List Char} (hne : word ≠ []) {c : Char} (hc : c ∉ word)
    (xs : List Char) : apart word (c :: xs) = true := by
  cases word with
  | nil => contradiction
  | cons a word =>
    have ha : a ≠ c := by
      rintro rfl
      exact hc List.mem_cons_self
    simp [apart, ha]

theorem functionHead?_of_apart {xs : List Char} (h : apart "function".toList xs = true)
    (ys : List Char) : functionHead? (xs ++ ys) = none := by
  unfold functionHead?
  rw [after?_eq_none (not_isPrefixOf_of_apart h ys)]
  rfl

theorem dropWhile_append_eq {p : Char → Bool} {xs ys : List Char} (hxs : ∀ c ∈ xs, p c = true)
    (hys : ∀ c ∈ ys.head?, p c = false) : (xs ++ ys).dropWhile p = ys := by
  rw [List.dropWhile_append_of_pos hxs]
  cases ys with
  | nil => rfl
  | cons c ys => simp [hys c rfl]

theorem trimLeft_append {gap cs : List Char} (hgap : ∀ c ∈ gap, isBlank c = true)
    (hcs : ∀ c ∈ cs.head?, isBlank c = false) : trimLeft (gap ++ cs) = cs :=
  dropWhile_append_eq hgap hcs

theorem takeWhile_bne_append {mark : Char} {xs : List Char} (h : mark ∉ xs) (ys : List Char) :
    (xs ++ mark :: ys).takeWhile (· != mark) = xs :=
  takeWhile_append_eq (fun _ hc => bne_iff_ne.mpr (ne_of_mem_of_not_mem hc h)) (by simp)

theorem dropWhile_bne_append {mark : Char} {xs : List Char} (h : mark ∉ xs) (ys : List Char) :
    (xs ++ mark :: ys).dropWhile (· != mark) = mark :: ys :=
  dropWhile_append_eq (fun _ hc => bne_iff_ne.mpr (ne_of_mem_of_not_mem hc h)) (by simp)

theorem parenthesised?_eq {inner : List Char} (h : ')' ∉ inner) (rest : List Char) :
    parenthesised? ('(' :: (inner ++ ')' :: rest)) = some (inner, rest) := by
  simp [parenthesised?, dropWhile_bne_append h, takeWhile_bne_append h]

theorem isNameChar_of_isBlank {c : Char} (hc : isBlank c = true) : isNameChar c = false :=
  of_isBlank (p := fun c => isNameChar c = false) (by decide) hc

theorem isBlank_of_isNameChar {c : Char} (hc : isNameChar c = true) : isBlank c = false := by
  cases hblank : isBlank c with
  | false => rfl
  | true => simp [isNameChar_of_isBlank hblank] at hc

/-- The head of a function, from its parts. -/
theorem functionHead?_eq {gap name gap' params : List Char} (hgap : gap ≠ [])
    (hblank : ∀ c ∈ gap, isBlank c = true) (hname : name ≠ [])
    (hnamed : ∀ c ∈ name, isNameChar c = true) (hblank' : ∀ c ∈ gap', isBlank c = true)
    (hparams : ')' ∉ params) (rest : List Char) :
    functionHead? ("function".toList ++
      (gap ++ (name ++ (gap' ++ '(' :: (params ++ ')' :: rest))))) = some (name, params, rest) := by
  have hparen : ∀ c ∈ ('(' :: (params ++ ')' :: rest)).head?, isBlank c = false := by
    intro c hc
    obtain rfl : '(' = c := by simpa using hc
    decide
  have hfirst : ∀ c ∈ (name ++ (gap' ++ '(' :: (params ++ ')' :: rest))).head?,
      isBlank c = false := by
    intro c hc
    cases name with
    | nil => exact absurd rfl hname
    | cons d name =>
      obtain rfl : d = c := by simpa using hc
      exact isBlank_of_isNameChar (hnamed d List.mem_cons_self)
  -- what comes after the name is no part of it
  have hstop : ∀ c ∈ (gap' ++ '(' :: (params ++ ')' :: rest)).head?, isNameChar c = false := by
    intro c hc
    cases gap' with
    | nil =>
      obtain rfl : '(' = c := by simpa using hc
      decide
    | cons d gap' =>
      obtain rfl : d = c := by simpa using hc
      exact isNameChar_of_isBlank (hblank' d List.mem_cons_self)
  have hlength : (name ++ (gap' ++ '(' :: (params ++ ')' :: rest))).length ≠
      (gap ++ (name ++ (gap' ++ '(' :: (params ++ ')' :: rest)))).length := by
    have hpos := List.length_pos_of_ne_nil hgap
    simp only [List.length_append]
    omega
  unfold functionHead?
  simp only [after?_append, Option.bind_eq_bind, Option.bind_some, trimLeft_append hblank hfirst,
    beq_iff_eq, if_neg hlength, takeWhile_append_eq hnamed hstop, dropWhile_append_eq hnamed hstop,
    trimLeft_append hblank' hparen, parenthesised?_eq hparams, Option.pure_def]
  simp [hname]

/-- Blanks between the parts of a text. -/
structure Gap where
  /-- The blanks. -/
  text : List Char
  isBlank_of_mem : ∀ c ∈ text, isBlank c = true

/-- Blanks between the parts of a line. -/
structure LineGap extends Gap where
  not_mem_text : '\n' ∉ text

theorem LineGap.isMark_eq_false (g : LineGap) : ∀ c ∈ g.text, isMark c = false := by
  intro c hc
  by_contra hmark
  obtain rfl := eq_lineFeed_of_isMark (g.isBlank_of_mem c hc) (by simpa using hmark)
  exact g.not_mem_text hc

/-- A single space. -/
def LineGap.space : LineGap :=
  ⟨⟨[' '], by decide⟩, by decide⟩

/-- No blanks at all. -/
def LineGap.empty : LineGap :=
  ⟨⟨[], by simp⟩, by simp⟩

theorem LineGap.space_ne_nil : LineGap.space.text ≠ [] :=
  List.cons_ne_nil _ _

/-- The head of a function, as it is written on one line. -/
structure Head where
  /-- The name. -/
  name : List Char
  /-- The text between the parentheses. -/
  params : List Char
  /-- The blanks between the word `function` and the name. -/
  beforeName : LineGap
  /-- The blanks between the name and the parentheses. -/
  afterName : LineGap
  name_ne_nil : name ≠ []
  isNameChar_of_mem : ∀ c ∈ name, isNameChar c = true
  beforeName_ne_nil : beforeName.text ≠ []
  params_unbroken : ∀ c ∈ params, isMark c = false ∧ c ≠ '(' ∧ c ≠ ')'

namespace Head

variable (h : Head)

/-- The text of a head after the word `function`. -/
def afterWord : List Char :=
  h.beforeName.text ++ (h.name ++ (h.afterName.text ++ '(' :: (h.params ++ [')'])))

/-- The text of a head. -/
def text : List Char :=
  "function".toList ++ h.afterWord

theorem text_append (rest : List Char) : h.text ++ rest = "function".toList ++ (h.beforeName.text ++
    (h.name ++ (h.afterName.text ++ '(' :: (h.params ++ ')' :: rest)))) := by
  unfold text afterWord
  generalize "function".toList = word
  simp

theorem text_eq_cons : ∃ cs, h.text = 'f' :: cs := by
  have hword : "function".toList = 'f' :: "unction".toList := by decide
  refine ⟨"unction".toList ++ h.afterWord, ?_⟩
  unfold text
  rw [hword, List.cons_append]

theorem getLast?_text : h.text.getLast? = some ')' := by
  have hlast : ('(' :: (h.params ++ [')'])).getLast? = some ')' := by
    rw [← List.cons_append, List.getLast?_concat]
  unfold text afterWord
  generalize "function".toList = word
  simp [List.getLast?_append, hlast]

theorem not_mem_params : ')' ∉ h.params :=
  fun hmem => (h.params_unbroken _ hmem).2.2 rfl

/-- The head of a function is found as it is written. -/
theorem functionHead?_append (rest : List Char) :
    functionHead? (h.text ++ rest) = some (h.name, h.params, rest) := by
  rw [h.text_append]
  exact functionHead?_eq h.beforeName_ne_nil h.beforeName.isBlank_of_mem h.name_ne_nil
    h.isNameChar_of_mem h.afterName.isBlank_of_mem h.not_mem_params rest

theorem isMark_of_mem_text : ∀ c ∈ h.text, isMark c = false := by
  intro c hc
  have hword : ∀ c ∈ "function".toList, isMark c = false := by decide
  unfold text afterWord at hc
  simp only [List.mem_append, List.mem_cons] at hc
  rcases hc with hmem | hmem | hmem | hmem | rfl | hmem | rfl | hmem
  · exact hword c hmem
  · exact h.beforeName.isMark_eq_false c hmem
  · have hname := h.isNameChar_of_mem c hmem
    by_contra hmark
    rcases isMark_iff.mp (by simpa using hmark) with rfl | rfl | rfl
    all_goals exact absurd hname (by decide)
  · exact h.afterName.isMark_eq_false c hmem
  · decide
  · exact (h.params_unbroken c hmem).1
  · decide
  · simp at hmem

/-- The same head, with no more blanks than it needs. -/
def tight : Head :=
  { h with
    beforeName := .space
    afterName := .empty
    beforeName_ne_nil := LineGap.space_ne_nil }

theorem text_tight : "function ".toList ++ h.name ++ '(' :: h.params ++ [')'] = h.tight.text := by
  have hword : "function ".toList = "function".toList ++ [' '] := by decide
  rw [hword]
  unfold text afterWord tight
  generalize "function".toList = word
  simp [LineGap.space, LineGap.empty]

end Head

/-! ### The first `return` -/

theorem returnResult?_eq {result : List Char} (hne : result ≠ []) (h : ';' ∉ result)
    (tail : List Char) : returnResult? (result ++ ';' :: tail) = some (result, tail) := by
  unfold returnResult?
  rw [takeWhile_bne_append h, dropWhile_bne_append h]
  cases result with
  | nil => contradiction
  | cons c result => rfl

/-- A word and a mark that a text does not hold start nowhere in it, also if more text follows: the
text ends with a character that the word does not hold. -/
theorem not_isPrefixOf_append {word front cs : List Char} {mark : Char} (hfront : front ≠ [])
    (hword : ¬ (word ++ [mark]) <:+: front) (hlast : ∀ c ∈ front.getLast?, c ∉ word) :
    (word ++ [mark]).isPrefixOf (front ++ cs) = false := by
  by_contra hpre
  have hprefix : word ++ [mark] <+: front ++ cs := by simpa using hpre
  rcases List.prefix_or_prefix_of_prefix hprefix (List.prefix_append front cs) with h | h
  · exact hword h.isInfix
  · rcases List.prefix_concat_iff.mp h with rfl | hshort
    · exact hword (List.infix_refl _)
    · have hmem := List.getLast?_eq_getLast_of_ne_nil hfront
      exact hlast _ hmem (hshort.subset (List.mem_of_getLast? hmem))

theorem firstReturn?_of_some {cs : List Char} {found : List Char × List Char}
    (h : (after? "return ".toList cs).bind returnResult? = some found) :
    firstReturn? cs = some found := by
  cases cs with
  | nil => simp [after?] at h
  | cons c cs =>
    unfold firstReturn?
    rw [h]

theorem firstReturn?_cons {c : Char} {cs : List Char} (hc : c ≠ '\x7b')
    (h : "return ".toList.isPrefixOf (c :: cs) = false) : firstReturn? (c :: cs) = firstReturn? cs := by
  conv_lhs => unfold firstReturn?
  rw [after?_eq_none h]
  simp [hc]

/-- The first `return` after a text that holds none and no opening brace. -/
theorem firstReturn?_append {front x : List Char} {found : List Char × List Char}
    (hbrace : '\x7b' ∉ front) (hword : ¬ "return ".toList <:+: front)
    (hlast : ∀ c ∈ front.getLast?, c ∉ "return".toList) (hx : returnResult? x = some found) :
    firstReturn? (front ++ ("return ".toList ++ x)) = some found := by
  have hreturn : "return ".toList = "return".toList ++ [' '] := by decide
  induction front with
  | nil =>
    refine firstReturn?_of_some ?_
    rw [List.nil_append, after?_append]
    exact hx
  | cons c front ih =>
    rw [List.mem_cons, not_or] at hbrace
    have hnone : "return ".toList.isPrefixOf (c :: (front ++ ("return ".toList ++ x))) = false := by
      rw [hreturn] at hword ⊢
      exact not_isPrefixOf_append (by simp) hword hlast
    rw [List.cons_append, firstReturn?_cons (Ne.symm hbrace.1) hnone]
    refine ih hbrace.2 (fun hin => hword (hin.trans (List.suffix_cons c front).isInfix)) ?_
    intro d hd
    refine hlast d ?_
    cases front with
    | nil => simp at hd
    | cons a front => simpa using hd

/-! ### Optional marks -/

theorem skipOptional_append {mark : Char} {gap : List Char} (hgap : ∀ c ∈ gap, isBlank c = true)
    (hmark : isBlank mark = false) (rest : List Char) :
    skipOptional mark (gap ++ mark :: rest) = rest := by
  have htrim : trimLeft (gap ++ mark :: rest) = mark :: rest :=
    trimLeft_append hgap (by simpa using hmark)
  simp [skipOptional, htrim]

theorem skipOptional_suffix (mark : Char) (cs : List Char) : skipOptional mark cs <:+ cs := by
  have htrim : trimLeft cs <:+ cs := List.dropWhile_suffix _
  unfold skipOptional
  split
  · rename_i c rest heq
    split
    · exact (heq ▸ List.suffix_cons c rest).trans htrim
    · exact List.suffix_refl cs
  · exact List.suffix_refl cs

/-! ### Statements that already have braces -/

/-- The first statement after a brace, up to its semicolon. -/
theorem firstStatement?_brace {inner : List Char} (h : ';' ∉ inner) (rest : List Char) :
    firstStatement? (' ' :: '\x7b' :: (inner ++ ';' :: rest)) =
      some (' ' :: '\x7b' :: (inner ++ [';']), rest) := by
  simp [firstStatement?, takeWhile_bne_append h, dropWhile_bne_append h]

/-- A statement with an opening brace in it is left as it is. -/
theorem bracedStatement_of_brace {rest cs statement : List Char} (phrase head : List Char)
    (hfirst : firstStatement? cs = some (statement, rest)) (hbrace : '\x7b' ∈ statement) :
    bracedStatement (phrase ++ rest) head cs = some (phrase, phrase.length) := by
  have htrim : '\x7b' ∈ trim statement := mem_trim hbrace (by decide)
  simp [bracedStatement, hfirst, htrim]

/-! ### Guards -/

theorem guardHead?_of_apart {word xs : List Char} (h : apart word xs = true) (ys : List Char) :
    guardHead? word (xs ++ ys) = none := by
  simp [guardHead?, after?_eq_none (not_isPrefixOf_of_apart h ys)]

theorem parenthesised?_of_head {cs : List Char} (h : '(' ∉ cs.head?) :
    parenthesised? cs = none := by
  unfold parenthesised?
  split
  · simp at h
  · rfl

theorem parenthesised?_of_not_mem {cs : List Char} (h : ')' ∉ cs) : parenthesised? cs = none := by
  unfold parenthesised?
  split
  · rename_i rest
    have hnil : rest.dropWhile (· != ')') = [] := by
      rw [List.dropWhile_eq_nil_iff]
      intro c hc
      simp only [bne_iff_ne, ne_eq]
      rintro rfl
      exact h (.tail _ hc)
    rw [hnil]
  · rfl

/-- More text without parentheses does not change what stands in parentheses. -/
theorem parenthesised?_append {xs ys : List Char} (hne : xs ≠ []) (hys : ')' ∉ ys) :
    parenthesised? (xs ++ ys) = (parenthesised? xs).map fun p => (p.1, p.2 ++ ys) := by
  cases xs with
  | nil => contradiction
  | cons c xs =>
    by_cases hc : c = '('
    · subst hc
      by_cases hmem : ')' ∈ xs
      · obtain ⟨inner, rest, rfl, hinner⟩ := List.eq_append_cons_of_mem hmem
        rw [parenthesised?_eq hinner]
        simpa using parenthesised?_eq hinner (rest ++ ys)
      · rw [parenthesised?_of_not_mem (by simp [hmem, hys]), parenthesised?_of_not_mem (by simp [hmem])]
        rfl
    · have hnone : ∀ cs, parenthesised? (c :: cs) = none := fun cs =>
        parenthesised?_of_head (by simpa using hc)
      rw [List.cons_append, hnone, hnone]
      rfl

/-- More text that shares no character with a guard does not start one. -/
theorem guardHead?_append {word xs ys : List Char} (hys : ∀ c ∈ ys, c ∉ word ∧ c ≠ '(' ∧ c ≠ ')')
    (h : guardHead? word xs = none) : guardHead? word (xs ++ ys) = none := by
  cases hpre : word.isPrefixOf (xs ++ ys) with
  | false => simp [guardHead?, after?_eq_none hpre]
  | true =>
    -- The word does not reach into the text behind, which has none of its characters.
    have hword : word <+: xs := by
      rw [List.isPrefixOf_iff_prefix] at hpre
      rcases List.prefix_or_prefix_of_prefix hpre (List.prefix_append xs ys) with hle | ⟨rest, hrest⟩
      · exact hle
      · subst hrest
        rw [List.prefix_append_right_inj] at hpre
        cases rest with
        | nil => simp
        | cons c rest => exact absurd (by simp) (hys c (hpre.subset List.mem_cons_self)).1
    obtain ⟨rest, rfl⟩ := hword
    have hparen : ')' ∉ ys := fun hmem => (hys _ hmem).2.2 rfl
    have hopen : '(' ∉ ys := fun hmem => (hys _ hmem).2.1 rfl
    rw [List.append_assoc]
    unfold guardHead? at h ⊢
    rw [after?_append] at h ⊢
    by_cases hrest : trimLeft rest = []
    · -- Only blanks follow the word, and the text behind opens no parenthesis.
      have htrim : trimLeft (rest ++ ys) = trimLeft ys :=
        List.dropWhile_append_of_pos (List.dropWhile_eq_nil_iff.mp hrest)
      have hhead : '(' ∉ (trimLeft ys).head? := by
        intro hmem
        exact hopen ((List.dropWhile_suffix _).subset (List.mem_of_mem_head? hmem))
      simp [htrim, parenthesised?_of_head hhead]
    · have htrim : trimLeft (rest ++ ys) = trimLeft rest ++ ys := by
        simp only [trimLeft, List.dropWhile_append]
        rw [if_neg (by simpa [trimLeft] using hrest)]
      cases hinner : parenthesised? (trimLeft rest) with
      | none => simp [htrim, parenthesised?_append hrest hparen, hinner]
      | some found =>
        simpa [htrim, parenthesised?_append hrest hparen, hinner] using h

theorem guardHead?_eq {inner : List Char} (hinner : ')' ∉ inner) (word rest : List Char) :
    guardHead? word (word ++ '(' :: (inner ++ ')' :: rest)) =
      if inner = [] then none else some (inner, rest) := by
  have htrim : trimLeft ('(' :: (inner ++ ')' :: rest)) = '(' :: (inner ++ ')' :: rest) :=
    List.dropWhile_cons_of_neg (by decide)
  unfold guardHead?
  rw [after?_append]
  simp only [Option.bind_eq_bind, Option.bind_some, htrim, parenthesised?_eq hinner]
  cases inner with
  | nil => rfl
  | cons c inner => rfl

theorem guarded_eq_none {word cs : List Char} (h : guardHead? word cs = none) :
    guarded word cs = none := by
  unfold guarded
  rw [h]
  rfl

/-- A guard has no text between its word and the parenthesis but blanks. -/
theorem guardHead?_of_not_mem {word rest : List Char} {c : Char} (hc : isBlank c = false)
    (hopen : c ≠ '(') {xs : List Char} (hxs : '(' ∉ xs) :
    guardHead? word (word ++ (xs ++ c :: rest)) = none := by
  have hhead : '(' ∉ (trimLeft (xs ++ c :: rest)).head? := by
    induction xs with
    | nil => simpa [trimLeft, hc] using hopen
    | cons a xs ih =>
      rw [List.mem_cons, not_or] at hxs
      cases ha : isBlank a with
      | true => simpa [trimLeft, ha] using ih hxs.2
      | false => simpa [trimLeft, ha] using Ne.symm hxs.1
  unfold guardHead?
  rw [after?_append]
  simp [parenthesised?_of_head hhead]

end SeqPar.Layout
