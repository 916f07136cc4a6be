import SeqPar.Proofs.Phrases

/-!
# Where braces are added

The steps of the standard layout that add braces are described here without their matchers: by the
form of the phrases that they change.  A head is the word of a function, conditional or loop with
its parentheses, and a statement is a text up to a semicolon that does not start with an opening
brace.  A head with a statement behind it is a phrase.

Phrases are taken from the left and do not overlap.  A phrase whose statement has an opening brace
in it stays as it is, but it still covers its text; the first other phrase gets braces.  A function
with a `return` before any further opening brace is rewritten in any case.

## Main definitions

* `IsFunctionHead`, `IsGuardHead`, `IsStatement` — the parts of phrases.
* `Bared` — a text in which a phrase gets braces.
* `Returns` — a text in which a function is cut down to its `return`.

## Main results

* `functionHead?_eq_some_iff`, `guardHead?_eq_some_iff`, `firstStatement?_eq_some_iff` — what the
  matchers find are the parts of phrases.
* `HeadRule.mem_replaceMatches`, `HeadRule.replaceMatches_eq` — **a text changes exactly if it is
  bared.**
* `mem_replaceMatches_of_returns`, `replaceMatches_of_not_returns` — the same for functions with a
  `return`.
-/

namespace SeqPar.Layout

open SeqPar.Text

attribute [local instance] decidableForallMem

/-! ### Parts of a text that are found -/

theorem after?_eq_some_iff {word cs rest : List Char} :
    after? word cs = some rest ↔ cs = word ++ rest := by
  constructor
  · intro h
    unfold after? at h
    split at h
    · next hprefix =>
      obtain ⟨tail, rfl⟩ := List.isPrefixOf_iff_prefix.mp hprefix
      rw [List.drop_left] at h
      rw [Option.some.inj h]
    · cases h
  · rintro rfl
    exact after?_append word rest

/-- A text up to a mark and what follows the mark. -/
theorem eq_append_of_dropWhile {mark : Char} {cs tail : List Char} {c : Char}
    (h : cs.dropWhile (· != mark) = c :: tail) :
    c = mark ∧ mark ∉ cs.takeWhile (· != mark) ∧
      cs = cs.takeWhile (· != mark) ++ mark :: tail := by
  have hc : c = mark := by
    have hnot := List.dropWhile_get_zero_not (· != mark) cs (by rw [h]; simp)
    simpa [h] using hnot
  refine ⟨hc, fun hmem => ?_, ?_⟩
  · have hne := List.mem_takeWhile_imp hmem
    simp at hne
  · conv_lhs => rw [← List.takeWhile_append_dropWhile (p := (· != mark)) (l := cs), h, hc]

theorem parenthesised?_eq_some_iff {cs inner rest : List Char} :
    parenthesised? cs = some (inner, rest) ↔ ')' ∉ inner ∧ cs = '(' :: (inner ++ ')' :: rest) := by
  constructor
  · intro h
    unfold parenthesised? at h
    split at h
    · next text =>
      split at h
      · cases h
      · next tail hdrop =>
        obtain ⟨-, hnot, htext⟩ := eq_append_of_dropWhile hdrop
        obtain ⟨rfl, rfl⟩ := Prod.mk.inj (Option.some.inj h)
        exact ⟨hnot, congrArg ('(' :: ·) htext⟩
    · cases h
  · rintro ⟨hnot, rfl⟩
    exact parenthesised?_eq hnot rest

/-- Texts of blanks. -/
def AllBlank (gap : List Char) : Prop :=
  ∀ c ∈ gap, isBlank c = true

/-- A text after its leading blanks. -/
theorem exists_trimLeft (cs : List Char) : ∃ gap, AllBlank gap ∧ cs = gap ++ trimLeft cs :=
  ⟨cs.takeWhile isBlank, fun _ hc => List.mem_takeWhile_imp hc,
    List.takeWhile_append_dropWhile.symm⟩

/-- The head of a function with the given name and parameters. -/
def IsFunctionHead (name params h : List Char) : Prop :=
  ∃ gap gap', gap ≠ [] ∧ AllBlank gap ∧ name ≠ [] ∧ (∀ c ∈ name, isNameChar c = true) ∧
    AllBlank gap' ∧ ')' ∉ params ∧
      h = "function".toList ++ (gap ++ (name ++ (gap' ++ '(' :: (params ++ [')']))))

/-- The head of a conditional or loop with the given condition. -/
def IsGuardHead (word condition h : List Char) : Prop :=
  ∃ gap, AllBlank gap ∧ condition ≠ [] ∧ ')' ∉ condition ∧
    h = word ++ (gap ++ '(' :: (condition ++ [')']))

/-- A statement: a text up to its first semicolon after the first character, which is no opening
brace. -/
def IsStatement (st : List Char) : Prop :=
  ∃ c body, c ≠ '\x7b' ∧ ';' ∉ body ∧ st = c :: (body ++ [';'])

theorem IsFunctionHead.closes {name params h : List Char} (hhead : IsFunctionHead name params h) :
    '(' ∈ h ∧ h.getLast? = some ')' := by
  obtain ⟨gap, gap', -, -, -, -, -, -, rfl⟩ := hhead
  generalize "function".toList = word
  exact ⟨by simp, by simp [List.getLast?_cons]⟩

theorem IsFunctionHead.mem_head {name params h : List Char} (hhead : IsFunctionHead name params h) :
    ∀ c ∈ "function ".toList ++ name ++ '(' :: params ++ [')'], isBlank c = false → c ∈ h := by
  obtain ⟨gap, gap', -, -, -, -, -, -, rfl⟩ := hhead
  intro c hc hblank
  have hword : "function ".toList = "function".toList ++ [' '] := by decide
  have hspace : c ≠ ' ' := by
    rintro rfl
    exact absurd hblank (by decide)
  rw [hword] at hc
  generalize "function".toList = word at hc ⊢
  simp only [List.mem_append, List.mem_cons, hspace, List.not_mem_nil, or_false] at hc ⊢
  tauto

theorem functionHead?_eq_some_iff {cs name params rest : List Char} :
    functionHead? cs = some (name, params, rest) ↔
      ∃ h, IsFunctionHead name params h ∧ cs = h ++ rest := by
  constructor
  · intro hfound
    unfold functionHead? at hfound
    simp only [Option.bind_eq_bind, Option.bind_eq_some_iff] at hfound
    obtain ⟨afterWord, hafter, hfound⟩ := hfound
    split at hfound
    · cases hfound
    next hlength =>
    split at hfound
    · cases hfound
    next hname =>
    obtain ⟨⟨inner, tail⟩, hinner, hpure⟩ := Option.bind_eq_some_iff.mp hfound
    cases hpure
    obtain ⟨hparen, htail⟩ := parenthesised?_eq_some_iff.mp hinner
    obtain ⟨gap, hgap, hfirst⟩ := exists_trimLeft afterWord
    obtain ⟨gap', hgap', hsecond⟩ :=
      exists_trimLeft ((trimLeft afterWord).dropWhile isNameChar)
    -- The parts that were taken off, put together again in their order.
    have hparts : afterWord = gap ++ ((trimLeft afterWord).takeWhile isNameChar ++
        (gap' ++ '(' :: (inner ++ ')' :: tail))) := by
      rw [← htail, ← hsecond, List.takeWhile_append_dropWhile]
      exact hfirst
    refine ⟨_, ⟨gap, gap', ?_, hgap, by simpa using hname, fun c hc => List.mem_takeWhile_imp hc,
      hgap', hparen, rfl⟩, ?_⟩
    · -- Without a blank behind the word the match would have been given up.
      rintro rfl
      rw [List.nil_append] at hfirst
      exact hlength (by simp [← hfirst])
    · rw [after?_eq_some_iff.mp hafter]
      generalize "function".toList = word
      conv_lhs => rw [hparts]
      simp
  · rintro ⟨_, ⟨gap, gap', hgap, hblank, hname, hnamed, hblank', hparams, rfl⟩, rfl⟩
    have hfound := functionHead?_eq hgap hblank hname hnamed hblank' hparams rest
    generalize "function".toList = word at hfound ⊢
    simpa using hfound

theorem guardHead?_eq_some_iff {word cs condition rest : List Char} :
    guardHead? word cs = some (condition, rest) ↔
      ∃ h, IsGuardHead word condition h ∧ cs = h ++ rest := by
  constructor
  · intro hfound
    unfold guardHead? at hfound
    simp only [Option.bind_eq_bind, Option.bind_eq_some_iff] at hfound
    obtain ⟨afterWord, hafter, ⟨inner, tail⟩, hinner, hfound⟩ := hfound
    split at hfound
    · cases hfound
    next hcondition =>
    cases hfound
    obtain ⟨hparen, htail⟩ := parenthesised?_eq_some_iff.mp hinner
    obtain ⟨gap, hgap, hfirst⟩ := exists_trimLeft afterWord
    refine ⟨_, ⟨gap, hgap, by simpa using hcondition, hparen, rfl⟩, ?_⟩
    rw [after?_eq_some_iff.mp hafter, hfirst, htail]
    simp
  · rintro ⟨_, ⟨gap, hblank, hcondition, hparen, rfl⟩, rfl⟩
    have htrim : trimLeft (gap ++ '(' :: (condition ++ ')' :: rest)) =
        '(' :: (condition ++ ')' :: rest) :=
      trimLeft_append hblank fun c hc => by
        obtain rfl : '(' = c := by simpa using hc
        decide
    have hsplit : word ++ (gap ++ '(' :: (condition ++ [')'])) ++ rest =
        word ++ (gap ++ '(' :: (condition ++ ')' :: rest)) := by simp
    rw [hsplit]
    unfold guardHead?
    simp [after?_append, htrim, parenthesised?_eq hparen, hcondition]

theorem firstStatement?_eq_some_iff {cs st rest : List Char} :
    firstStatement? cs = some (st, rest) ↔ IsStatement st ∧ cs = st ++ rest := by
  constructor
  · intro hfound
    unfold firstStatement? at hfound
    split at hfound
    · cases hfound
    · next c text =>
      split at hfound
      · cases hfound
      · next hbrace =>
        split at hfound
        · cases hfound
        · next semicolon tail hdrop =>
          obtain ⟨rfl, hnot, htext⟩ := eq_append_of_dropWhile hdrop
          obtain ⟨rfl, rfl⟩ := Prod.mk.inj (Option.some.inj hfound)
          refine ⟨⟨c, text.takeWhile (· != ';'), by simpa using hbrace, hnot, rfl⟩, ?_⟩
          simpa using htext
  · rintro ⟨⟨c, body, hc, hbody, rfl⟩, rfl⟩
    simp [firstStatement?, hc, takeWhile_bne_append hbody, dropWhile_bne_append hbody]

/-! ### Phrases that get braces -/

/-- The heads of functions and their standard forms. -/
def FunctionForm (h t : List Char) : Prop :=
  ∃ name params, IsFunctionHead name params h ∧
    t = "function ".toList ++ name ++ '(' :: params ++ [')']

/-- The heads of conditionals or loops and their standard forms. -/
def GuardForm (word h t : List Char) : Prop :=
  ∃ condition, IsGuardHead word condition h ∧ t = word ++ ' ' :: '(' :: condition ++ [')']

/-- Among the phrases of a text, taken from the left, is one that gets braces. -/
inductive Bared (Form : List Char → List Char → Prop) : List Char → Prop
  /-- The text starts with a phrase that has no opening brace in its statement. -/
  | here {h t st rest : List Char} : Form h t → IsStatement st → '\x7b' ∉ st →
      Bared Form (h ++ (st ++ rest))
  /-- The text starts with a phrase that stays as it is, and there is another one behind it. -/
  | past {h t st rest : List Char} : Form h t → IsStatement st → '\x7b' ∈ st → Bared Form rest →
      Bared Form (h ++ (st ++ rest))
  /-- The text does not start with a phrase, and there is one behind its first character. -/
  | next {c : Char} {cs : List Char} :
      (∀ h t st rest, Form h t → IsStatement st → c :: cs ≠ h ++ (st ++ rest)) →
      Bared Form cs → Bared Form (c :: cs)

/-- What is put in place of a phrase. -/
def rebraced (h t st : List Char) : List Char :=
  if '\x7b' ∈ st then h ++ st else braced t (trim st)

theorem lineFeed_mem_braced (head statement : List Char) : '\n' ∈ braced head statement := by
  simp [braced]

theorem bracedStatement_eq {st : List Char} (hst : IsStatement st) (h t rest : List Char) :
    bracedStatement (h ++ (st ++ rest)) t (st ++ rest) =
      some (rebraced h t st, (h ++ st).length) := by
  have hfirst : firstStatement? (st ++ rest) = some (st, rest) :=
    firstStatement?_eq_some_iff.mpr ⟨hst, rfl⟩
  have hlength : (h ++ (st ++ rest)).length - rest.length = (h ++ st).length := by
    simp only [List.length_append]
    omega
  have htake : (h ++ (st ++ rest)).take (h ++ st).length = h ++ st := by
    rw [← List.append_assoc, List.take_left]
  have hbrace : (trim st).contains '\x7b' = true ↔ '\x7b' ∈ st := by
    rw [List.contains_iff_mem]
    exact ⟨mem_of_mem_trim, fun hmem => mem_trim hmem (by decide)⟩
  unfold bracedStatement
  simp only [hfirst, Option.bind_eq_bind, Option.bind_some, hlength, htake]
  by_cases hmem : '\x7b' ∈ st
  · rw [if_pos (hbrace.mpr hmem), rebraced, if_pos hmem]
    rfl
  · rw [if_neg (mt hbrace.mp hmem), rebraced, if_neg hmem]
    rfl

/-- A matcher that puts the statement behind a head in braces. -/
structure HeadRule (m : Matcher) (Form : List Char → List Char → Prop) : Prop where
  /-- It takes the statement behind a head. -/
  found : ∀ {h t : List Char}, Form h t → ∀ rest, m (h ++ rest) = bracedStatement (h ++ rest) t rest
  /-- Without a head it finds nothing. -/
  missed : ∀ {cs : List Char}, (∀ h t rest, Form h t → cs ≠ h ++ rest) → m cs = none
  /-- A head has parentheses, and ends with them. -/
  closes : ∀ {h t : List Char}, Form h t → '(' ∈ h ∧ h.getLast? = some ')'
  /-- The standard form of a head holds nothing new but blanks. -/
  mem_head : ∀ {h t : List Char}, Form h t → ∀ c ∈ t, isBlank c = false → c ∈ h

namespace HeadRule

variable {m : Matcher} {Form : List Char → List Char → Prop} (hm : HeadRule m Form)

include hm

theorem ne_nil {h t : List Char} (hform : Form h t) : h ≠ [] :=
  List.ne_nil_of_mem (hm.closes hform).1

theorem eq_some {h t st : List Char} (hform : Form h t) (hst : IsStatement st) (rest : List Char) :
    m (h ++ (st ++ rest)) = some (rebraced h t st, (h ++ st).length) := by
  rw [hm.found hform, bracedStatement_eq hst]

theorem eq_none {cs : List Char}
    (h : ∀ h t st rest, Form h t → IsStatement st → cs ≠ h ++ (st ++ rest)) : m cs = none := by
  -- With a head in front it is the statement behind it that is missing.
  by_cases hhead : ∃ head t rest, Form head t ∧ cs = head ++ rest
  · obtain ⟨head, t, rest, hform, rfl⟩ := hhead
    have hfirst : firstStatement? rest = none := by
      cases hfound : firstStatement? rest with
      | none => rfl
      | some found =>
        obtain ⟨hst, hrest⟩ := firstStatement?_eq_some_iff.mp hfound
        exact absurd (congrArg (head ++ ·) hrest) (h head t found.1 found.2 hform hst)
    rw [hm.found hform, bracedStatement, hfirst]
    rfl
  · refine hm.missed fun head t rest hform heq => hhead ⟨head, t, rest, hform, heq⟩

/-- A phrase is replaced, and the pass goes on behind it. -/
theorem replaceMatches_phrase {h t st : List Char} (hform : Form h t) (hst : IsStatement st)
    (rest : List Char) :
    replaceMatches m (h ++ (st ++ rest)) = rebraced h t st ++ replaceMatches m rest := by
  have hne : h ++ st ≠ [] := by simp [hm.ne_nil hform]
  have hsome := hm.eq_some hform hst rest
  rw [← List.append_assoc] at hsome ⊢
  exact replaceMatches_of_some hne hsome

theorem replaceMatches_cons {c : Char} {cs : List Char}
    (h : ∀ h t st rest, Form h t → IsStatement st → c :: cs ≠ h ++ (st ++ rest)) :
    replaceMatches m (c :: cs) = c :: replaceMatches m cs := by
  rw [replaceMatches, replaceFrom, hm.eq_none h]
  rfl

/-- A phrase has the parentheses of its head. -/
theorem mem_of_bared {cs : List Char} (h : Bared Form cs) : '(' ∈ cs := by
  induction h with
  | here hform _ _ => exact List.mem_append_left _ (hm.closes hform).1
  | past hform _ _ _ _ => exact List.mem_append_left _ (hm.closes hform).1
  | next _ _ ih => exact List.mem_cons_of_mem _ ih

/-- A text in which a phrase gets braces has a line feed afterwards. -/
theorem mem_replaceMatches {cs : List Char} (h : Bared Form cs) : '\n' ∈ replaceMatches m cs := by
  induction h with
  | here hform hst hbrace =>
    rw [hm.replaceMatches_phrase hform hst, rebraced, if_neg hbrace]
    exact List.mem_append_left _ (lineFeed_mem_braced _ _)
  | past hform hst _ _ ih =>
    rw [hm.replaceMatches_phrase hform hst]
    exact List.mem_append_right _ ih
  | next hnone _ ih =>
    rw [hm.replaceMatches_cons hnone]
    exact List.mem_cons_of_mem _ ih

/-- A text in which no phrase gets braces stays as it is. -/
theorem replaceMatches_eq {cs : List Char} (h : ¬ Bared Form cs) : replaceMatches m cs = cs := by
  -- A phrase is passed as a whole, so the induction is on the length of the text.
  induction hlength : cs.length using Nat.strongRecOn generalizing cs with
  | ind n ih =>
    subst hlength
    by_cases hphrase : ∃ head t st rest, Form head t ∧ IsStatement st ∧ cs = head ++ (st ++ rest)
    · obtain ⟨head, t, st, rest, hform, hst, rfl⟩ := hphrase
      have hbrace : '\x7b' ∈ st := by
        by_contra hnot
        exact h (.here hform hst hnot)
      have hrest : replaceMatches m rest = rest := by
        refine ih _ ?_ (fun hbared => h (.past hform hst hbrace hbared)) rfl
        have hpos := List.length_pos_of_ne_nil (hm.ne_nil hform)
        simp only [List.length_append]
        omega
      rw [hm.replaceMatches_phrase hform hst, hrest, rebraced, if_pos hbrace, List.append_assoc]
    · cases cs with
      | nil => rfl
      | cons c cs =>
        have hnone : ∀ head t st rest, Form head t → IsStatement st →
            c :: cs ≠ head ++ (st ++ rest) := fun head t st rest hform hst heq =>
          hphrase ⟨head, t, st, rest, hform, hst, heq⟩
        rw [hm.replaceMatches_cons hnone]
        exact congrArg (c :: ·) (ih _ (by simp) (fun hbared => h (.next hnone hbared)) rfl)

end HeadRule

theorem headRule_plainFunction : HeadRule plainFunction FunctionForm where
  found := by
    rintro h t ⟨name, params, hhead, rfl⟩ rest
    unfold plainFunction
    rw [functionHead?_eq_some_iff.mpr ⟨h, hhead, rfl⟩]
    rfl
  missed := by
    intro cs hmissed
    cases hfound : functionHead? cs with
    | none =>
      unfold plainFunction
      rw [hfound]
      rfl
    | some found =>
      obtain ⟨h, hhead, hcs⟩ := functionHead?_eq_some_iff.mp hfound
      exact absurd hcs (hmissed h _ _ ⟨_, _, hhead, rfl⟩)
  closes := by
    rintro _ _ ⟨_, _, hhead, -⟩
    exact hhead.closes
  mem_head := by
    rintro _ _ ⟨_, _, hhead, rfl⟩
    exact hhead.mem_head

theorem headRule_guarded (word : List Char) : HeadRule (guarded word) (GuardForm word) where
  found := by
    rintro h t ⟨condition, hhead, rfl⟩ rest
    unfold guarded
    rw [guardHead?_eq_some_iff.mpr ⟨h, hhead, rfl⟩]
    rfl
  missed := by
    intro cs hmissed
    cases hfound : guardHead? word cs with
    | none => exact guarded_eq_none hfound
    | some found =>
      obtain ⟨h, hhead, hcs⟩ := guardHead?_eq_some_iff.mp hfound
      exact absurd hcs (hmissed h _ _ ⟨_, hhead, rfl⟩)
  closes := by
    rintro _ _ ⟨_, ⟨gap, -, -, -, rfl⟩, -⟩
    exact ⟨by simp, by simp [List.getLast?_cons]⟩
  mem_head := by
    rintro _ _ ⟨condition, ⟨gap, -, -, -, rfl⟩, rfl⟩ c hc hblank
    have hspace : c ≠ ' ' := by
      rintro rfl
      exact absurd hblank (by decide)
    simp only [List.mem_append, List.mem_cons, hspace, false_or] at hc ⊢
    tauto

/-! ### Functions with a `return` -/

theorem returnResult?_eq_some_iff {cs result tail : List Char} :
    returnResult? cs = some (result, tail) ↔
      result ≠ [] ∧ ';' ∉ result ∧ cs = result ++ ';' :: tail := by
  constructor
  · intro hfound
    unfold returnResult? at hfound
    split at hfound
    · cases hfound
    · cases hfound
    · next c rest hdrop hne =>
      obtain ⟨-, hnot, hcs⟩ := eq_append_of_dropWhile hdrop
      cases hfound
      exact ⟨fun hnil => hne hnil, hnot, hcs⟩
  · rintro ⟨hne, hnot, rfl⟩
    exact returnResult?_eq hne hnot tail

/-- What stands in front of the first `return` has no opening brace. -/
theorem firstReturn?_eq_some {cs result tail : List Char}
    (h : firstReturn? cs = some (result, tail)) :
    ∃ mid, '\x7b' ∉ mid ∧ result ≠ [] ∧ ';' ∉ result ∧
      cs = mid ++ ("return ".toList ++ (result ++ ';' :: tail)) := by
  induction cs with
  | nil => cases h
  | cons c cs ih =>
    unfold firstReturn? at h
    split at h
    · next found hfound =>
      cases h
      obtain ⟨rest, hafter, hresult⟩ := Option.bind_eq_some_iff.mp hfound
      obtain ⟨hne, hnot, hrest⟩ := returnResult?_eq_some_iff.mp hresult
      refine ⟨[], by simp, hne, hnot, ?_⟩
      rw [after?_eq_some_iff.mp hafter, hrest, List.nil_append]
    · split at h
      · cases h
      · next hc =>
        obtain ⟨mid, hmid, hne, hnot, hcs⟩ := ih h
        refine ⟨c :: mid, ?_, hne, hnot, congrArg (c :: ·) hcs⟩
        rintro (_ | ⟨_, hmem⟩)
        · simp at hc
        · exact hmid hmem

theorem isSome_firstReturn? {mid result : List Char} (hmid : '\x7b' ∉ mid) (hne : result ≠ [])
    (hnot : ';' ∉ result) (tail : List Char) :
    (firstReturn? (mid ++ ("return ".toList ++ (result ++ ';' :: tail)))).isSome = true := by
  induction mid with
  | nil =>
    have hresult : (after? "return ".toList ("return ".toList ++ (result ++ ';' :: tail))).bind
        returnResult? = some (result, tail) := by
      rw [after?_append]
      exact returnResult?_eq hne hnot tail
    rw [List.nil_append, firstReturn?_of_some hresult]
    rfl
  | cons c mid ih =>
    rw [List.mem_cons, not_or] at hmid
    rw [List.cons_append]
    unfold firstReturn?
    split
    · rfl
    · -- No `return` with a result starts here, and no brace ends the search.
      rw [if_neg (by simpa using Ne.symm hmid.1)]
      exact ih hmid.2

theorem skipOptional_cases (mark : Char) (cs : List Char) : skipOptional mark cs = cs ∨
    ∃ gap, AllBlank gap ∧ cs = gap ++ mark :: skipOptional mark cs := by
  obtain ⟨gap, hgap, hcs⟩ := exists_trimLeft cs
  unfold skipOptional
  split
  · next c rest htrim =>
    split
    · next hc =>
      rw [htrim, beq_iff_eq.mp hc] at hcs
      exact .inr ⟨gap, hgap, hcs⟩
    · exact .inl rfl
  · exact .inl rfl

/-- The opening brace behind the head of a function, which may be missing. -/
def IsOpening (opening : List Char) : Prop :=
  opening = [] ∨ ∃ gap, AllBlank gap ∧ opening = gap ++ ['\x7b']

/-- A text starts with a function and its `return`: a head, an opening brace that may be missing,
text without a further one, and a result up to its semicolon. -/
structure Returning (cs name params result tail : List Char) : Prop where
  /-- The parts of the text. -/
  parts : ∃ h opening mid, IsFunctionHead name params h ∧ IsOpening opening ∧ '\x7b' ∉ mid ∧
    cs = h ++ (opening ++ (mid ++ ("return ".toList ++ (result ++ ';' :: tail))))
  /-- There is a result. -/
  result_ne_nil : result ≠ []
  /-- The result ends at the first semicolon. -/
  not_mem_result : ';' ∉ result

/-- Somewhere in a text there is a function with a `return`. -/
def Returns (cs : List Char) : Prop :=
  ∃ v name params result tail, v <:+ cs ∧ Returning v name params result tail

theorem Returns.mem {cs : List Char} (h : Returns cs) : '(' ∈ cs := by
  obtain ⟨v, name, params, result, tail, hsuffix, hreturning⟩ := h
  obtain ⟨head, opening, mid, hhead, -, -, rfl⟩ := hreturning.parts
  exact hsuffix.subset (List.mem_append_left _ hhead.closes.1)

theorem returningFunction_eq_some {cs r : List Char} {n : Nat}
    (h : returningFunction cs = some (r, n)) :
    ∃ name params result tail, Returning cs name params result tail ∧
      r = braced ("function ".toList ++ name ++ '(' :: params ++ [')'])
        ("return ".toList ++ result ++ [';']) ∧
      n = cs.length - (skipOptional '\x7d' tail).length := by
  unfold returningFunction at h
  simp only [Option.bind_eq_bind, Option.bind_eq_some_iff] at h
  obtain ⟨⟨name, params, rest⟩, hfound, ⟨result, tail⟩, hreturn, hpure⟩ := h
  cases hpure
  obtain ⟨head, hhead, rfl⟩ := functionHead?_eq_some_iff.mp hfound
  obtain ⟨mid, hmid, hne, hnot, hrest⟩ := firstReturn?_eq_some hreturn
  refine ⟨name, params, result, tail, ⟨?_, hne, hnot⟩, rfl, rfl⟩
  rcases skipOptional_cases '\x7b' rest with hsame | ⟨gap, hgap, hopen⟩
  · refine ⟨head, [], mid, hhead, .inl rfl, hmid, ?_⟩
    rw [List.nil_append, ← hrest, hsame]
  · refine ⟨head, gap ++ ['\x7b'], mid, hhead, .inr ⟨gap, hgap, rfl⟩, hmid, ?_⟩
    rw [← hrest, List.append_assoc, List.singleton_append, ← hopen]

/-- A text without an opening brace in front of a `return` does not start with one. -/
theorem skipOptional_return {mid : List Char} (hmid : '\x7b' ∉ mid) (x : List Char) :
    skipOptional '\x7b' (mid ++ ("return ".toList ++ x)) = mid ++ ("return ".toList ++ x) := by
  obtain ⟨word, hword⟩ : ∃ word, "return ".toList ++ x = 'r' :: word := ⟨_, rfl⟩
  rw [hword]
  rcases skipOptional_cases '\x7b' (mid ++ 'r' :: word) with hsame | ⟨gap, hgap, hopen⟩
  · exact hsame
  exfalso
  generalize skipOptional '\x7b' (mid ++ 'r' :: word) = rest at hopen
  rcases List.append_eq_append_iff.mp hopen with ⟨u, hgap', hrest⟩ | ⟨u, hmid', hrest⟩
  · -- The word would start among the blanks or at the brace.
    cases u with
    | nil => cases hrest
    | cons d u =>
      cases hrest
      have hr := hgap 'r' (by simp [hgap'])
      exact absurd hr (by decide)
  · cases u with
    | nil => cases hrest
    | cons d u =>
      cases hrest
      exact hmid (by simp [hmid'])

/-- Where a function with a `return` stands, one is found. -/
theorem isSome_returningFunction {cs name params result tail : List Char}
    (h : Returning cs name params result tail) : (returningFunction cs).isSome = true := by
  obtain ⟨head, opening, mid, hhead, hopening, hmid, rfl⟩ := h.parts
  have hskip : skipOptional '\x7b'
        (opening ++ (mid ++ ("return ".toList ++ (result ++ ';' :: tail)))) =
      mid ++ ("return ".toList ++ (result ++ ';' :: tail)) := by
    rcases hopening with rfl | ⟨gap, hgap, rfl⟩
    · exact skipOptional_return hmid _
    · rw [List.append_assoc]
      exact skipOptional_append hgap (by decide) _
  obtain ⟨found, hfound⟩ := Option.isSome_iff_exists.mp
    (isSome_firstReturn? hmid h.result_ne_nil h.not_mem_result tail)
  unfold returningFunction
  rw [functionHead?_eq_some_iff.mpr ⟨head, hhead, rfl⟩]
  simp only [Option.bind_eq_bind, Option.bind_some, hskip, hfound]
  rfl

/-- A text in which a function is cut down to its `return` has a line feed afterwards. -/
theorem mem_replaceMatches_of_returns {cs : List Char} (h : Returns cs) :
    '\n' ∈ replaceMatches returningFunction cs := by
  obtain ⟨v, name, params, result, tail, hsuffix, hv⟩ := h
  have hsome := isSome_returningFunction hv
  induction cs with
  | nil =>
    rw [List.suffix_nil.mp hsuffix] at hsome
    cases hsome
  | cons c cs ih =>
    rw [replaceMatches, replaceFrom]
    cases hmatch : returningFunction (c :: cs) with
    | some found =>
      obtain ⟨r, n⟩ := found
      obtain ⟨_, _, _, _, -, rfl, -⟩ := returningFunction_eq_some hmatch
      exact List.mem_append_left _ (lineFeed_mem_braced _ _)
    | none =>
      -- The function stands further on; an earlier one that covers it is rewritten as well.
      rcases List.suffix_cons_iff.mp hsuffix with rfl | hsuffix
      · rw [hmatch] at hsome
        cases hsome
      · exact List.mem_cons_of_mem _ (ih hsuffix)

/-- A text without such a function stays as it is. -/
theorem replaceMatches_of_not_returns {cs : List Char} (h : ¬ Returns cs) :
    replaceMatches returningFunction cs = cs := by
  refine Untouched.replaceMatches_eq fun v hv _ => .inl ?_
  cases hmatch : returningFunction v with
  | none => rfl
  | some found =>
    obtain ⟨name, params, result, tail, hreturning, -, -⟩ := returningFunction_eq_some hmatch
    exact absurd ⟨v, name, params, result, tail, hv, hreturning⟩ h

end SeqPar.Layout
