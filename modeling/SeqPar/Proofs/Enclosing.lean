import SeqPar.Proofs.Bracing
import SeqPar.Proofs.FunctionLayout

/-!
# Braces in a literal

The steps that add braces look for heads and statements in plain text, also between quotes.  Here
they are applied to a source that only writes a literal, `output("…");`.

Whatever they find in the literal, the text keeps the form of the call: a phrase that starts in the
literal lies in front of the closing quote, or its statement ends with the semicolon of the call.
No quote is added, and no semicolon behind the call.  A phrase that is changed at all gets a line
feed in front of its statement, so that the literal is broken over lines, and no later step puts it
together again.

## Main definitions

* `enclosed x z` — the call with the literal `x`, and the text `z` behind it.
* `Replaced`, `Framed` — matchers under which a call stays a call.
* `Broken`, `Breaks` — steps that change a literal only by breaking it over lines.
* `Braced` — the literals in which a head gets braces.

## Main results

* `cut_at_statement` — a phrase lies in front of the end of the call, or ends with it.
* `Framed.exists_replaceMatches` — **a call stays a call under a framed matcher.**
* `HeadRule.framed`, `framed_returningFunction` — the matchers of the standard layout are framed.
* `breaks_addBraces` — adding braces breaks a literal exactly if it has a head that gets them.
-/

namespace SeqPar.Layout

open SeqPar.Text

attribute [local instance] decidableForallMem

/-! ### The call and its end -/

/-- How the call starts. -/
def callFront : List Char := ['o', 'u', 't', 'p', 'u', 't', '(', '"']

/-- How the call ends. -/
def callEnd : List Char := ['"', ')', ';']

/-- The call with the literal `x`, and the text `z` behind it. -/
def enclosed (x z : List Char) : List Char :=
  callFront ++ (x ++ (callEnd ++ z))

/-- A semicolon in a text with a call stands in front of the end of the call or is its last
character. -/
theorem cut_at_semicolon {x z a b : List Char} (hz : ';' ∉ z)
    (h : x ++ (callEnd ++ z) = a ++ ';' :: b) :
    (∃ v, x = a ++ ';' :: v ∧ b = v ++ (callEnd ++ z)) ∨ a = x ++ ['"', ')'] ∧ b = z := by
  rcases List.append_eq_append_iff.mp h with ⟨u, rfl, hu⟩ | ⟨u, rfl, hu⟩
  · right
    -- The end is cut after its second character: at the others there is no semicolon.
    rcases u with _ | ⟨c₁, _ | ⟨c₂, _ | ⟨c₃, u⟩⟩⟩
    · simp [callEnd] at hu
    · simp [callEnd] at hu
    · obtain ⟨rfl, rfl, rfl⟩ : '"' = c₁ ∧ ')' = c₂ ∧ z = b := by simpa [callEnd] using hu
      exact ⟨rfl, rfl⟩
    · obtain ⟨-, -, -, rfl⟩ : '"' = c₁ ∧ ')' = c₂ ∧ ';' = c₃ ∧ z = u ++ ';' :: b := by
        simpa [callEnd] using hu
      simp at hz
  · left
    cases u with
    | nil => simp [callEnd] at hu
    | cons d v =>
      obtain ⟨rfl, rfl⟩ : ';' = d ∧ b = v ++ (callEnd ++ z) := by simpa using hu
      exact ⟨v, rfl, rfl⟩

/-- Text that is followed by the closing quote and does not end with one lies in front of it. -/
theorem cut_at_quote {p q x : List Char} {d : Char} (hp : p.getLast? = some d) (hd : d ≠ '"')
    (hq : q ≠ []) (h : p ++ q = x ++ ['"', ')']) : ∃ y, x = p ++ y ∧ q = y ++ ['"', ')'] := by
  rcases List.append_eq_append_iff.mp h with ⟨u, hx, hu⟩ | ⟨u, rfl, hu⟩
  · exact ⟨u, hx, hu⟩
  · rcases u with _ | ⟨c₁, _ | ⟨c₂, u⟩⟩
    · exact ⟨[], by simp, by simpa using hu.symm⟩
    · obtain ⟨rfl, -⟩ : '"' = c₁ ∧ [')'] = q := by simpa using hu
      have hlast : d = '"' := by simpa using hp.symm
      exact absurd hlast hd
    · obtain ⟨-, -, -, rfl⟩ : '"' = c₁ ∧ ')' = c₂ ∧ u = [] ∧ q = [] := by simpa using hu
      contradiction

/-- **A head and a statement lie in front of the end of the call, or they end with it.** -/
theorem cut_at_statement {p q rest x z : List Char} {d : Char} (hp : p.getLast? = some d)
    (hd : d ≠ '"') (hq : q ≠ []) (hz : ';' ∉ z)
    (h : x ++ (callEnd ++ z) = p ++ (q ++ ';' :: rest)) :
    (∃ v, x = p ++ (q ++ ';' :: v) ∧ rest = v ++ (callEnd ++ z)) ∨
      ∃ y, x = p ++ y ∧ q = y ++ ['"', ')'] ∧ rest = z := by
  rw [← List.append_assoc p] at h
  rcases cut_at_semicolon hz h with ⟨v, hx, hrest⟩ | ⟨hpq, hrest⟩
  · exact .inl ⟨v, by rw [hx, List.append_assoc], hrest⟩
  · obtain ⟨y, hx, hy⟩ := cut_at_quote hp hd hq hpq
    exact .inr ⟨y, hx, hy, hrest⟩

/-! ### Blanks around a character -/

theorem trimLeft_append_cons {c : Char} (hc : isBlank c = false) (xs ys : List Char) :
    trimLeft (xs ++ c :: ys) = trimLeft xs ++ c :: ys := by
  induction xs with
  | nil => exact List.dropWhile_cons_of_neg (by simp [hc])
  | cons x xs ih =>
    by_cases hx : isBlank x = true
    · show (x :: (xs ++ c :: ys)).dropWhile isBlank = (x :: xs).dropWhile isBlank ++ c :: ys
      rw [List.dropWhile_cons_of_pos hx, List.dropWhile_cons_of_pos hx]
      exact ih
    · show (x :: (xs ++ c :: ys)).dropWhile isBlank = (x :: xs).dropWhile isBlank ++ c :: ys
      rw [List.dropWhile_cons_of_neg hx, List.dropWhile_cons_of_neg hx]
      rfl

theorem trimRight_append_cons {c : Char} (hc : isBlank c = false) (xs ys : List Char) :
    trimRight (xs ++ c :: ys) = xs ++ c :: trimRight ys := by
  have hreverse : (xs ++ c :: ys).reverse = ys.reverse ++ c :: xs.reverse := by simp
  have htrim := trimLeft_append_cons hc ys.reverse xs.reverse
  unfold trimLeft at htrim
  rw [trimRight, hreverse, htrim]
  simp [trimRight]

/-- Trimming a text that is not blank goes as far as any character of it. -/
theorem trim_append_cons {c : Char} (hc : isBlank c = false) (xs ys : List Char) :
    trim (xs ++ c :: ys) = trimLeft xs ++ c :: trimRight ys := by
  rw [trim, trimLeft_append_cons hc, trimRight_append_cons hc]

theorem mem_of_mem_trimLeft {xs : List Char} {c : Char} (h : c ∈ trimLeft xs) : c ∈ xs :=
  (List.dropWhile_suffix _).subset h

theorem mem_of_mem_trimRight {xs : List Char} {c : Char} (h : c ∈ trimRight xs) : c ∈ xs :=
  (List.rdropWhile_prefix _ xs).subset h

theorem trim_callEnd (y : List Char) : trim (y ++ callEnd) = trimLeft y ++ callEnd := by
  have hend : trimRight [')', ';'] = [')', ';'] := by decide
  show trim (y ++ '"' :: [')', ';']) = _
  rw [trim_append_cons (by decide), hend]
  rfl

/-! ### Matchers under which a call stays a call -/

/-- What is put in place of a phrase at the start of a text with the end of a call in it, and the
length of that phrase. -/
inductive Replaced (x z : List Char) : List Char → Nat → Prop
  /-- The phrase lies in front of the end of the call; it stays or is broken over lines. -/
  | inside {p v r : List Char} {n : Nat} : x = p ++ v → n = p.length → p ≠ [] → '"' ∉ r →
      r = p ∨ '\n' ∈ r → Replaced x z r n
  /-- The phrase covers the end of the call; it stays or is broken over lines in front of it. -/
  | across {w y x' z' r : List Char} {n : Nat} : z = w ++ y → n = (x ++ (callEnd ++ w)).length →
      r = x' ++ (callEnd ++ z') → '"' ∉ x' → ';' ∉ z' → x' = x ∧ z' = w ∨ '\n' ∈ x' →
      Replaced x z r n

/-- A matcher under which a call stays a call. -/
structure Framed (m : Matcher) : Prop where
  /-- No phrase starts in the front of the call. -/
  front : ∀ c ∈ callFront, ∀ cs, m (c :: cs) = none
  /-- A phrase ends with a semicolon or later, and that is not among its first characters. -/
  short : ∀ {cs : List Char}, ';' ∉ cs.drop 2 → m cs = none
  /-- A phrase is replaced so that the end of the call stays. -/
  replaced : ∀ {x z r : List Char} {n : Nat}, '"' ∉ x → ';' ∉ z →
    m (x ++ (callEnd ++ z)) = some (r, n) → Replaced x z r n

theorem mem_drop_two {u rest : List Char} (h : 2 ≤ u.length) : ';' ∈ (u ++ ';' :: rest).drop 2 := by
  rw [List.drop_append_of_le_length h]
  simp

theorem mem_drop_of_suffix {v cs : List Char} {c : Char} (h : v <:+ cs) (n : Nat)
    (hc : c ∈ v.drop n) : c ∈ cs.drop n := by
  obtain ⟨a, rfl⟩ := h
  rw [List.drop_append]
  have hsuffix : v.drop n <:+ v.drop (n - a.length) := by
    have hdrop : v.drop n = (v.drop (n - a.length)).drop (n - (n - a.length)) := by
      rw [List.drop_drop]
      congr 1
      omega
    rw [hdrop]
    exact List.drop_suffix _ _
  exact List.mem_append_right _ (hsuffix.subset hc)

namespace Framed

variable {m : Matcher} (hm : Framed m)

include hm

theorem replaceMatches_short {cs : List Char} (h : ';' ∉ cs.drop 2) : replaceMatches m cs = cs := by
  refine Untouched.replaceMatches_eq fun v hv _ => .inl (hm.short fun hmem => ?_)
  exact h (mem_drop_of_suffix hv 2 hmem)

/-- The end of a call stays, and what is in front of it stays or is broken over lines. -/
theorem exists_replaceMatches {x z : List Char} (hx : '"' ∉ x) (hz : ';' ∉ z) :
    ∃ x' z', replaceMatches m (x ++ (callEnd ++ z)) = x' ++ (callEnd ++ z') ∧ '"' ∉ x' ∧
      ';' ∉ z' ∧ (x' = x ∧ z' = z ∨ '\n' ∈ x') := by
  -- What is in front of the end of the call gets shorter, by a character or by a phrase.
  induction hlength : x.length using Nat.strongRecOn generalizing x with
  | ind k ih =>
    subst hlength
    cases hmatch : m (x ++ (callEnd ++ z)) with
    | some found =>
      obtain ⟨r, n⟩ := found
      have hreplaced := hm.replaced hx hz hmatch
      cases hreplaced with
      | @inside p v _ _ hpv hn hne hquote hr =>
        subst hpv hn
        have hshorter : v.length < (p ++ v).length := by
          have hpos := List.length_pos_of_ne_nil hne
          rw [List.length_append]
          omega
        obtain ⟨x', z', hrest, hx', hz', hsame⟩ :=
          ih _ hshorter (fun hmem => hx (List.mem_append_right _ hmem)) rfl
        refine ⟨r ++ x', z', ?_, ?_, hz', ?_⟩
        · rw [List.append_assoc] at hmatch ⊢
          rw [replaceMatches_of_some hne hmatch, hrest, List.append_assoc]
        · simp [hquote, hx']
        · rcases hr with rfl | hline
          · rcases hsame with ⟨rfl, rfl⟩ | hline
            · exact .inl ⟨rfl, rfl⟩
            · exact .inr (List.mem_append_right _ hline)
          · exact .inr (List.mem_append_left _ hline)
      | @across w y x' z' _ _ hwy hn hr hx' hz' hsame =>
        subst hwy hn hr
        -- Behind the call there is no semicolon, so nothing is found there.
        have hy : ';' ∉ y := fun hmem => hz (List.mem_append_right _ hmem)
        have hsplit : x ++ (callEnd ++ (w ++ y)) = x ++ (callEnd ++ w) ++ y := by simp
        refine ⟨x', z' ++ y, ?_, hx', by simp [hz', hy], ?_⟩
        · rw [hsplit] at hmatch ⊢
          rw [replaceMatches_of_some (by simp [callEnd]) hmatch,
            hm.replaceMatches_short fun hmem => hy (List.mem_of_mem_drop hmem)]
          simp
        · rcases hsame with ⟨rfl, rfl⟩ | hline
          · exact .inl ⟨rfl, rfl⟩
          · exact .inr hline
    | none =>
      cases x with
      | nil =>
        -- Behind the closing quote there are too few characters for a phrase.
        refine ⟨[], z, ?_, by simp, hz, .inl ⟨rfl, rfl⟩⟩
        have hshort : replaceMatches m (')' :: ';' :: z) = ')' :: ';' :: z :=
          hm.replaceMatches_short hz
        show replaceFrom m 0 ('"' :: ')' :: ';' :: z) = _
        have hnone : m ('"' :: ')' :: ';' :: z) = none := hmatch
        rw [replaceFrom, hnone]
        exact congrArg ('"' :: ·) hshort
      | cons c x =>
        rw [List.mem_cons, not_or] at hx
        obtain ⟨x', z', hrest, hx', hz', hsame⟩ := ih _ (Nat.lt_succ_self x.length) hx.2 rfl
        refine ⟨c :: x', z', ?_, by simp [hx.1, hx'], hz', ?_⟩
        · show replaceFrom m 0 (c :: (x ++ (callEnd ++ z))) = _
          have hnone : m (c :: (x ++ (callEnd ++ z))) = none := hmatch
          rw [replaceFrom, hnone]
          exact congrArg (c :: ·) hrest
        · rcases hsame with ⟨rfl, rfl⟩ | hline
          · exact .inl ⟨rfl, rfl⟩
          · exact .inr (List.mem_cons_of_mem _ hline)

theorem replaceMatches_enclosed (x z : List Char) :
    replaceMatches m (enclosed x z) = callFront ++ replaceMatches m (x ++ (callEnd ++ z)) :=
  replaceMatches_append_of_forall hm.front _

end Framed

/-! ### Heads with a statement -/

theorem quote_not_mem_braced {t st : List Char} (ht : '"' ∉ t) (hst : '"' ∉ st) :
    '"' ∉ braced t st := by
  have hlead : '"' ∉ " \x7b\n    ".toList := by decide
  unfold braced
  generalize " \x7b\n    ".toList = lead at hlead ⊢
  simp [ht, hst, hlead]

/-- Braces around a statement that ends with the call: the line feed comes before it. -/
theorem exists_braced_callEnd {t y : List Char} (ht : '"' ∉ t) (hy : '"' ∉ y) :
    ∃ x', braced t (y ++ callEnd) = x' ++ (callEnd ++ ['\n', '\x7d']) ∧ '"' ∉ x' ∧ '\n' ∈ x' := by
  have hlead : '"' ∉ " \x7b\n    ".toList ∧ '\n' ∈ " \x7b\n    ".toList := by decide
  unfold braced
  generalize " \x7b\n    ".toList = lead at hlead ⊢
  refine ⟨t ++ lead ++ y, by simp, by simp [ht, hy, hlead.1], by simp [hlead.2]⟩

namespace HeadRule

variable {m : Matcher} {Form : List Char → List Char → Prop} (hm : HeadRule m Form)

include hm

theorem quote_not_mem {h t : List Char} (hform : Form h t) (hquote : '"' ∉ h) : '"' ∉ t :=
  fun hmem => hquote (hm.mem_head hform '"' hmem (by decide))

theorem replaced_inside {h t st v : List Char} (hform : Form h t) (hquote : '"' ∉ h ++ (st ++ v))
    (z : List Char) : Replaced (h ++ (st ++ v)) z (rebraced h t st) (h ++ st).length := by
  simp only [List.mem_append, not_or] at hquote
  obtain ⟨hh, hst, -⟩ := hquote
  have hne : h ++ st ≠ [] := by simp [hm.ne_nil hform]
  unfold rebraced
  split
  · exact .inside (List.append_assoc h st v).symm rfl hne (by simp [hh, hst]) (.inl rfl)
  · have htrim : '"' ∉ trim st := fun hmem => hst (mem_of_mem_trim hmem)
    exact .inside (List.append_assoc h st v).symm rfl hne
      (quote_not_mem_braced (hm.quote_not_mem hform hh) htrim) (.inr (lineFeed_mem_braced t _))

theorem replaced_across {h t y : List Char} (hform : Form h t) (hquote : '"' ∉ h ++ y)
    (z : List Char) :
    Replaced (h ++ y) z (rebraced h t (y ++ callEnd)) (h ++ (y ++ callEnd)).length := by
  have hlength : (h ++ (y ++ callEnd)).length = (h ++ y ++ (callEnd ++ [])).length := by simp
  unfold rebraced
  split
  · -- An opening brace in the statement: the phrase is only passed over.
    exact .across (w := []) (y := z) rfl hlength (by simp) hquote (by simp) (.inl ⟨rfl, rfl⟩)
  · simp only [List.mem_append, not_or] at hquote
    have htrim : '"' ∉ trimLeft y := fun hmem => hquote.2 (mem_of_mem_trimLeft hmem)
    obtain ⟨x', hbraced, hx', hline⟩ :=
      exists_braced_callEnd (hm.quote_not_mem hform hquote.1) htrim
    rw [trim_callEnd, hbraced]
    exact .across (w := []) (y := z) rfl hlength rfl hx' (by decide) (.inr hline)

/-- **A call stays a call when statements behind heads get braces.** -/
theorem framed (hfront : ∀ c ∈ callFront, ∀ cs, m (c :: cs) = none) : Framed m where
  front := hfront
  short := by
    intro cs hshort
    apply hm.eq_none
    rintro h t _ rest hform ⟨c, body, -, -, rfl⟩ rfl
    have hlength : 2 ≤ (h ++ c :: body).length := by
      have hpos := List.length_pos_of_ne_nil (hm.ne_nil hform)
      simp only [List.length_append, List.length_cons]
      omega
    have hsplit : h ++ (c :: (body ++ [';']) ++ rest) = (h ++ c :: body) ++ ';' :: rest := by simp
    apply hshort
    rw [hsplit]
    exact mem_drop_two hlength
  replaced := by
    intro x z r n hx hz hmatch
    by_cases hphrase : ∃ h t st rest, Form h t ∧ IsStatement st ∧
        x ++ (callEnd ++ z) = h ++ (st ++ rest)
    · obtain ⟨h, t, st, rest, hform, hst, heq⟩ := hphrase
      rw [heq, hm.eq_some hform hst] at hmatch
      obtain ⟨rfl, rfl⟩ := Prod.mk.inj (Option.some.inj hmatch)
      obtain ⟨c, body, -, -, rfl⟩ := hst
      have hsplit : h ++ (c :: (body ++ [';']) ++ rest) = h ++ (c :: body ++ ';' :: rest) := by simp
      rcases cut_at_statement (hm.closes hform).2 (by decide) (List.cons_ne_nil c body) hz
        (heq.trans hsplit) with ⟨v, rfl, -⟩ | ⟨y, rfl, hy, -⟩
      · have hinside : h ++ (c :: body ++ ';' :: v) = h ++ (c :: (body ++ [';']) ++ v) := by simp
        rw [hinside] at hx ⊢
        exact hm.replaced_inside hform hx z
      · -- The statement is all that is left of the literal, and the end of the call.
        have hst : c :: (body ++ [';']) = y ++ callEnd := by
          rw [← List.cons_append, hy]
          simp [callEnd]
        rw [hst]
        exact hm.replaced_across hform hx z
    · have hnone : m (x ++ (callEnd ++ z)) = none :=
        hm.eq_none fun h t st rest hform hst heq => hphrase ⟨h, t, st, rest, hform, hst, heq⟩
      rw [hnone] at hmatch
      cases hmatch

end HeadRule

theorem functionHead?_callFront {c : Char} (hc : c ∈ callFront) (cs : List Char) :
    functionHead? (c :: cs) = none := by
  have hapart : ∀ c ∈ callFront, apart "function".toList [c] = true := by decide
  exact functionHead?_of_apart (hapart c hc) cs

theorem framed_plainFunction : Framed plainFunction := by
  apply headRule_plainFunction.framed
  intro c hc cs
  unfold plainFunction
  rw [functionHead?_callFront hc]
  rfl

theorem framed_guarded {word : List Char} (hword : word ∈ guardWords) : Framed (guarded word) := by
  apply (headRule_guarded word).framed
  intro c hc cs
  have hapart : ∀ word ∈ guardWords, ∀ c ∈ callFront, apart word [c] = true := by decide
  exact guarded_eq_none (guardHead?_of_apart (hapart word hword c hc) cs)

/-! ### Functions with a `return` -/

/-- The text of a function up to its result. -/
theorem Returning.exists_append {cs name params result tail : List Char}
    (h : Returning cs name params result tail) : ∃ p, p.getLast? = some ' ' ∧
      cs = p ++ (result ++ ';' :: tail) ∧ ∀ c ∈ "function ".toList ++ name ++ '(' :: params ++ [')'],
        isBlank c = false → c ∈ p := by
  obtain ⟨head, opening, mid, hhead, -, -, rfl⟩ := h.parts
  have hword : "return ".toList = "return".toList ++ [' '] := by decide
  refine ⟨head ++ (opening ++ (mid ++ "return ".toList)), ?_, by simp, ?_⟩
  · rw [hword]
    simp
  · intro c hc hblank
    exact List.mem_append_left _ (hhead.mem_head c hc hblank)

theorem skipOptional_append_cons {mark c : Char} (hc : isBlank c = false) (hne : c ≠ mark)
    (xs ys : List Char) : skipOptional mark (xs ++ c :: ys) = skipOptional mark xs ++ c :: ys := by
  unfold skipOptional
  rw [trimLeft_append_cons hc]
  cases trimLeft xs with
  | nil => simp [hne]
  | cons d rest =>
    show (if d == mark then rest ++ c :: ys else xs ++ c :: ys) =
      (if d == mark then rest else xs) ++ c :: ys
    split
    · rfl
    · rfl

/-- **A call stays a call when functions are cut down to their `return`.** -/
theorem framed_returningFunction : Framed returningFunction where
  front := by
    intro c hc cs
    unfold returningFunction
    rw [functionHead?_callFront hc]
    rfl
  short := by
    intro cs hshort
    by_contra hsome
    obtain ⟨⟨r, n⟩, hfound⟩ := Option.ne_none_iff_exists'.mp hsome
    obtain ⟨name, params, result, tail, hreturning, -, -⟩ := returningFunction_eq_some hfound
    obtain ⟨p, hlast, rfl, -⟩ := hreturning.exists_append
    have hlength : 2 ≤ (p ++ result).length := by
      have hpos := List.length_pos_of_ne_nil hreturning.result_ne_nil
      have hp : p ≠ [] := by
        rintro rfl
        cases hlast
      have hpos' := List.length_pos_of_ne_nil hp
      rw [List.length_append]
      omega
    apply hshort
    rw [← List.append_assoc]
    exact mem_drop_two hlength
  replaced := by
    intro x z r n hx hz hmatch
    obtain ⟨name, params, result, tail, hreturning, rfl, rfl⟩ := returningFunction_eq_some hmatch
    obtain ⟨p, hlast, heq, hmem⟩ := hreturning.exists_append
    have hword : '"' ∉ "return ".toList := by decide
    have hform : '"' ∉ p → '"' ∉ "function ".toList ++ name ++ '(' :: params ++ [')'] :=
      fun hp hmem' => hp (hmem '"' hmem' (by decide))
    generalize "function ".toList ++ name ++ '(' :: params ++ [')'] = t at hform ⊢
    generalize "return ".toList = word at hword ⊢
    rcases cut_at_statement hlast (by decide) hreturning.result_ne_nil hz heq with
      ⟨v, rfl, rfl⟩ | ⟨y, rfl, rfl, rfl⟩
    · -- A closing brace behind the `return` is looked for in front of the end of the call.
      obtain ⟨skipped, hskipped⟩ := skipOptional_suffix '\x7d' v
      have hskip : skipOptional '\x7d' (v ++ (callEnd ++ z)) =
          skipOptional '\x7d' v ++ (callEnd ++ z) :=
        skipOptional_append_cons (by decide) (by decide) v _
      have hphrase : p ++ (result ++ ';' :: v) =
          (p ++ (result ++ ';' :: skipped)) ++ skipOptional '\x7d' v := by
        conv_lhs => rw [← hskipped]
        simp
      simp only [List.mem_append, List.mem_cons, not_or] at hx
      refine .inside hphrase ?_ (by simp) (quote_not_mem_braced (hform hx.1) ?_)
        (.inr (lineFeed_mem_braced t _))
      · rw [hskip, hphrase]
        simp only [List.length_append]
        omega
      · simp [hword, hx.2.1]
    · obtain ⟨skipped, hskipped⟩ := skipOptional_suffix '\x7d' tail
      simp only [List.mem_append, not_or] at hx
      have hresult : word ++ (y ++ ['"', ')']) ++ [';'] = (word ++ y) ++ callEnd := by
        simp [callEnd]
      obtain ⟨x', hbraced, hx', hline⟩ :=
        exists_braced_callEnd (hform hx.1) (y := word ++ y) (by simp [hword, hx.2])
      rw [hresult, hbraced]
      refine .across hskipped.symm ?_ rfl hx' (by decide) (.inr hline)
      have hlength := congrArg List.length hskipped
      simp only [List.length_append] at hlength ⊢
      omega

/-! ### Breaking a literal over lines -/

/-- The text is a call whose literal is broken over lines, with no semicolon behind the call. -/
def Broken (cs : List Char) : Prop :=
  ∃ x z, cs = enclosed x z ∧ '"' ∉ x ∧ ';' ∉ z ∧ '\n' ∈ x

/-- A step that breaks the literals with the given property over lines and leaves other literals as
they are. -/
structure Breaks (f : List Char → List Char) (D : List Char → Prop) : Prop where
  /-- A literal that is broken over lines stays so. -/
  broken : ∀ {cs : List Char}, Broken cs → Broken (f cs)
  /-- The literals with the property are broken over lines. -/
  breaks : ∀ {s : List Char}, '"' ∉ s → '\n' ∉ s → D s → Broken (f (enclosed s []))
  /-- The other ones stay as they are. -/
  keeps : ∀ {s : List Char}, ¬ D s → f (enclosed s []) = enclosed s []

theorem Breaks.comp {f g : List Char → List Char} {D E : List Char → Prop} (hg : Breaks g E)
    (hf : Breaks f D) : Breaks (fun cs => g (f cs)) (fun s => D s ∨ E s) where
  broken h := hg.broken (hf.broken h)
  breaks := by
    intro s hquote hline hs
    by_cases hD : D s
    · exact hg.broken (hf.breaks hquote hline hD)
    · show Broken (g (f (enclosed s [])))
      rw [hf.keeps hD]
      exact hg.breaks hquote hline (hs.resolve_left hD)
  keeps := by
    intro s hs
    rw [not_or] at hs
    show g (f (enclosed s [])) = _
    rw [hf.keeps hs.1, hg.keeps hs.2]

/-- A matcher under which a call stays a call breaks the literals that it changes. -/
theorem Framed.breaks {m : Matcher} (hm : Framed m) {D : List Char → Prop}
    (hmem : ∀ {cs}, D cs → '\n' ∈ replaceMatches m cs)
    (heq : ∀ {cs}, ¬ D cs → replaceMatches m cs = cs) :
    Breaks (replaceMatches m) (fun s => D (s ++ callEnd)) where
  broken := by
    rintro _ ⟨x, z, rfl, hx, hz, hline⟩
    obtain ⟨x', z', hreplace, hx', hz', hsame⟩ := hm.exists_replaceMatches hx hz
    refine ⟨x', z', ?_, hx', hz', ?_⟩
    · rw [hm.replaceMatches_enclosed, hreplace]
      rfl
    · rcases hsame with ⟨rfl, -⟩ | hline'
      · exact hline
      · exact hline'
  breaks := by
    intro s hquote hline hs
    obtain ⟨x', z', hreplace, hx', hz', hsame⟩ :=
      hm.exists_replaceMatches hquote (z := []) (by simp)
    refine ⟨x', z', ?_, hx', hz', ?_⟩
    · rw [hm.replaceMatches_enclosed, hreplace]
      rfl
    · rcases hsame with ⟨rfl, rfl⟩ | hline'
      · -- The text has a line feed now, and it had none.
        have hfeed := hmem hs
        rw [List.append_nil] at hreplace
        rw [hreplace] at hfeed
        simp [hline, callEnd] at hfeed
      · exact hline'
  keeps := by
    intro s hs
    rw [hm.replaceMatches_enclosed, List.append_nil, heq hs, enclosed, List.append_nil]

/-- A literal in which braces are added to a head. -/
def Braced (s : List Char) : Prop :=
  Returns (s ++ callEnd) ∨ Bared FunctionForm (s ++ callEnd) ∨
    ∃ word ∈ guardWords, Bared (GuardForm word) (s ++ callEnd)

theorem breaks_guarded {word : List Char} (hword : word ∈ guardWords) :
    Breaks (replaceMatches (guarded word)) (fun s => Bared (GuardForm word) (s ++ callEnd)) :=
  (framed_guarded hword).breaks (headRule_guarded word).mem_replaceMatches
    (headRule_guarded word).replaceMatches_eq

theorem breaks_addBraces : Breaks addBraces Braced := by
  have hreturn := framed_returningFunction.breaks mem_replaceMatches_of_returns
    replaceMatches_of_not_returns
  have hplain := framed_plainFunction.breaks headRule_plainFunction.mem_replaceMatches
    headRule_plainFunction.replaceMatches_eq
  have hif : "if".toList ∈ guardWords := List.mem_cons_self
  have hwhile : "while".toList ∈ guardWords := .tail _ List.mem_cons_self
  have hbraced : Braced = fun s => ((Returns (s ++ callEnd) ∨ Bared FunctionForm (s ++ callEnd)) ∨
      Bared (GuardForm "if".toList) (s ++ callEnd)) ∨
        Bared (GuardForm "while".toList) (s ++ callEnd) := by
    funext s
    simp only [Braced, guardWords, List.mem_cons, List.not_mem_nil, or_false, exists_eq_or_imp,
      exists_eq_left, or_assoc]
  rw [hbraced]
  exact (breaks_guarded hwhile).comp ((breaks_guarded hif).comp (hplain.comp hreturn))

end SeqPar.Layout
