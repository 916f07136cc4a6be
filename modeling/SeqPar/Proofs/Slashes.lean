import Mathlib.Data.List.Chain
import SeqPar.Proofs.ExprProgress

/-!
# Slashes

A slash between two operands makes a quotient.  Right behind a number it does not: the number takes
the slash as its decimal point, with the number behind it if there is one, and no quotient is made.

This is followed through every run of the parsers of expressions, whatever the tokens are.  A run
that makes `k` quotients passes over `k` slashes or more; if it passes over exactly `k`, then none
of them stands right behind a number, and neither does the token in front of which the run stops.

## Main definitions

* `FreeSlashes` — no slash stands right behind a number.
* `Node.quotients` — the number of quotients in a tree.
* `Makes` — a way from one place to another on which a number of quotients is made.
* `Accounts` — a parser whose results have as many quotients as are made on its way.

## Main results

* `factor_number` — what a number does to the slash behind it.
* `chain_accounts` — a loop over operands, by induction on its bound.
* `expr_accounts` — the parser of sums.
* `freeSlashes_of_expr` — **tokens that are read as a tree with a quotient for every slash have no
  slash right behind a number.**
-/

namespace SeqPar

namespace Node

mutual

/-- The number of quotients in an expression. -/
def quotients : Node → Nat
  | .arithmetic _ op left right =>
    (if op.tag = .divide then 1 else 0) + quotients left + quotients right
  | .unary _ _ operand => quotients operand
  | .call _ _ args => quotientsAll args
  | _ => 0

/-- The number of quotients in expressions. -/
def quotientsAll : List Node → Nat
  | [] => 0
  | n :: ns => quotients n + quotientsAll ns

end

theorem quotientsAll_append (ns ns' : List Node) :
    quotientsAll (ns ++ ns') = quotientsAll ns + quotientsAll ns' := by
  induction ns with
  | nil => simp [quotientsAll]
  | cons n ns ih => rw [List.cons_append, quotientsAll, quotientsAll, ih, Nat.add_assoc]

theorem quotientsAll_singleton (n : Node) : quotientsAll [n] = n.quotients := by
  rw [quotientsAll, quotientsAll, Nat.add_zero]

end Node

namespace Parser

/-! ### Slashes in tokens -/

/-- The tags of tokens. -/
def tagsOf (us : List Located) : List Tag :=
  us.map fun t => t.token.tag

@[simp] theorem tagsOf_nil : tagsOf [] = [] := rfl

@[simp] theorem tagsOf_cons (t : Located) (us : List Located) :
    tagsOf (t :: us) = t.token.tag :: tagsOf us := rfl

@[simp] theorem tagsOf_append (us vs : List Located) :
    tagsOf (us ++ vs) = tagsOf us ++ tagsOf vs :=
  List.map_append

/-- The number of slashes. -/
def slashes (gs : List Tag) : Nat :=
  gs.count .divide

@[simp] theorem slashes_append (gs hs : List Tag) :
    slashes (gs ++ hs) = slashes gs + slashes hs :=
  List.count_append

theorem slashes_cons_of_ne {g : Tag} (hg : g ≠ .divide) (gs : List Tag) :
    slashes (g :: gs) = slashes gs :=
  List.count_cons_of_ne hg

theorem slashes_cons_self (gs : List Tag) : slashes (.divide :: gs) = slashes gs + 1 :=
  List.count_cons_self

/-- No slash stands right behind a number. -/
def FreeSlashes (gs : List Tag) : Prop :=
  gs.IsChain fun g h => ¬ (g = .number ∧ h = .divide)

instance (gs : List Tag) : Decidable (FreeSlashes gs) :=
  inferInstanceAs (Decidable (gs.IsChain _))

theorem FreeSlashes.of_append {gs hs : List Tag} (h : FreeSlashes (gs ++ hs)) : FreeSlashes gs :=
  (List.isChain_append.mp h).1

theorem FreeSlashes.of_append_cons {gs hs : List Tag} {g : Tag} (h : FreeSlashes (gs ++ g :: hs)) :
    FreeSlashes hs :=
  (List.isChain_append.mp h).2.1.tail

/-- Between two lists only the last tag of the first and the first tag of the second matter. -/
theorem FreeSlashes.append {gs hs : List Tag} (hgs : FreeSlashes (gs ++ hs.take 1))
    (hhs : FreeSlashes hs) : FreeSlashes (gs ++ hs) := by
  obtain ⟨hfirst, -, hjoin⟩ := List.isChain_append.mp hgs
  refine List.isChain_append.mpr ⟨hfirst, hhs, ?_⟩
  cases hs with
  | nil => exact hjoin
  | cons h hs => exact hjoin

/-- Nothing is asked of what stands behind a token that is no number. -/
theorem FreeSlashes.pair {g h : Tag} (hg : g ≠ .number ∨ h ≠ .divide) : FreeSlashes [g, h] := by
  refine List.isChain_pair.mpr ?_
  rintro ⟨hnumber, hslash⟩
  rcases hg with hg | hg
  · exact hg hnumber
  · exact hg hslash

/-! ### Ways -/

/-- From the place `c` to the place `d`, tokens are passed over that make `k` quotients: there are
enough slashes among them, and if there are no more than that, every slash is free, up to the
lookahead at the end. -/
def Makes (k : Nat) (c d : Cursor) : Prop :=
  ∃ us, c.ahead = us ++ d.ahead ∧ k ≤ slashes (tagsOf us) ∧
    (slashes (tagsOf us) = k → FreeSlashes (tagsOf us ++ (tagsOf d.ahead).take 1))

namespace Makes

variable {k j : Nat} {c d e : Cursor}

theorem refl (c : Cursor) : Makes 0 c c := by
  refine ⟨[], rfl, Nat.zero_le _, fun _ => ?_⟩
  cases c.ahead with
  | nil => exact List.isChain_nil
  | cons t ts => exact List.isChain_singleton _

/-- One way after another. -/
theorem trans (h : Makes k c d) (h' : Makes j d e) : Makes (k + j) c e := by
  obtain ⟨us, hus, hk, hfree⟩ := h
  obtain ⟨vs, hvs, hj, hfree'⟩ := h'
  refine ⟨us ++ vs, ?_, ?_, ?_⟩
  · rw [hus, hvs, List.append_assoc]
  · rw [tagsOf_append, slashes_append]
    exact Nat.add_le_add hk hj
  · intro hsum
    rw [tagsOf_append, slashes_append] at hsum
    have hfirst := hfree (by omega)
    have hsecond := hfree' (by omega)
    rw [tagsOf_append, List.append_assoc]
    refine FreeSlashes.append ?_ hsecond
    -- the lookahead of the first way is the first token of the second, or its lookahead
    have hlook : (tagsOf vs ++ (tagsOf e.ahead).take 1).take 1 = (tagsOf d.ahead).take 1 := by
      rw [hvs, tagsOf_append]
      cases vs with
      | nil => simp [List.take_take]
      | cons v vs => rfl
    rwa [hlook]

/-- A way with a slash that makes no quotient: from `c` to the slash at `d` and on to `e`. -/
theorem of_slash (hd : d.ahead <:+ c.ahead) (hslash : d.look.tag = .divide)
    (he : e.ahead <:+ d.ahead.tail) : Makes 0 c e := by
  obtain ⟨us, hus⟩ := hd
  obtain ⟨vs, hvs⟩ := he
  obtain ⟨t, ts, hahead⟩ := d.exists_cons (by simp [hslash])
  have htag : t.token.tag = .divide := by rw [← hslash, Cursor.look, hahead]
  have hmem : Tag.divide ∈ tagsOf (us ++ t :: vs) := by simp [htag]
  rw [hahead, List.tail_cons] at hvs
  refine ⟨us ++ t :: vs, ?_, Nat.zero_le _, fun hzero => ?_⟩
  · rw [← hus, hahead, ← hvs, List.append_assoc, List.cons_append]
  · exact absurd hzero (Nat.ne_of_gt (List.count_pos_iff.mpr hmem))

/-- The lookahead is passed over and makes no quotient; a number must not have a slash behind it. -/
theorem advance (hc : c.look.tag ≠ .number ∨ c.advance.look.tag ≠ .divide) :
    Makes 0 c c.advance := by
  obtain ⟨ahead, passed⟩ := c
  cases ahead with
  | nil => exact refl _
  | cons t ts =>
    refine ⟨[t], rfl, Nat.zero_le _, fun _ => ?_⟩
    cases ts with
    | nil => exact List.isChain_singleton _
    | cons t' ts => exact FreeSlashes.pair hc

/-- A slash is passed over and makes a quotient. -/
theorem slash (hc : c.look.tag = .divide) : Makes 1 c c.advance := by
  obtain ⟨ahead, passed⟩ := c
  cases ahead with
  | nil => cases hc
  | cons t ts =>
    have htag : t.token.tag = .divide := hc
    have hnumber : t.token.tag ≠ .number := by
      rw [htag]
      decide
    refine ⟨[t], rfl, ?_, fun _ => ?_⟩
    · rw [tagsOf_cons, htag, slashes_cons_self]
      exact Nat.le_add_left 1 _
    · cases ts with
      | nil => exact List.isChain_singleton _
      | cons t' ts => exact FreeSlashes.pair (.inl hnumber)

/-- An operator is passed over and makes a quotient if it is a slash. -/
theorem operator (hc : c.look.tag ≠ .number) :
    Makes (if c.look.tag = .divide then 1 else 0) c c.advance := by
  split
  · next hslash => exact slash hslash
  · exact advance (.inl hc)

end Makes

/-! ### Parsers -/

variable {α β : Type}

/-- From the place `c` on, every result of the parser has as many quotients more than `start` as are
made on the way to it. -/
def Accounts (size : α → Nat) (start : Nat) (p : Parser α) (c : Cursor) : Prop :=
  ∀ a d, p c = .ok a d → ∃ k, size a = start + k ∧ Makes k c d

namespace Accounts

variable {size : α → Nat} {size' : β → Nat} {start : Nat} {p : Parser α} {f : α → Parser β}
  {c : Cursor}

theorem pure {a : α} (h : size a = start) (c : Cursor) :
    Accounts size start (Pure.pure a) c := by
  rintro b d ⟨⟩
  exact ⟨0, h, .refl c⟩

theorem outOfFuel (c : Cursor) : Accounts size start Parser.outOfFuel c :=
  fun _ _ h => nomatch h

theorem bind (hp : Accounts size start p c) (hf : ∀ a d, Accounts size' (size a) (f a) d) :
    Accounts size' start (p >>= f) c := by
  intro b e h
  change EStateM.bind p f c = .ok b e at h
  rw [EStateM.bind] at h
  cases hpc : p c with
  | error halt d =>
    rw [hpc] at h
    cases h
  | ok a d =>
    rw [hpc] at h
    obtain ⟨k, hk, hway⟩ := hp a d hpc
    obtain ⟨j, hj, hway'⟩ := hf a d b e h
    exact ⟨k + j, by omega, hway.trans hway'⟩

/-- More quotients may be counted with every result. -/
theorem shift (hp : Accounts size 0 p c) (m : Nat) :
    Accounts (fun a => m + size a) m p c := by
  intro a d h
  obtain ⟨k, hk, hway⟩ := hp a d h
  refine ⟨k, ?_, hway⟩
  show m + size a = m + k
  omega

theorem peek {f : Token → Parser β} (h : Accounts size' start (f c.look) c) :
    Accounts size' start (Parser.peek >>= f) c :=
  h

theorem peekTag {f : Tag → Parser β} (h : Accounts size' start (f c.look.tag) c) :
    Accounts size' start (Parser.peekTag >>= f) c :=
  h

theorem advance {f : Unit → Parser β} {k : Nat} (hway : Makes k c c.advance)
    (h : Accounts size' (start + k) (f ()) c.advance) :
    Accounts size' start (Parser.advance >>= f) c := by
  intro b e hb
  obtain ⟨j, hj, hway'⟩ := h b e hb
  exact ⟨k + j, by omega, hway.trans hway'⟩

theorem accept {f : Unit → Parser β} {tag : Tag} (htag : tag ≠ .number)
    (h : ∀ d, Accounts size' start (f ()) d) :
    Accounts size' start (Parser.accept tag >>= f) c := by
  rw [Parser.accept, bind_assoc]
  refine peekTag ?_
  by_cases hlook : c.look.tag = tag
  · rw [if_pos hlook]
    exact advance (.advance (.inl (hlook ▸ htag))) (h c.advance)
  · rw [if_neg hlook]
    exact h c

end Accounts

/-- **A loop over operands accounts for its quotients**, if its operands do and each join adds what
the operator makes. -/
theorem chain_accounts {isOperator : Tag → Bool} {operand : Nat → Parser β}
    {join : α → Token → β → α} {size : α → Nat} {size' : β → Nat} {n : Nat}
    (hoperator : isOperator .number = false)
    (hoperand : ∀ k < n, ∀ c, Accounts size' 0 (operand k) c)
    (hjoin : ∀ a op b, isOperator op.tag = true →
      size (join a op b) = size a + (if op.tag = .divide then 1 else 0) + size' b)
    (done : α) (c : Cursor) :
    Accounts size (size done) (chain isOperator operand join n done) c := by
  induction n generalizing done c with
  | zero => exact Accounts.outOfFuel c
  | succ n ih =>
    rw [chain]
    refine Accounts.peek ?_
    by_cases hop : isOperator c.look.tag = true
    · rw [if_pos hop]
      have hnumber : c.look.tag ≠ .number := by
        intro htag
        rw [htag, hoperator] at hop
        cases hop
      refine Accounts.advance (Makes.operator hnumber) ?_
      refine ((hoperand n (Nat.lt_succ_self n) _).shift _).bind fun next d => ?_
      have hrest := ih (fun k hk => hoperand k (Nat.lt_succ_of_lt hk)) (join done c.look next) d
      rwa [hjoin done c.look next hop] at hrest
    · rw [if_neg hop]
      exact Accounts.pure rfl c

/-! ### Expressions -/

/-- What a number does to the slash behind it: it takes the slash, and the number behind the slash
as its decimals. -/
theorem factor_number (n : Nat) {c : Cursor} (hc : c.look.tag = .number) :
    factor (n + 1) c =
      if c.advance.look.tag = .divide then
        if c.advance.advance.look.tag = .number then
          .ok (.constant (some "NUMBER")
            ⟨.number, c.look.text ++ "." ++ c.advance.advance.look.text⟩)
            c.advance.advance.advance
        else .ok (.constant (some "NUMBER") c.look) c.advance.advance
      else .ok (.constant (some "NUMBER") c.look) c.advance := by
  obtain ⟨ahead, passed⟩ := c
  cases ahead with
  | nil => cases hc
  | cons t ts =>
    obtain ⟨⟨tag, text⟩, line⟩ := t
    obtain rfl : tag = .number := hc
    rw [factor]
    show (if (Cursor.look ⟨ts, line⟩).tag = .divide then _ else _ : Parser Node) ⟨ts, line⟩ =
      if (Cursor.look ⟨ts, line⟩).tag = .divide then _ else _
    by_cases hslash : (Cursor.look ⟨ts, line⟩).tag = .divide
    · rw [if_pos hslash, if_pos hslash]
      let d : Cursor := Cursor.advance ⟨ts, line⟩
      show (if d.look.tag = .number then _ else _ : Parser Node) d =
        if d.look.tag = .number then _ else _
      by_cases hnumber : d.look.tag = .number
      · rw [if_pos hnumber, if_pos hnumber]
        rfl
      · rw [if_neg hnumber, if_neg hnumber]
        rfl
    · rw [if_neg hslash, if_neg hslash]
      rfl

/-- A number makes no quotient, with or without a slash behind it. -/
theorem number_accounts (n : Nat) {c : Cursor} (hc : c.look.tag = .number) :
    Accounts Node.quotients 0 (factor (n + 1)) c := by
  intro a d h
  rw [factor_number n hc] at h
  by_cases hslash : c.advance.look.tag = .divide
  · rw [if_pos hslash] at h
    by_cases hnumber : c.advance.advance.look.tag = .number
    · rw [if_pos hnumber] at h
      cases h
      refine ⟨0, rfl, .of_slash c.advance_suffix hslash ?_⟩
      exact (Cursor.advance_suffix _).trans (Cursor.advance_suffix_tail _)
    · rw [if_neg hnumber] at h
      cases h
      exact ⟨0, rfl, .of_slash c.advance_suffix hslash (Cursor.advance_suffix_tail _)⟩
  · rw [if_neg hslash] at h
    cases h
    exact ⟨0, rfl, .advance (.inr hslash)⟩

section Reading

variable {n : Nat}

/-- What is known of factors while the bound is smaller. -/
def FactorsAccount (n : Nat) : Prop :=
  ∀ k < n, ∀ c, Accounts Node.quotients 0 (factor k) c

theorem FactorsAccount.of_le {m : Nat} (h : FactorsAccount n) (hm : m ≤ n) : FactorsAccount m :=
  fun k hk => h k (Nat.lt_of_lt_of_le hk hm)

theorem quotients_operation (left right : Node) (op : Token) : (operation left op right).quotients =
    left.quotients + (if op.tag = .divide then 1 else 0) + right.quotients := by
  rw [operation, Node.quotients]
  omega

theorem term_accounts_of (h : FactorsAccount n) (c : Cursor) :
    Accounts Node.quotients 0 (term n) c := by
  cases n with
  | zero =>
    rw [term]
    exact Accounts.outOfFuel c
  | succ n =>
    simp only [term, termAfter_eq]
    refine (h n (Nat.lt_succ_self n) c).bind fun left d => ?_
    exact chain_accounts rfl (h.of_le (Nat.le_succ n))
      (fun left op right _ => quotients_operation left right op) left d

theorem expr_accounts_of (h : FactorsAccount n) (c : Cursor) :
    Accounts Node.quotients 0 (expr n) c := by
  cases n with
  | zero =>
    rw [expr]
    exact Accounts.outOfFuel c
  | succ n =>
    have hterm : ∀ k < n + 1, ∀ d, Accounts Node.quotients 0 (term k) d :=
      fun k hk => term_accounts_of (h.of_le (Nat.le_of_lt hk))
    simp only [expr, exprAfter_eq]
    refine (hterm n (Nat.lt_succ_self n) c).bind fun left d => ?_
    exact chain_accounts rfl (fun k hk => hterm k (Nat.lt_succ_of_lt hk))
      (fun left op right _ => quotients_operation left right op) left d

theorem argList_accounts_of (h : FactorsAccount n) (c : Cursor) :
    Accounts Node.quotientsAll 0 (argList n) c := by
  cases n with
  | zero =>
    rw [argList]
    exact Accounts.outOfFuel c
  | succ n =>
    have hexpr : ∀ k < n + 1, ∀ d, Accounts Node.quotients 0 (expr k) d :=
      fun k hk => expr_accounts_of (h.of_le (Nat.le_of_lt hk))
    -- a comma makes no quotient
    have hjoin : ∀ (args : List Node) (op : Token) (next : Node), isComma op.tag = true →
        Node.quotientsAll (args ++ [next]) =
          Node.quotientsAll args + (if op.tag = .divide then 1 else 0) + next.quotients := by
      intro args op next hop
      rw [isComma, beq_iff_eq] at hop
      rw [Node.quotientsAll_append, Node.quotientsAll_singleton, hop, if_neg (by decide),
        Nat.add_zero]
    rw [argList_succ, argsInside]
    refine Accounts.accept (by decide) fun d => Accounts.peekTag ?_
    split
    · exact Accounts.accept (by decide) fun e => Accounts.pure rfl e
    · have hargs : Accounts Node.quotientsAll 0 (expr n >>= fun first =>
          chain isComma expr (fun args _ next => args ++ [next]) n [first]) d := by
        refine (hexpr n (Nat.lt_succ_self n) d).bind fun first e => ?_
        rw [← Node.quotientsAll_singleton]
        exact chain_accounts rfl (fun k hk => hexpr k (Nat.lt_succ_of_lt hk)) hjoin [first] e
      exact hargs.bind fun args e => Accounts.accept (by decide) fun e' => Accounts.pure rfl e'

/-- A factor accounts for its quotients if the factors with a smaller bound do. -/
theorem factor_accounts_of (h : FactorsAccount n) (c : Cursor) :
    Accounts Node.quotients 0 (factor n) c := by
  cases n with
  | zero =>
    rw [factor]
    exact Accounts.outOfFuel c
  | succ n =>
    by_cases hnumber : c.look.tag = .number
    · exact number_accounts n hnumber
    have hway : Makes 0 c c.advance := .advance (.inl hnumber)
    have hoperand := h n (Nat.lt_succ_self n)
    have hexpr := expr_accounts_of (h.of_le (Nat.le_succ n))
    have hargs := argList_accounts_of (h.of_le (Nat.le_succ n))
    rw [factor]
    refine Accounts.peek ?_
    split
    all_goals refine Accounts.advance hway ?_
    · exact (hoperand _).bind fun operand d => Accounts.pure (by rw [Node.quotients]) d
    · exact (hoperand _).bind fun operand d => Accounts.pure (by rw [Node.quotients]) d
    · refine (hexpr _).bind fun inner d => ?_
      exact Accounts.accept (by decide) fun e => Accounts.pure rfl e
    -- the five tags that may be the name of a call
    iterate 5
      · refine Accounts.peekTag ?_
        split
        · exact (hargs _).bind fun args d => Accounts.pure (by rw [Node.quotients]) d
        · exact Accounts.pure rfl _
    · next htag => exact absurd htag hnumber
    · exact Accounts.pure rfl _
    · exact Accounts.pure rfl _
    · exact Accounts.pure rfl _

end Reading

/-- **A factor accounts for its quotients.** -/
theorem factor_accounts (n : Nat) (c : Cursor) : Accounts Node.quotients 0 (factor n) c := by
  induction n using Nat.strongRecOn generalizing c with
  | ind n ih => exact factor_accounts_of ih c

theorem expr_accounts (n : Nat) (c : Cursor) : Accounts Node.quotients 0 (expr n) c :=
  expr_accounts_of (fun k _ => factor_accounts k) c

/-- **Tokens that are read as a tree with a quotient for every slash have no slash right behind a
number.** -/
theorem freeSlashes_of_expr {n : Nat} {us rest : List Located} {line line' : Int} {e : Node}
    (h : expr n ⟨us ++ rest, line⟩ = .ok e ⟨rest, line'⟩)
    (hquotients : e.quotients = slashes (tagsOf us)) : FreeSlashes (tagsOf us) := by
  obtain ⟨k, hk, vs, hvs, -, hfree⟩ := expr_accounts n _ e _ h
  obtain rfl : us = vs := List.append_cancel_right hvs
  exact (hfree (by omega)).of_append

end Parser

end SeqPar
