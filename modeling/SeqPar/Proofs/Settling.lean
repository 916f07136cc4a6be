import SeqPar.Parse.Grammar

/-!
# Parsers that settle

The parsers take a bound on the depth of their calls, which is bookkeeping: with enough of it they
never reach it, and what they do does not depend on it.  Whatever the bound is, a result is given
only in front of fewer tokens than there were.  Both are said at once.  `Settles spent fails xs ys p
q c` compares a parser under two bounds, `p` and `q`: from the place `c` on they do the same, and
they stop with a result in front of a part of `ys` or without one.  Whether they may stop with a
fault, in front of a part of `xs`, is said by `fails`; whether they may run out of fuel is said by
`spent`.

The tokens ahead only ever get fewer from the front, so the places that a parser comes to are the
suffixes of the tokens ahead.  A parser that consumes a token stops in front of a suffix of their
tail.

## Main definitions

* `Stops`, `Settles` — how a parser stops, under one bound and under two.
* `Keeps` — parsers that settle wherever they start in front of some tokens.
* `Covers` — two bounds that are enough for the tokens ahead, or one that may be spent.
* `SettlesWithin` — a parser that settles under bounds that cover, and consumes a token.
* `chain` — the loop that reads operands with operators between them.

## Main results

* `Settles.bind`, `Settles.recover` — one parser after another.
* `Settles.peek`, `Settles.advance`, `Settles.accept` and their like — one rule for each parser that
  all others are made of.
* `chain_keeps` — a chain settles if its operands do.
-/

namespace SeqPar

/-! ### Places -/

@[simp] theorem Cursor.ahead_advance (c : Cursor) : c.advance.ahead = c.ahead.tail := by
  obtain ⟨ahead, passed⟩ := c
  cases ahead <;> rfl

theorem Cursor.advance_suffix_tail (c : Cursor) : c.advance.ahead <:+ c.ahead.tail :=
  ⟨[], c.ahead_advance⟩

theorem Cursor.advance_suffix (c : Cursor) : c.advance.ahead <:+ c.ahead :=
  c.advance_suffix_tail.trans (List.tail_suffix _)

theorem Cursor.look_eq {c d : Cursor} (h : d.ahead = c.ahead) : d.look = c.look := by
  rw [look, look, h]

/-- Only in front of a token can the lookahead be something else than the end of the input. -/
theorem Cursor.exists_cons {c : Cursor} (h : c.look.tag ≠ .endOfInput) :
    ∃ t ts, c.ahead = t :: ts := by
  cases hahead : c.ahead with
  | nil =>
    rw [look, hahead] at h
    exact absurd rfl h
  | cons t ts => exact ⟨t, ts, rfl⟩

/-- A suffix is the whole list or a suffix of its tail. -/
theorem eq_or_suffix_tail {α : Type} {xs ys : List α} (h : ys <:+ xs) :
    ys = xs ∨ ys <:+ xs.tail := by
  cases xs with
  | nil => exact .inl (List.suffix_nil.mp h)
  | cons x xs => exact List.suffix_cons_iff.mp h

/-- A parser that stops in front of the tail has fewer tokens ahead than before, if there were any.
-/
theorem Cursor.length_lt_of_suffix_tail {c d : Cursor} (h : d.ahead <:+ c.ahead.tail)
    (hne : c.ahead ≠ []) : d.ahead.length < c.ahead.length := by
  have hle := h.length_le
  have hpos := List.length_pos_iff.mpr hne
  rw [List.length_tail] at hle
  omega

/-! ### Searching for a stop -/

theorem Cursor.skipTo_of_stop {stop : Tag → Bool} {c : Cursor} (h : stop c.look.tag = true) :
    c.skipTo stop = c := by
  obtain ⟨ahead, passed⟩ := c
  cases ahead with
  | nil => rfl
  | cons t ts => exact if_pos h

theorem Cursor.skipTo_of_not_stop {stop : Tag → Bool} {c : Cursor} (h : stop c.look.tag = false) :
    c.skipTo stop = c.advance.skipTo stop := by
  obtain ⟨ahead, passed⟩ := c
  cases ahead with
  | nil => rfl
  | cons t ts => exact if_neg (Bool.not_eq_true _ ▸ h)

theorem Cursor.skipTo_suffix (stop : Tag → Bool) (c : Cursor) :
    (c.skipTo stop).ahead <:+ c.ahead := by
  -- by induction along the tokens that are passed over
  obtain ⟨ahead, passed⟩ := c
  induction ahead generalizing passed with
  | nil => exact List.suffix_refl _
  | cons t ts ih =>
    cases hstop : stop t.token.tag with
    | true => exact ⟨[], congrArg Cursor.ahead (skipTo_of_stop hstop)⟩
    | false =>
      rw [skipTo_of_not_stop hstop]
      exact (ih t.line).trans (List.suffix_cons t ts)

/-- A lookahead that is no stop is passed over. -/
theorem Cursor.skipTo_suffix_tail {stop : Tag → Bool} {c : Cursor} (h : stop c.look.tag = false) :
    (c.skipTo stop).ahead <:+ c.ahead.tail := by
  rw [skipTo_of_not_stop h]
  exact (c.advance.skipTo_suffix stop).trans c.advance_suffix_tail

namespace Parser

variable {α β : Type}

/-! ### Stopping -/

/-- How a parser may stop: with a result in front of a part of `ys`, if `fails` allows it with a
fault in front of a part of `xs`, and if `spent` allows it for want of fuel. -/
def Stops (spent fails : Prop) (xs ys : List Located) : EStateM.Result Halt Cursor α → Prop
  | .ok _ c => c.ahead <:+ ys
  | .error (.fault _) c => fails ∧ c.ahead <:+ xs
  | .error .outOfFuel _ => spent

/-- From the place `c` on, both parsers do the same and stop as they may. -/
structure Settles (spent fails : Prop) (xs ys : List Located) (p q : Parser α) (c : Cursor) :
    Prop where
  same : p c = q c
  ends : Stops spent fails xs ys (p c)

namespace Settles

variable {spent fails : Prop} {xs ys zs : List Located} {p q : Parser α} {f g : α → Parser β}
  {c : Cursor}

theorem mono {fails' : Prop} {xs' ys' : List Located} (h : Settles spent fails xs ys p q c)
    (hfails : fails → fails') (hxs : xs <:+ xs') (hys : ys <:+ ys') :
    Settles spent fails' xs' ys' p q c := by
  refine ⟨h.same, ?_⟩
  have hends := h.ends
  revert hends
  cases p c with
  | ok a d => exact fun hd => List.IsSuffix.trans hd hys
  | error halt d =>
    cases halt with
    | fault cause => exact fun hd => ⟨hfails hd.1, hd.2.trans hxs⟩
    | outOfFuel => exact id

theorem suffix_of_ok {a : α} {d : Cursor} (h : Settles spent fails xs ys p q c)
    (hok : p c = .ok a d) : d.ahead <:+ ys := by
  have hends := h.ends
  rw [hok] at hends
  exact hends

/-- A parser that may not spend its bound does not run out of fuel. -/
theorem ne_outOfFuel (h : Settles False fails xs ys p q c) (d : Cursor) :
    p c ≠ .error .outOfFuel d := by
  intro hout
  have hends := h.ends
  rw [hout] at hends
  exact hends

/-- A parser that may not fail either gives a result. -/
theorem exists_ok (h : Settles False False xs ys p q c) :
    ∃ a d, p c = .ok a d ∧ d.ahead <:+ ys := by
  have hends := h.ends
  cases hp : p c with
  | ok a d => exact ⟨a, d, rfl, h.suffix_of_ok hp⟩
  | error halt d =>
    rw [hp] at hends
    cases halt with
    | fault cause => exact hends.1.elim
    | outOfFuel => exact hends.elim

theorem pure (a : α) (h : c.ahead <:+ ys) : Settles spent fails xs ys (pure a) (pure a) c :=
  ⟨rfl, h⟩

theorem fail (fault : Fault) (hfails : fails) (h : c.ahead <:+ xs) :
    Settles spent fails xs ys (Parser.fail fault : Parser α) (Parser.fail fault) c :=
  ⟨rfl, hfails, h⟩

theorem failAt (fault : Int → Fault) (hfails : fails) (h : c.ahead <:+ xs) :
    Settles spent fails xs ys (Parser.failAt fault : Parser α) (Parser.failAt fault) c :=
  ⟨rfl, hfails, h⟩

/-- One parser after another: the second starts where the first has stopped. -/
theorem bind (h : Settles spent fails xs ys p q c)
    (hrest : ∀ a d, d.ahead <:+ ys → Settles spent fails xs zs (f a) (g a) d) :
    Settles spent fails xs zs (p >>= f) (q >>= g) c := by
  obtain ⟨hsame, hends⟩ := h
  have hleft : (p >>= f) c = EStateM.bind p f c := rfl
  have hright : (q >>= g) c = EStateM.bind q g c := rfl
  rw [EStateM.bind] at hleft hright
  rw [← hsame] at hright
  cases hp : p c with
  | ok a d =>
    rw [hp] at hleft hright hends
    have hd := hrest a d hends
    exact ⟨hleft.trans (hd.same.trans hright.symm), hleft ▸ hd.ends⟩
  | error halt d =>
    rw [hp] at hleft hright hends
    refine ⟨hleft.trans hright.symm, ?_⟩
    rw [hleft]
    cases halt with
    | fault cause => exact hends
    | outOfFuel => exact hends

/-- Going on after a fault: the handler starts where the fault was noticed. -/
theorem recover {handler handler' : Parser α} {xs' : List Located}
    (h : Settles spent True xs ys p q c)
    (hrest : ∀ d, d.ahead <:+ xs → Settles spent fails xs' ys handler handler' d) :
    Settles spent fails xs' ys (Parser.recover p handler) (Parser.recover q handler') c := by
  obtain ⟨hsame, hends⟩ := h
  cases hp : p c with
  | ok a d =>
    rw [hp] at hends
    refine ⟨?_, ?_⟩
    · rw [Parser.recover, Parser.recover, ← hsame, hp]
    · rw [Parser.recover, hp]
      exact hends
  | error halt d =>
    rw [hp] at hends
    cases halt with
    | fault cause =>
      have hd := hrest d hends.2
      refine ⟨?_, ?_⟩
      · rw [Parser.recover, Parser.recover, ← hsame, hp]
        exact hd.same
      · rw [Parser.recover, hp]
        exact hd.ends
    | outOfFuel =>
      refine ⟨?_, ?_⟩
      · rw [Parser.recover, Parser.recover, ← hsame, hp]
      · rw [Parser.recover, hp]
        exact hends

/-! ### The parsers that all others are made of -/

theorem peek {f g : Token → Parser β} (h : Settles spent fails xs ys (f c.look) (g c.look) c) :
    Settles spent fails xs ys (Parser.peek >>= f) (Parser.peek >>= g) c :=
  ⟨h.same, h.ends⟩

theorem peekTag {f g : Tag → Parser β}
    (h : Settles spent fails xs ys (f c.look.tag) (g c.look.tag) c) :
    Settles spent fails xs ys (Parser.peekTag >>= f) (Parser.peekTag >>= g) c :=
  ⟨h.same, h.ends⟩

theorem peekText {f g : String → Parser β}
    (h : Settles spent fails xs ys (f c.look.text) (g c.look.text) c) :
    Settles spent fails xs ys (Parser.peekText >>= f) (Parser.peekText >>= g) c :=
  ⟨h.same, h.ends⟩

theorem advance {f g : Unit → Parser β} (h : Settles spent fails xs ys (f ()) (g ()) c.advance) :
    Settles spent fails xs ys (Parser.advance >>= f) (Parser.advance >>= g) c :=
  ⟨h.same, h.ends⟩

/-- The lookahead is passed over if it is the token that is asked for, and stays if it is not. -/
theorem accept_cases {f g : Unit → Parser β} {tag : Tag}
    (hself : c.look.tag = tag → Settles spent fails xs ys (f ()) (g ()) c.advance)
    (hne : c.look.tag ≠ tag → Settles spent fails xs ys (f ()) (g ()) c) :
    Settles spent fails xs ys (Parser.accept tag >>= f) (Parser.accept tag >>= g) c := by
  rw [Parser.accept, bind_assoc, bind_assoc]
  refine peekTag ?_
  by_cases htag : c.look.tag = tag
  · rw [if_pos htag]
    exact advance (hself htag)
  · rw [if_neg htag]
    exact hne htag

theorem accept_self {f g : Unit → Parser β} {tag : Tag} (htag : c.look.tag = tag)
    (h : Settles spent fails xs ys (f ()) (g ()) c.advance) :
    Settles spent fails xs ys (Parser.accept tag >>= f) (Parser.accept tag >>= g) c :=
  accept_cases (fun _ => h) fun hne => absurd htag hne

theorem accept_ne {f g : Unit → Parser β} {tag : Tag} (htag : c.look.tag ≠ tag)
    (h : Settles spent fails xs ys (f ()) (g ()) c) :
    Settles spent fails xs ys (Parser.accept tag >>= f) (Parser.accept tag >>= g) c :=
  accept_cases (fun heq => absurd heq htag) fun _ => h

theorem accept {f g : Unit → Parser β} {tag : Tag}
    (h : ∀ d, d.ahead <:+ c.ahead → Settles spent fails xs ys (f ()) (g ()) d) :
    Settles spent fails xs ys (Parser.accept tag >>= f) (Parser.accept tag >>= g) c :=
  accept_cases (fun _ => h _ c.advance_suffix) fun _ => h c (List.suffix_refl _)

theorem textThen_ne {f g : String → Parser β} {tag : Tag} (htag : c.look.tag ≠ tag)
    (h : Settles spent fails xs ys (f c.look.text) (g c.look.text) c) :
    Settles spent fails xs ys (Parser.textThen tag >>= f) (Parser.textThen tag >>= g) c := by
  simp only [Parser.textThen, bind_assoc, pure_bind]
  exact peekText (accept_ne htag h)

theorem textThen_self {f g : String → Parser β} {tag : Tag} (htag : c.look.tag = tag)
    (h : Settles spent fails xs ys (f c.look.text) (g c.look.text) c.advance) :
    Settles spent fails xs ys (Parser.textThen tag >>= f) (Parser.textThen tag >>= g) c := by
  simp only [Parser.textThen, bind_assoc, pure_bind]
  exact peekText (accept_self htag h)

theorem textThen {f g : String → Parser β} {tag : Tag}
    (h : ∀ text d, d.ahead <:+ c.ahead → Settles spent fails xs ys (f text) (g text) d) :
    Settles spent fails xs ys (Parser.textThen tag >>= f) (Parser.textThen tag >>= g) c := by
  simp only [Parser.textThen, bind_assoc, pure_bind]
  exact peekText (accept (h c.look.text))

theorem skipTo {f g : Unit → Parser β} {stops : StopSet}
    (h : Settles spent fails xs ys (f ()) (g ()) (c.skipTo stops.tags.contains)) :
    Settles spent fails xs ys (Parser.skipTo stops >>= f) (Parser.skipTo stops >>= g) c :=
  ⟨h.same, h.ends⟩

end Settles

/-! ### Parsers that are followed no further

Once a token has been consumed, what matters of the rest of a phrase is only that it settles. -/

/-- Both parsers settle wherever they start in front of a part of `ts`. -/
def Keeps (spent fails : Prop) (ts : List Located) (p q : Parser α) : Prop :=
  ∀ c : Cursor, c.ahead <:+ ts → Settles spent fails ts ts p q c

namespace Keeps

variable {spent fails : Prop} {ts : List Located} {p q : Parser α} {f g : α → Parser β}

theorem pure (a : α) : Keeps spent fails ts (pure a) (pure a) :=
  fun _ hc => Settles.pure a hc

theorem fail (fault : Fault) :
    Keeps spent True ts (Parser.fail fault : Parser α) (Parser.fail fault) :=
  fun _ hc => Settles.fail fault trivial hc

theorem failAt (fault : Int → Fault) :
    Keeps spent True ts (Parser.failAt fault : Parser α) (Parser.failAt fault) :=
  fun _ hc => Settles.failAt fault trivial hc

theorem bind (h : Keeps spent fails ts p q) (hrest : ∀ a, Keeps spent fails ts (f a) (g a)) :
    Keeps spent fails ts (p >>= f) (q >>= g) :=
  fun c hc => (h c hc).bind fun a d hd => hrest a d hd

theorem recover {handler handler' : Parser α} (h : Keeps spent True ts p q)
    (hrest : Keeps spent fails ts handler handler') :
    Keeps spent fails ts (Parser.recover p handler) (Parser.recover q handler') :=
  fun c hc => (h c hc).recover fun d hd => hrest d hd

theorem peek {f g : Token → Parser β} (h : ∀ t, Keeps spent fails ts (f t) (g t)) :
    Keeps spent fails ts (Parser.peek >>= f) (Parser.peek >>= g) :=
  fun c hc => Settles.peek (h c.look c hc)

theorem peekTag {f g : Tag → Parser β} (h : ∀ tag, Keeps spent fails ts (f tag) (g tag)) :
    Keeps spent fails ts (Parser.peekTag >>= f) (Parser.peekTag >>= g) :=
  fun c hc => Settles.peekTag (h c.look.tag c hc)

theorem peekText {f g : String → Parser β} (h : ∀ text, Keeps spent fails ts (f text) (g text)) :
    Keeps spent fails ts (Parser.peekText >>= f) (Parser.peekText >>= g) :=
  fun c hc => Settles.peekText (h c.look.text c hc)

theorem advance {f g : Unit → Parser β} (h : Keeps spent fails ts (f ()) (g ())) :
    Keeps spent fails ts (Parser.advance >>= f) (Parser.advance >>= g) :=
  fun c hc => Settles.advance (h c.advance (c.advance_suffix.trans hc))

theorem accept {f g : Unit → Parser β} {tag : Tag} (h : Keeps spent fails ts (f ()) (g ())) :
    Keeps spent fails ts (Parser.accept tag >>= f) (Parser.accept tag >>= g) :=
  fun _ hc => Settles.accept fun d hd => h d (hd.trans hc)

theorem textThen {f g : String → Parser β} {tag : Tag}
    (h : ∀ text, Keeps spent fails ts (f text) (g text)) :
    Keeps spent fails ts (Parser.textThen tag >>= f) (Parser.textThen tag >>= g) :=
  fun _ hc => Settles.textThen fun text d hd => h text d (hd.trans hc)

theorem textThen_last (tag : Tag) :
    Keeps spent fails ts (Parser.textThen tag) (Parser.textThen tag) := by
  rw [← bind_pure (Parser.textThen tag)]
  exact textThen fun text => pure text

theorem skipTo {f g : Unit → Parser β} {stops : StopSet} (h : Keeps spent fails ts (f ()) (g ())) :
    Keeps spent fails ts (Parser.skipTo stops >>= f) (Parser.skipTo stops >>= g) :=
  fun c hc => Settles.skipTo (h _ ((c.skipTo_suffix _).trans hc))

theorem ite {condition : Prop} [Decidable condition] {p' q' : Parser α}
    (h : Keeps spent fails ts p q) (h' : Keeps spent fails ts p' q') :
    Keeps spent fails ts (if condition then p else p') (if condition then q else q') := by
  split
  · exact h
  · exact h'

end Keeps

/-- The rest of a phrase after its first token. -/
theorem Settles.of_keeps {spent fails : Prop} {p q : Parser α} {c : Cursor}
    (h : Keeps spent fails c.ahead.tail p q) :
    Settles spent fails c.ahead c.ahead.tail p q c.advance :=
  (h c.advance c.advance_suffix_tail).mono id (List.tail_suffix _) (List.suffix_refl _)

/-! ### Bounds -/

/-- Two bounds that are enough for the tokens ahead, with some to spare, or a bound that may be
spent. -/
def Covers (spent : Prop) (spare : Nat) (ts : List Located) (n m : Nat) : Prop :=
  16 * ts.length + spare ≤ n ∧ 16 * ts.length + spare ≤ m ∨ spent ∧ n = m

namespace Covers

variable {spent : Prop} {spare need n m : Nat} {ts us : List Located} {c : Cursor}

theorem self (spare : Nat) (ts : List Located) (n : Nat) : Covers True spare ts n n :=
  .inr ⟨trivial, rfl⟩

/-- Where nothing is left of a bound it may be spent. -/
theorem spent_of_zero (h : Covers spent (spare + 1) ts n m) (hzero : n = 0 ∨ m = 0) :
    spent ∧ n = 0 ∧ m = 0 := by
  rcases h with ⟨hn, hm⟩ | ⟨hspent, rfl⟩
  · omega
  · exact ⟨hspent, by omega, by omega⟩

/-- What is enough stays enough when fewer tokens are ahead. -/
theorem mono (h : Covers spent spare ts n m) (hus : us <:+ ts) (hneed : need ≤ spare) :
    Covers spent need us n m := by
  have hlength := hus.length_le
  rcases h with ⟨hn, hm⟩ | hsame
  · exact .inl ⟨by omega, by omega⟩
  · exact .inr hsame

/-- A call takes one from both bounds. -/
theorem call (h : Covers spent spare ts (n + 1) (m + 1)) (hus : us <:+ ts)
    (hneed : need + 1 ≤ spare) : Covers spent need us n m := by
  have hlength := hus.length_le
  rcases h with ⟨hn, hm⟩ | ⟨hspent, hsame⟩
  · exact .inl ⟨by omega, by omega⟩
  · exact .inr ⟨hspent, by omega⟩

/-- A token that has been passed over leaves more to spare. -/
theorem passed (h : Covers spent spare c.ahead n m) (hc : c.look.tag ≠ .endOfInput)
    (hus : us <:+ c.ahead.tail) (hneed : need ≤ spare + 16) : Covers spent need us n m := by
  obtain ⟨t, ts, hahead⟩ := c.exists_cons hc
  rw [hahead] at hus
  have hlength : us.length ≤ ts.length := hus.length_le
  rw [Covers, hahead, List.length_cons] at h
  rcases h with ⟨hn, hm⟩ | hsame
  · exact .inl ⟨by omega, by omega⟩
  · exact .inr hsame

/-- A call after a token has been passed over. -/
theorem callAfter (h : Covers spent spare c.ahead (n + 1) (m + 1)) (hc : c.look.tag ≠ .endOfInput)
    (hneed : need ≤ spare + 15) : Covers spent need c.ahead.tail n m :=
  (h.passed hc (List.suffix_refl _) (Nat.le_refl _)).call (List.suffix_refl _) (by omega)

end Covers

/-- With the bound `n`, and `spare` more than the tokens ahead need, the parser settles wherever it
starts, and it consumes a token unless none is ahead. -/
def SettlesWithin (spent fails : Prop) (spare n : Nat) (p : Nat → Parser α) : Prop :=
  ∀ m c, Covers spent spare c.ahead n m →
    Settles spent fails c.ahead c.ahead.tail (p n) (p m) c

/-- With the bound `n`, and `spare` more than the tokens ahead need, the parser settles wherever it
starts. -/
def KeepsWithin (spent fails : Prop) (spare n : Nat) (p : Nat → Parser α) : Prop :=
  ∀ m ts, Covers spent spare ts n m → Keeps spent fails ts (p n) (p m)

section Within

variable {spent fails fails' : Prop} {spare n m : Nat} {p : Nat → Parser α} {ts : List Located}

/-- Without fuel a parser may stop only if its bound may be spent. -/
theorem Settles.of_zero {xs ys : List Located} {c : Cursor} (hzero : p 0 = outOfFuel)
    (h : Covers spent (spare + 1) ts n m) (hnm : n = 0 ∨ m = 0) :
    Settles spent fails xs ys (p n) (p m) c := by
  obtain ⟨hspent, rfl, rfl⟩ := h.spent_of_zero hnm
  refine ⟨rfl, ?_⟩
  rw [hzero]
  exact hspent

theorem SettlesWithin.of_succ (hzero : p 0 = outOfFuel)
    (h : ∀ k m c, n = k + 1 → Covers spent (spare + 1) c.ahead (k + 1) (m + 1) →
      Settles spent fails c.ahead c.ahead.tail (p (k + 1)) (p (m + 1)) c) :
    SettlesWithin spent fails (spare + 1) n p := by
  intro m c hc
  match n, m with
  | 0, _ => exact Settles.of_zero hzero hc (.inl rfl)
  | _, 0 => exact Settles.of_zero hzero hc (.inr rfl)
  | k + 1, m + 1 => exact h k m c rfl hc

theorem KeepsWithin.of_succ (hzero : p 0 = outOfFuel)
    (h : ∀ k m ts, n = k + 1 → Covers spent (spare + 1) ts (k + 1) (m + 1) →
      Keeps spent fails ts (p (k + 1)) (p (m + 1))) :
    KeepsWithin spent fails (spare + 1) n p := by
  intro m ts hts
  match n, m with
  | 0, _ => exact fun c _ => Settles.of_zero hzero hts (.inl rfl)
  | _, 0 => exact fun c _ => Settles.of_zero hzero hts (.inr rfl)
  | k + 1, m + 1 => exact h k m ts rfl hts

/-- A parser that consumes a token, followed no further. -/
theorem SettlesWithin.keeps (h : SettlesWithin spent fails spare n p) (hfails : fails → fails')
    (hts : Covers spent spare ts n m) : Keeps spent fails' ts (p n) (p m) := by
  intro c hc
  have hsettles := h m c (hts.mono hc (Nat.le_refl _))
  exact hsettles.mono hfails hc ((List.tail_suffix _).trans hc)

theorem KeepsWithin.mono {need : Nat} (h : KeepsWithin spent fails need n p) (hneed : need ≤ spare) :
    KeepsWithin spent fails spare n p :=
  fun m ts hts => h m ts (hts.mono (List.suffix_refl _) hneed)

end Within

/-! ### Chains of operands -/

/-- Operands with operators between them, each joined to what has been read before it. -/
def chain (isOperator : Tag → Bool) (operand : Nat → Parser β) (join : α → Token → β → α) :
    Nat → α → Parser α
  | 0, _ => outOfFuel
  | n + 1, done => do
    let op ← peek
    if isOperator op.tag then
      advance
      let next ← operand n
      chain isOperator operand join n (join done op next)
    else return done

section Chain

variable {spent fails : Prop} {isOperator : Tag → Bool} {operand : Nat → Parser β}
  {join : α → Token → β → α} {n m : Nat}

/-- **A chain settles if its operands do**, by induction on the bound. -/
theorem chain_keeps (hend : isOperator .endOfInput = false)
    (hoperand : ∀ k < n, KeepsWithin spent fails 15 k operand) (done : α) :
    KeepsWithin spent fails 1 n fun n => chain isOperator operand join n done := by
  induction n generalizing done with
  | zero => exact KeepsWithin.of_succ rfl fun k _ _ hk => nomatch hk
  | succ n ih =>
    refine KeepsWithin.of_succ rfl ?_
    rintro _ m ts ⟨⟩ hts c hc
    simp only [chain]
    refine Settles.peek ?_
    by_cases hop : isOperator c.look.tag = true
    · rw [if_pos hop, if_pos hop]
      have htag : c.look.tag ≠ .endOfInput := by
        intro htag
        rw [htag, hend] at hop
        cases hop
      have hcovers : Covers spent 15 c.ahead.tail n m :=
        (hts.mono hc (Nat.le_refl _)).callAfter htag (by omega)
      have hnext : Keeps spent fails c.ahead.tail (operand n) (operand m) :=
        hoperand n (Nat.lt_succ_self n) m _ hcovers
      have hrest : ∀ done, Keeps spent fails c.ahead.tail (chain isOperator operand join n done)
          (chain isOperator operand join m done) := by
        intro done
        exact ih (fun k hk => hoperand k (Nat.lt_succ_of_lt hk)) done m _
          (hcovers.mono (List.suffix_refl _) (by omega))
      refine Settles.advance ?_
      have hafter := Settles.of_keeps (hnext.bind fun next => hrest (join done c.look next))
      exact hafter.mono id hc ((List.tail_suffix _).trans hc)
    · rw [if_neg hop, if_neg hop]
      exact Settles.pure done hc

/-- An operand and the chain after it. -/
theorem operands_settle {start : β → α} {spare : Nat} {c : Cursor}
    (hend : isOperator .endOfInput = false) (hspare : 1 ≤ spare ∧ spare ≤ 15)
    (hoperand : ∀ k < n + 1, SettlesWithin spent fails spare k operand)
    (h : Covers spent (spare + 1) c.ahead (n + 1) (m + 1)) :
    Settles spent fails c.ahead c.ahead.tail
      (operand n >>= fun first => chain isOperator operand join n (start first))
      (operand m >>= fun first => chain isOperator operand join m (start first)) c := by
  have hfirst := hoperand n (Nat.lt_succ_self n) m c (h.call (List.suffix_refl _) (Nat.le_refl _))
  have hlater : ∀ k < n, KeepsWithin spent fails 15 k operand := by
    intro k hk j us hus
    exact (hoperand k (Nat.lt_succ_of_lt hk)).keeps id (hus.mono (List.suffix_refl _) hspare.2)
  refine hfirst.bind fun first d hd => ?_
  have hchain := @chain_keeps _ _ _ _ _ _ join _ hend hlater (start first) m c.ahead.tail
    (h.call (List.tail_suffix _) (by omega))
  exact (hchain d hd).mono id (List.tail_suffix _) (List.suffix_refl _)

end Chain

end Parser

end SeqPar
