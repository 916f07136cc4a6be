import SeqPar.Parse.Grammar

/-!
# Passing over tokens

What a parser does with tokens is said by one relation: `Passes p ts next q` holds when `p`, in
front of the tokens `ts` and a lookahead after them whose tag satisfies `next`, does what `q` does
right after `ts`.  A parser that gives a result passes over its tokens to a parser that has nothing
left to do; that is `Reads`.  A loop passes over each of its parts to itself, with more done.

The lines of the tokens are arbitrary: both relations are about every way to spread the tokens over
lines.

## Main definitions

* `Passes`, `Reads` — the relations.

## Main results

* `Passes.trans`, `Reads.bind` — passing over one list of tokens and then another.
* `Passes.peek_cons`, `Passes.advance_cons`, `Passes.accept_cons` and their like — one rule for each
  parser that all others are made of.
-/

namespace SeqPar

/-- The tag of the lookahead in front of some tokens. -/
def frontTag : List Located → Tag
  | [] => .endOfInput
  | t :: _ => t.token.tag

/-- The tag of the lookahead in front of some tokens, when what follows them shows the tag
`after`. -/
def leadTag (after : Tag) : List Token → Tag
  | [] => after
  | t :: _ => t.tag

/-- The line of the last of some tokens; of none, the line that is given. -/
def lastLine (line : Int) : List Located → Int
  | [] => line
  | t :: ts => lastLine t.line ts

@[simp] theorem leadTag_nil (g : Tag) : leadTag g [] = g := rfl

@[simp] theorem leadTag_cons (g : Tag) (t : Token) (ts : List Token) :
    leadTag g (t :: ts) = t.tag := rfl

theorem leadTag_append (g : Tag) (ts us : List Token) :
    leadTag g (ts ++ us) = leadTag (leadTag g us) ts := by
  cases ts <;> rfl

@[simp] theorem lastLine_nil (line : Int) : lastLine line [] = line := rfl

@[simp] theorem lastLine_cons (line : Int) (t : Located) (ts : List Located) :
    lastLine line (t :: ts) = lastLine t.line ts := rfl

theorem lastLine_append (line : Int) (ts us : List Located) :
    lastLine line (ts ++ us) = lastLine (lastLine line ts) us := by
  induction ts generalizing line with
  | nil => rfl
  | cons t ts ih => exact ih t.line

theorem frontTag_append (us rest : List Located) :
    frontTag (us ++ rest) = leadTag (frontTag rest) (us.map Located.token) := by
  cases us <;> rfl

theorem frontTag_eq (us : List Located) :
    frontTag us = leadTag .endOfInput (us.map Located.token) := by
  cases us <;> rfl

theorem look_tag (rest : List Located) (line : Int) :
    (Cursor.look ⟨rest, line⟩).tag = frontTag rest := by
  cases rest <;> rfl

namespace Parser

variable {α β : Type}

/-- In front of the tokens `ts`, with a lookahead after them whose tag satisfies `next`, the parser
`p` does what `q` does right after `ts`. -/
def Passes (p : Parser α) (ts : List Token) (next : Tag → Prop) (q : Parser α) : Prop :=
  ∀ (us rest : List Located) (line : Int), us.map Located.token = ts → next (frontTag rest) →
    p ⟨us ++ rest, line⟩ = q ⟨rest, lastLine line us⟩

/-- The parser `p` passes over exactly the tokens `ts` and gives `a`. -/
def Reads (p : Parser α) (ts : List Token) (next : Tag → Prop) (a : α) : Prop :=
  Passes p ts next (pure a)

/-! ### Composition -/

theorem Passes.refl (p : Parser α) (next : Tag → Prop) : Passes p [] next p := by
  intro us rest line hus _
  rw [List.map_eq_nil_iff] at hus
  subst hus
  rfl

theorem Reads.pure (a : α) (next : Tag → Prop) : Reads (pure a) [] next a :=
  Passes.refl _ next

/-- A stronger condition on the lookahead may be asked for. -/
theorem Passes.weaken {p q : Parser α} {ts : List Token} {next next' : Tag → Prop}
    (h : Passes p ts next q) (hnext : ∀ g, next' g → next g) : Passes p ts next' q :=
  fun us rest line hus hg => h us rest line hus (hnext _ hg)

/-- Passing over one list of tokens and then another.  What follows the first is the second, so the
first condition on the lookahead is one on the second list. -/
theorem Passes.trans {p q r : Parser α} {ts us : List Token} {next next' : Tag → Prop}
    (h : Passes p ts next q) (h' : Passes q us next' r)
    (hnext : ∀ g, next' g → next (leadTag g us)) : Passes p (ts ++ us) next' r := by
  intro ws rest line hws hg
  obtain ⟨ws₁, ws₂, rfl, rfl, rfl⟩ := List.map_eq_append_iff.mp hws
  have hfront : next (frontTag (ws₂ ++ rest)) := by
    rw [frontTag_append]
    exact hnext _ hg
  rw [List.append_assoc, h ws₁ (ws₂ ++ rest) line rfl hfront, h' ws₂ rest _ rfl hg,
    lastLine_append]

theorem Passes.bind {p q : Parser α} {ts : List Token} {next : Tag → Prop}
    (h : Passes p ts next q) (f : α → Parser β) : Passes (p >>= f) ts next (q >>= f) := by
  intro us rest line hus hg
  change EStateM.bind p f _ = EStateM.bind q f _
  rw [EStateM.bind, EStateM.bind, h us rest line hus hg]

/-- Reading a part and going on with it. -/
theorem Reads.bind {p : Parser α} {f : α → Parser β} {q : Parser β} {ts us : List Token}
    {next next' : Tag → Prop} {a : α} (h : Reads p ts next a) (h' : Passes (f a) us next' q)
    (hnext : ∀ g, next' g → next (leadTag g us)) : Passes (p >>= f) (ts ++ us) next' q :=
  (Passes.bind h f).trans h' hnext

/-- Reading a part at the end. -/
theorem Reads.bind_last {p : Parser α} {f : α → Parser β} {q : Parser β} {ts : List Token}
    {next next' : Tag → Prop} {a : α} (h : Reads p ts next a) (hnext : ∀ g, next' g → next g)
    (h' : Passes (f a) [] next' q) : Passes (p >>= f) ts next' q := by
  have := h.bind h' hnext
  rwa [List.append_nil] at this

/-! ### The lookahead -/

theorem Passes.peek_cons {f : Token → Parser α} {q : Parser α} {t : Token} {ts : List Token}
    {next : Tag → Prop} (h : Passes (f t) (t :: ts) next q) :
    Passes (peek >>= f) (t :: ts) next q := by
  intro us rest line hus hg
  cases us with
  | nil => cases hus
  | cons u us =>
    obtain ⟨hu, -⟩ := List.cons.inj hus
    rw [← h (u :: us) rest line hus hg, ← hu]
    rfl

theorem Passes.peek_nil {f : Token → Parser α} {q : Parser α} {next : Tag → Prop}
    (h : ∀ t : Token, next t.tag → Passes (f t) [] next q) : Passes (peek >>= f) [] next q := by
  intro us rest line hus hg
  have hlook : next (Cursor.look ⟨rest, line⟩).tag := by
    rw [look_tag]
    exact hg
  rw [List.map_eq_nil_iff] at hus
  subst hus
  exact h _ hlook [] rest line rfl hg

theorem Passes.peekTag_bind {f : Tag → Parser α} {q : Parser α} {ts : List Token}
    {next : Tag → Prop} (h : ∀ g, next g → Passes (f (leadTag g ts)) ts next q) :
    Passes (peekTag >>= f) ts next q := by
  intro us rest line hus hg
  rw [← h _ hg us rest line hus hg, ← hus, ← frontTag_append, ← look_tag _ line]
  rfl

theorem Passes.peekTag_cons {f : Tag → Parser α} {q : Parser α} {t : Token} {ts : List Token}
    {next : Tag → Prop} (h : Passes (f t.tag) (t :: ts) next q) :
    Passes (peekTag >>= f) (t :: ts) next q :=
  Passes.peekTag_bind fun _ _ => h

/-! ### Passing over one token -/

theorem Passes.advance_cons {f : Unit → Parser α} {q : Parser α} {t : Token} {ts : List Token}
    {next : Tag → Prop} (h : Passes (f ()) ts next q) :
    Passes (advance >>= f) (t :: ts) next q := by
  intro us rest line hus hg
  cases us with
  | nil => cases hus
  | cons u us =>
    obtain ⟨-, hus⟩ := List.cons.inj hus
    exact h us rest u.line hus hg

theorem Passes.accept_cons {f : Unit → Parser α} {q : Parser α} {t : Token} {ts : List Token}
    {next : Tag → Prop} {g : Tag} (hg : t.tag = g) (h : Passes (f ()) ts next q) :
    Passes (accept g >>= f) (t :: ts) next q := by
  subst hg
  rw [accept, bind_assoc]
  refine Passes.peekTag_cons ?_
  rw [if_pos rfl]
  exact Passes.advance_cons h

/-- A token that is not the one asked for stays. -/
theorem Passes.accept_ne {f : Unit → Parser α} {q : Parser α} {ts : List Token}
    {next : Tag → Prop} {g : Tag} (hne : ∀ g', next g' → leadTag g' ts ≠ g)
    (h : Passes (f ()) ts next q) : Passes (accept g >>= f) ts next q := by
  rw [accept, bind_assoc]
  refine Passes.peekTag_bind fun g' hg' => ?_
  rw [if_neg (hne g' hg')]
  exact h

theorem Passes.textThen_cons {f : String → Parser α} {q : Parser α} {t : Token}
    {ts : List Token} {next : Tag → Prop} {g : Tag} (hg : t.tag = g)
    (h : Passes (f t.text) ts next q) : Passes (textThen g >>= f) (t :: ts) next q := by
  have hrest : Passes (accept g >>= fun _ => f t.text) (t :: ts) next q :=
    Passes.accept_cons hg h
  intro us rest line hus hnext
  cases us with
  | nil => cases hus
  | cons u us =>
    obtain ⟨hu, -⟩ := List.cons.inj hus
    rw [← hrest (u :: us) rest line hus hnext, ← hu, textThen, bind_assoc]
    simp only [bind_assoc, pure_bind]
    rfl

end Parser

end SeqPar
