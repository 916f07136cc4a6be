import Mathlib.Logic.Relation
import SeqPar.Proofs.StmtProgress

/-!
# Loops turn by turn

A loop that reads statements is followed through its turns.  A turn starts in front of a tag that
does not end the loop, adds the statements that it reads to those so far and stops at another place;
what it adds and where it stops depend neither on the statements so far nor on the bound, if that is
enough for the tokens ahead.  So the turns of a loop form a relation between places, and what the
loop does in the end is said by the places that its turns come to: it gives what they have added, or
it stops with the fault of the turn that fails.

## Main definitions

* `Cursor.past` — the place behind a token that may be missing.
* `Faults` — a parser stops with a fault.
* `StatementLoop.Adds`, `StatementLoop.Turn`, `StatementLoop.Turns` — what one turn adds, one turn
  and any number of them.

## Main results

* `StatementLoop.turn_append` — a turn adds to the statements so far.
* `StatementLoop.parser_ok` — **a loop stops in front of a tag that ends it, with what its turns
  have added.**
* `StatementLoop.parser_faults` — **a loop fails exactly with the fault of a turn that it comes
  to.**
-/

namespace SeqPar

/-- The place behind the lookahead if it has the given tag, and in front of it if it has not. -/
def Cursor.past (tag : Tag) (c : Cursor) : Cursor :=
  if c.look.tag = tag then c.advance else c

theorem Cursor.past_self {tag : Tag} {c : Cursor} (h : c.look.tag = tag) :
    c.past tag = c.advance :=
  if_pos h

theorem Cursor.past_ne {tag : Tag} {c : Cursor} (h : c.look.tag ≠ tag) : c.past tag = c :=
  if_neg h

theorem Cursor.past_suffix (tag : Tag) (c : Cursor) : (c.past tag).ahead <:+ c.ahead := by
  by_cases h : c.look.tag = tag
  · rw [past_self h]
    exact c.advance_suffix
  · exact ⟨[], congrArg Cursor.ahead (past_ne h)⟩

namespace Parser

variable {α β : Type} {p : Parser α} {g : α → Parser β} {c d : Cursor} {f : Fault}

/-! ### How parsers stop -/

theorem accept_apply (tag : Tag) (c : Cursor) : accept tag c = .ok () (c.past tag) := by
  change (if c.look.tag = tag then advance else pure ()) c = _
  by_cases h : c.look.tag = tag
  · rw [if_pos h, Cursor.past_self h]
    rfl
  · rw [if_neg h, Cursor.past_ne h]
    rfl

theorem bind_ok_iff {b : β} : (p >>= g) c = .ok b d ↔ ∃ a e, p c = .ok a e ∧ g a e = .ok b d := by
  change EStateM.bind p g c = _ ↔ _
  rw [EStateM.bind]
  cases p c with
  | ok a e =>
    constructor
    · intro h
      exact ⟨a, e, rfl, h⟩
    · rintro ⟨_, _, hp, h⟩
      cases hp
      exact h
  | error halt e =>
    constructor
    · intro h
      cases h
    · rintro ⟨_, _, hp, _⟩
      cases hp

/-- The parser stops with this fault. -/
def Faults (p : Parser α) (c : Cursor) (f : Fault) : Prop :=
  ∃ d, p c = .error (.fault f) d

theorem faults_bind_of_ok {a : α} (h : p c = .ok a d) :
    Faults (p >>= g) c f ↔ Faults (g a) d f := by
  change (∃ e, EStateM.bind p g c = _) ↔ _
  rw [EStateM.bind, h]
  exact Iff.rfl

theorem faults_bind :
    Faults (p >>= g) c f ↔ Faults p c f ∨ ∃ a d, p c = .ok a d ∧ Faults (g a) d f := by
  cases hp : p c with
  | ok a d =>
    rw [faults_bind_of_ok hp]
    constructor
    · intro h
      exact .inr ⟨a, d, rfl, h⟩
    · rintro (⟨e, he⟩ | ⟨_, _, ⟨⟩, h⟩)
      · rw [hp] at he
        cases he
      · exact h
  | error halt d =>
    change (∃ e, EStateM.bind p g c = _) ↔ _
    simp [EStateM.bind, Faults, hp]

theorem not_faults_pure (a : α) : ¬ Faults (pure a) c f :=
  fun ⟨_, h⟩ => nomatch h

theorem faults_fail {cause : Fault} : Faults (fail cause : Parser α) c f ↔ cause = f := by
  constructor
  · rintro ⟨d, h⟩
    cases h
    rfl
  · rintro rfl
    exact ⟨c, rfl⟩

theorem faults_failAt {cause : Int → Fault} :
    Faults (failAt cause : Parser α) c f ↔ cause c.line = f :=
  faults_fail

theorem faults_peek {g : Token → Parser β} : Faults (peek >>= g) c f ↔ Faults (g c.look) c f :=
  Iff.rfl

theorem faults_peekTag {g : Tag → Parser β} :
    Faults (peekTag >>= g) c f ↔ Faults (g c.look.tag) c f :=
  Iff.rfl

theorem faults_peekText {g : String → Parser β} :
    Faults (peekText >>= g) c f ↔ Faults (g c.look.text) c f :=
  Iff.rfl

theorem faults_advance {g : Unit → Parser β} :
    Faults (advance >>= g) c f ↔ Faults (g ()) c.advance f :=
  Iff.rfl

theorem faults_skipTo {g : Unit → Parser β} {stops : StopSet} :
    Faults (skipTo stops >>= g) c f ↔ Faults (g ()) (c.skipTo stops.tags.contains) f :=
  Iff.rfl

theorem faults_accept {g : Unit → Parser β} {tag : Tag} :
    Faults (accept tag >>= g) c f ↔ Faults (g ()) (c.past tag) f := by
  rw [faults_bind_of_ok (accept_apply tag c)]

theorem faults_textThen {g : String → Parser β} {tag : Tag} :
    Faults (textThen tag >>= g) c f ↔ Faults (g c.look.text) (c.past tag) f := by
  simp only [textThen, bind_assoc, pure_bind]
  rw [faults_peekText, faults_accept]

/-- A parser that goes on after a fault fails only where it goes on. -/
theorem not_faults_recover {handler : Parser α} (h : ∀ d, ¬ Faults handler d f) :
    ¬ Faults (recover p handler) c f := by
  rintro ⟨d, hd⟩
  rw [recover] at hd
  split at hd
  · next e hp => exact h e ⟨d, hd⟩
  · next hne => exact hne _ _ hd

/-- A parser that is known not to fail. -/
theorem Settles.not_faults {spent : Prop} {xs ys : List Located} {q : Parser α}
    (h : Settles spent False xs ys p q c) : ¬ Faults p c f := by
  rintro ⟨d, hd⟩
  have hends := h.ends
  rw [hd] at hends
  exact hends.1

/-- A parser that does not run out of fuel gives a result or fails. -/
theorem Settles.ok_or_faults {fails : Prop} {xs ys : List Located} {q : Parser α}
    (h : Settles False fails xs ys p q c) : (∃ a d, p c = .ok a d) ∨ ∃ f, Faults p c f := by
  cases hp : p c with
  | ok a d => exact .inl ⟨a, d, rfl⟩
  | error halt d =>
    cases halt with
    | fault cause => exact .inr ⟨cause, d, hp⟩
    | outOfFuel => exact absurd hp (h.ne_outOfFuel d)

theorem Settles.faults_iff {spent fails : Prop} {xs ys : List Located} {q : Parser α}
    (h : Settles spent fails xs ys p q c) : Faults p c f ↔ Faults q c f := by
  rw [Faults, Faults, h.same]

/-! ### Turns -/

section ReadOrSkip

variable {stops : StopSet} {n : Nat}

theorem readOrSkip_of_ok {node : Node} (h : stmt n c = .ok node d) (done : List Node) :
    readOrSkip stops n done c = .ok (done ++ [node]) d := by
  have hread : (stmt n >>= fun node => pure (done ++ [node])) c = .ok (done ++ [node]) d :=
    bind_ok_iff.mpr ⟨node, d, h, rfl⟩
  rw [readOrSkip, recover, hread]

/-- A statement that cannot be read is left out, and the loop goes on behind the next stop. -/
theorem readOrSkip_of_fault (h : stmt n c = .error (.fault f) d) (done : List Node) :
    readOrSkip stops n done c = .ok done ((d.skipTo stops.tags.contains).past .semicolon) := by
  have hread : (stmt n >>= fun node => pure (done ++ [node])) c = .error (.fault f) d := by
    change EStateM.bind _ _ c = _
    rw [EStateM.bind, h]
  rw [readOrSkip, recover, hread]
  exact bind_ok_iff.mpr ⟨(), _, rfl, bind_ok_iff.mpr ⟨(), _, accept_apply _ _, rfl⟩⟩

theorem readOrSkip_of_outOfFuel (h : stmt n c = .error .outOfFuel d) (done : List Node) :
    readOrSkip stops n done c = .error .outOfFuel d := by
  have hread : (stmt n >>= fun node => pure (done ++ [node])) c = .error .outOfFuel d := by
    change EStateM.bind _ _ c = _
    rw [EStateM.bind, h]
  rw [readOrSkip, recover, hread]

theorem readOrSkip_append (stops : StopSet) (n : Nat) (done : List Node) :
    readOrSkip stops n done = (done ++ ·) <$> readOrSkip stops n [] := by
  funext c
  change _ = EStateM.map _ _ c
  rw [EStateM.map]
  cases h : stmt n c with
  | ok node d => rw [readOrSkip_of_ok h, readOrSkip_of_ok h, List.nil_append]
  | error halt d =>
    cases halt with
    | fault cause => simp [readOrSkip_of_fault h]
    | outOfFuel => rw [readOrSkip_of_outOfFuel h, readOrSkip_of_outOfFuel h]

theorem not_faults_readOrSkip {done : List Node} : ¬ Faults (readOrSkip stops n done) c f := by
  refine not_faults_recover fun d => ?_
  rw [faults_skipTo, optionalSemicolon, faults_accept]
  exact not_faults_pure _

end ReadOrSkip

namespace StatementLoop

variable {l : StatementLoop} {n m : Nat} {done : List Node}

theorem read_append (l : StatementLoop) (n : Nat) (tag : Tag) (done : List Node) :
    l.read n tag done = (done ++ ·) <$> l.read n tag [] := by
  cases l with
  | block => simp only [read, List.nil_append, map_bind, map_pure]
  | lenient => exact readOrSkip_append _ n done
  | function => exact readOrSkip_append _ n done
  | topLevel =>
    rw [read, read]
    split
    · simp only [List.nil_append, map_bind, map_pure]
    · split
      · exact readOrSkip_append _ n done
      · simp only [List.append_nil, map_bind, map_pure]

/-- A turn adds to the statements so far. -/
theorem turn_append (l : StatementLoop) (n : Nat) (tag : Tag) (done : List Node) :
    l.turn n tag done = (done ++ ·) <$> l.turn n tag [] := by
  rw [turn, turn]
  split
  · simp only [List.append_nil, map_bind, map_pure]
  · exact l.read_append n tag done

/-- In front of the place `c` the loop goes on, and its turn adds the nodes and stops at `d`. -/
def Adds (l : StatementLoop) (c : Cursor) (nodes : List Node) (d : Cursor) : Prop :=
  l.ends c.look.tag = false ∧ l.turn (fuelFor c.ahead.length) c.look.tag [] c = .ok nodes d

/-- A turn of the loop from one place to another. -/
def Turn (l : StatementLoop) (c d : Cursor) : Prop :=
  ∃ nodes, l.Adds c nodes d

/-- Any number of turns of the loop. -/
abbrev Turns (l : StatementLoop) : Cursor → Cursor → Prop :=
  Relation.ReflTransGen l.Turn

theorem Adds.unique {nodes nodes' : List Node} {d' : Cursor} (h : l.Adds c nodes d)
    (h' : l.Adds c nodes' d') : nodes = nodes' ∧ d = d' := by
  have heq := h.2.symm.trans h'.2
  cases heq
  exact ⟨rfl, rfl⟩

theorem Turn.unique {d' : Cursor} (h : l.Turn c d) (h' : l.Turn c d') : d = d' := by
  obtain ⟨nodes, h⟩ := h
  obtain ⟨nodes', h'⟩ := h'
  exact (h.unique h').2

theorem Turn.suffix_tail (h : l.Turn c d) : d.ahead <:+ c.ahead.tail := by
  obtain ⟨nodes, hend, hturn⟩ := h
  exact (turn_settles (l.readSettles _) hend (Covers.self 2 c.ahead _) []).suffix_of_ok hturn

theorem Turns.suffix (h : l.Turns c d) : d.ahead <:+ c.ahead := by
  induction h with
  | refl => exact List.suffix_refl _
  | tail _ hturn ih => exact hturn.suffix_tail.trans ((List.tail_suffix _).trans ih)

/-- The turns of a loop leave no place out: a place that the loop comes to lies in front of a given
turn, is the one where it starts or lies behind it. -/
theorem Turns.trichotomy {s e : Cursor} (hc : l.Turns s c) (hturn : l.Turn c d) (he : l.Turns s e) :
    c.ahead.length < e.ahead.length ∨ e = c ∨ e.ahead <:+ d.ahead := by
  have hunique : Relator.RightUnique l.Turn := fun _ _ _ h h' => h.unique h'
  rcases Relation.ReflTransGen.total_of_right_unique hunique hc he with hce | hec
  · rcases Relation.ReflTransGen.cases_head hce with rfl | ⟨x, hx, hxe⟩
    · exact .inr (.inl rfl)
    · rw [← hturn.unique hx] at hxe
      exact .inr (.inr (Turns.suffix hxe))
  · rcases Relation.ReflTransGen.cases_head hec with rfl | ⟨x, ⟨nodes, hend, hx⟩, hxc⟩
    · exact .inr (.inl rfl)
    · exact .inl (Nat.lt_of_le_of_lt (Turns.suffix hxc).length_le (turn_lt hend hx))

/-! ### A loop and its turns -/

theorem parser_of_ends (hend : l.ends c.look.tag = true) :
    l.parser (n + 1) done c = .ok done c := by
  rw [parser_succ, unrolled]
  change (if l.ends c.look.tag = true then pure done else _ : Parser (List Node)) c = _
  rw [if_pos hend]
  rfl

/-- A loop keeps the statements so far, in front of those that it adds. -/
theorem parser_extends {nodes : List Node} (h : l.parser n done c = .ok nodes d) :
    done <+: nodes := by
  induction n generalizing done c with
  | zero =>
    rw [parser_zero] at h
    cases h
  | succ n ih =>
    rw [parser_succ, unrolled] at h
    change (if l.ends c.look.tag = true then pure done else _ : Parser (List Node)) c = _ at h
    by_cases hend : l.ends c.look.tag = true
    · rw [if_pos hend] at h
      cases h
      exact List.prefix_refl _
    · rw [if_neg hend, turn_append, bind_map_left] at h
      obtain ⟨added, e, -, h⟩ := bind_ok_iff.mp h
      exact (List.prefix_append done added).trans (ih h)

/-- A turn does not depend on the bound that is left, if that is enough for the tokens ahead. -/
theorem parser_of_not_ends (hend : l.ends c.look.tag = false)
    (hc : Covers False 3 c.ahead (n + 1) (n + 1)) :
    l.parser (n + 1) done c = (l.turn (fuelFor c.ahead.length) c.look.tag [] >>= fun added =>
      l.parser n (done ++ added)) c := by
  have hcovers : Covers False 2 c.ahead n (fuelFor c.ahead.length) := by
    rcases hc with ⟨hn, -⟩ | ⟨hspent, -⟩
    · exact .inl ⟨by omega, by rw [fuelFor]; omega⟩
    · exact hspent.elim
  have hsame := (turn_settles (l.readSettles n) hend hcovers []).same
  rw [parser_succ, unrolled]
  change (if l.ends c.look.tag = true then pure done else _ : Parser (List Node)) c = _
  rw [hend, if_neg Bool.false_ne_true, turn_append, bind_map_left]
  change EStateM.bind _ _ c = EStateM.bind _ _ c
  rw [EStateM.bind, EStateM.bind, hsame]

/-- The bound that is left behind a turn is enough for the tokens ahead there. -/
theorem Turn.covers (h : l.Turn c d) (hc : Covers False 3 c.ahead (n + 1) (n + 1)) :
    Covers False 3 d.ahead n n := by
  obtain ⟨nodes, hend, -⟩ := id h
  exact (hc.callAfter (tag_ne_endOfInput hend) (by omega)).mono h.suffix_tail (Nat.le_refl _)

/-- The places that a loop comes to are the one in front of its next turn and those behind it. -/
theorem Turn.exists_turns (h : l.Turn c d) {P : Cursor → Prop} :
    (∃ e, l.Turns c e ∧ P e) ↔ P c ∨ ∃ e, l.Turns d e ∧ P e := by
  constructor
  · rintro ⟨e, hturns, he⟩
    rcases Relation.ReflTransGen.cases_head hturns with rfl | ⟨d', hturn, hrest⟩
    · exact .inl he
    · rw [← h.unique hturn] at hrest
      exact .inr ⟨e, hrest, he⟩
  · rintro (hc | ⟨e, hturns, he⟩)
    · exact ⟨c, .refl, hc⟩
    · exact ⟨e, .head h hturns, he⟩

/-- Where no turn starts the loop comes to no other place. -/
theorem exists_turns_of_not_turn (h : ∀ d, ¬ l.Turn c d) {P : Cursor → Prop} :
    (∃ e, l.Turns c e ∧ P e) ↔ P c := by
  constructor
  · rintro ⟨e, hturns, he⟩
    rcases Relation.ReflTransGen.cases_head hturns with rfl | ⟨d, hturn, -⟩
    · exact he
    · exact absurd hturn (h d)
  · intro hc
    exact ⟨c, .refl, hc⟩

theorem not_turn_of_ends (hend : l.ends c.look.tag = true) (d : Cursor) : ¬ l.Turn c d := by
  rintro ⟨nodes, hnot, -⟩
  rw [hend] at hnot
  cases hnot

/-- The turn that starts here adds the node. -/
def AddsNode (l : StatementLoop) (node : Node) (c : Cursor) : Prop :=
  ∃ nodes d, l.Adds c nodes d ∧ node ∈ nodes

theorem Adds.addsNode_iff {nodes : List Node} (h : l.Adds c nodes d) {node : Node} :
    l.AddsNode node c ↔ node ∈ nodes := by
  constructor
  · rintro ⟨nodes', d', h', hnode⟩
    rw [(h.unique h').1]
    exact hnode
  · intro hnode
    exact ⟨nodes, d, h, hnode⟩

/-- **A loop stops in front of a tag that ends it, with what its turns have added.** -/
theorem parser_ok {nodes : List Node} (hc : Covers False 3 c.ahead n n)
    (h : l.parser n done c = .ok nodes d) :
    l.Turns c d ∧ l.ends d.look.tag = true ∧
      ∀ node, node ∈ nodes ↔ node ∈ done ∨ ∃ e, l.Turns c e ∧ l.AddsNode node e := by
  induction n generalizing c done with
  | zero =>
    rw [parser_zero] at h
    cases h
  | succ n ih =>
    cases hend : l.ends c.look.tag with
    | true =>
      rw [parser_of_ends hend] at h
      cases h
      refine ⟨.refl, hend, fun node => ?_⟩
      rw [exists_turns_of_not_turn (not_turn_of_ends hend)]
      have hadds : ¬ l.AddsNode node d := fun ⟨_, e, hadds, _⟩ => not_turn_of_ends hend e ⟨_, hadds⟩
      simp [hadds]
    | false =>
      rw [parser_of_not_ends hend hc] at h
      obtain ⟨added, e, hturn, hrest⟩ := bind_ok_iff.mp h
      have hadds : l.Adds c added e := ⟨hend, hturn⟩
      have hstep : l.Turn c e := ⟨added, hadds⟩
      obtain ⟨hturns, hlast, hnodes⟩ := ih (hstep.covers hc) hrest
      refine ⟨.head hstep hturns, hlast, fun node => ?_⟩
      rw [hnodes, hstep.exists_turns, hadds.addsNode_iff, List.mem_append, or_assoc]

/-- **A loop fails exactly with the fault of a turn that it comes to.** -/
theorem parser_faults (hc : Covers False 3 c.ahead n n) :
    Faults (l.parser n done) c f ↔
      ∃ e, l.Turns c e ∧ l.ends e.look.tag = false ∧
        Faults (l.turn (fuelFor e.ahead.length) e.look.tag []) e f := by
  induction n generalizing c done with
  | zero =>
    rcases hc with ⟨hn, -⟩ | ⟨hspent, -⟩
    · omega
    · exact hspent.elim
  | succ n ih =>
    cases hend : l.ends c.look.tag with
    | true =>
      rw [exists_turns_of_not_turn (not_turn_of_ends hend), hend, Faults, parser_of_ends hend]
      simp
    | false =>
      rw [Faults, parser_of_not_ends hend hc]
      cases hturn : l.turn (fuelFor c.ahead.length) c.look.tag [] c with
      | ok added e =>
        -- The turn succeeds, so the fault is one of the turns behind it.
        have hstep : l.Turn c e := ⟨added, hend, hturn⟩
        have hnot : ¬ Faults (l.turn (fuelFor c.ahead.length) c.look.tag []) c f := by
          simp [Faults, hturn]
        refine (faults_bind_of_ok hturn).trans ?_
        rw [ih (hstep.covers hc), hstep.exists_turns]
        simp [hnot]
      | error halt e =>
        -- The turn ends the loop, so no other place is come to.
        have hnone : ∀ d, ¬ l.Turn c d := by
          rintro d ⟨nodes, -, hok⟩
          rw [hturn] at hok
          cases hok
        refine faults_bind.trans ?_
        rw [exists_turns_of_not_turn hnone]
        simp [hend, hturn]

end StatementLoop

end Parser

end SeqPar
