import Mathlib.Data.List.Induction
import SeqPar.Proofs.FailedAssignment

/-!
# Lookups over the history of a chain of scopes

A chain of scopes starts as one empty table.  Scopes are opened and closed, and names are inserted
into the innermost scope, which rejects a name that it has.  What a lookup finds can be said by the
history of these operations alone.  Every insertion is made in the scope that is innermost at that
time, and this scope is still open at the end if the chain never became shorter in between.  A lookup
finds the entry of an insertion whose scope is still open, of those the innermost one, and of the
insertions into one scope the first.  Closing the outermost scope is no operation: that scope is
always open.

## Main definitions

* `ScopeOp`, `Scopes.after` — the operations, and the chain that they lead to.
* `InsertedAfter` — an insertion of a history into a scope that is still open.
* `Decides` — the insertion that decides what a lookup finds.
* `isBalanced` — a sequence of operations that closes the scopes it opens and inserts into them only.

## Main results

* `insertedAfter_snoc` — what one more operation does to the insertions into open scopes.
* `valueAt_after_eq_some_iff`, `valueAt_after_ne_none` — the entries of each open scope, by induction
  on the history.
* `after_append_of_isBalanced` — a balanced sequence leaves the chain as it was.
* `find?_after_iff` — **a lookup finds the first insertion into the innermost open scope that has
  one.**
-/

namespace SeqPar

/-- An operation on a chain of scopes. -/
inductive ScopeOp (α : Type) where
  /-- Opens a scope inside the others. -/
  | push
  /-- Closes the innermost scope, unless it is the only one. -/
  | pop
  /-- Inserts an entry into the innermost scope, unless the name is taken there. -/
  | insert (name : String) (entry : α)
  deriving DecidableEq, Repr

variable {α : Type}

/-- The chain after one operation. -/
def Scopes.step (s : Scopes α) : ScopeOp α → Scopes α
  | .push => s.enter
  | .pop => s.leave
  | .insert name a => (s.insertNew name a).2

/-- The chain after a history of operations, which starts with one empty table. -/
def Scopes.after (ops : List (ScopeOp α)) : Scopes α :=
  ops.foldl Scopes.step .empty

/-- The number of scopes around the innermost one after an operation. -/
def depthStep (depth : Nat) : ScopeOp α → Nat
  | .push => depth + 1
  | .pop => depth - 1
  | .insert _ _ => depth

/-- The number of scopes around the innermost one after operations that start at a depth. -/
def depthFrom (depth : Nat) (ops : List (ScopeOp α)) : Nat :=
  ops.foldl depthStep depth

/-- The number of scopes around the innermost one after a history. -/
def depthAfter (ops : List (ScopeOp α)) : Nat :=
  depthFrom 0 ops

/-- The scope that is innermost at a depth stays open during operations that start there. -/
def StaysOpen (depth : Nat) (ops : List (ScopeOp α)) : Prop :=
  ∀ front, front <+: ops → depth ≤ depthFrom depth front

/-- Right after the operations `before` of a history, an entry is inserted under a name, or rejected,
in a scope that is still open at the end of the history. -/
def InsertedAfter (ops before : List (ScopeOp α)) (name : String) (a : α) : Prop :=
  ∃ later, ops = before ++ .insert name a :: later ∧ StaysOpen (depthAfter before) later

/-- The insertion of an entry right after `before` decides what a lookup of its name finds. -/
structure Decides (ops before : List (ScopeOp α)) (name : String) (a : α) : Prop where
  /-- The scope is still open. -/
  inserted : InsertedAfter ops before name a
  /-- The entry is not rejected. -/
  succeeds : ((Scopes.after before).insertNew name a).1 = true
  /-- No open scope further in has an insertion of the name. -/
  innermost : ∀ other b, InsertedAfter ops other name b → depthAfter other ≤ depthAfter before
  /-- There is no earlier one into the same scope. -/
  first : ∀ other b, InsertedAfter ops other name b → depthAfter other = depthAfter before →
    before.length ≤ other.length

/-- The operations close every scope that they open and no other, and insert into those scopes only;
`opened` scopes are open at the start. -/
def isBalanced : (opened : Nat) → List (ScopeOp α) → Bool
  | opened, [] => opened == 0
  | opened, .push :: ops => isBalanced (opened + 1) ops
  | 0, .pop :: _ => false
  | opened + 1, .pop :: ops => isBalanced opened ops
  | 0, .insert _ _ :: _ => false
  | opened + 1, .insert _ _ :: ops => isBalanced (opened + 1) ops

/-! ### Histories -/

section Histories

variable {ops before other : List (ScopeOp α)} {o : ScopeOp α} {name : String} {a b : α}

@[simp] theorem after_snoc (ops : List (ScopeOp α)) (o : ScopeOp α) :
    Scopes.after (ops ++ [o]) = (Scopes.after ops).step o :=
  List.foldl_concat ..

theorem depthFrom_append (depth : Nat) (ops later : List (ScopeOp α)) :
    depthFrom depth (ops ++ later) = depthFrom (depthFrom depth ops) later :=
  List.foldl_append

@[simp] theorem depthAfter_snoc (ops : List (ScopeOp α)) (o : ScopeOp α) :
    depthAfter (ops ++ [o]) = depthStep (depthAfter ops) o :=
  List.foldl_concat ..

theorem depthAfter_append_insert (before later : List (ScopeOp α)) (name : String) (a : α) :
    depthAfter (before ++ .insert name a :: later) = depthFrom (depthAfter before) later :=
  depthFrom_append 0 before _

theorem staysOpen_nil (depth : Nat) : StaysOpen depth ([] : List (ScopeOp α)) := by
  intro front hfront
  rw [List.prefix_nil.mp hfront]
  exact Nat.le_refl depth

theorem staysOpen_snoc {depth : Nat} : StaysOpen depth (ops ++ [o]) ↔
    StaysOpen depth ops ∧ depth ≤ depthFrom depth (ops ++ [o]) := by
  constructor
  · intro h
    exact ⟨fun front hfront => h front (hfront.trans (List.prefix_append ops [o])),
      h _ (List.prefix_refl _)⟩
  · rintro ⟨hops, hlast⟩ front hfront
    rcases List.prefix_concat_iff.mp hfront with rfl | hfront
    · exact hlast
    · exact hops front hfront

theorem not_insertedAfter_nil : ¬ InsertedAfter [] before name a := by
  rintro ⟨later, hops, -⟩
  simp at hops

/-- **What one more operation does to the insertions into open scopes**: those whose scope it does
not close stay, and it may be one itself. -/
theorem insertedAfter_snoc : InsertedAfter (ops ++ [o]) before name a ↔
    InsertedAfter ops before name a ∧ depthAfter before ≤ depthAfter (ops ++ [o]) ∨
      before = ops ∧ o = .insert name a := by
  constructor
  · rintro ⟨later, hops, hopen⟩
    rcases later.eq_nil_or_concat' with rfl | ⟨later, last, rfl⟩
    · obtain ⟨rfl, hlast⟩ := List.append_inj' hops rfl
      exact .inr ⟨rfl, (List.cons.inj hlast).1⟩
    · rw [← List.cons_append, ← List.append_assoc] at hops
      obtain ⟨rfl, hlast⟩ := List.append_inj' hops rfl
      obtain rfl := (List.cons.inj hlast).1
      obtain ⟨hlater, hdepth⟩ := staysOpen_snoc.mp hopen
      refine .inl ⟨⟨later, rfl, hlater⟩, ?_⟩
      rwa [List.append_assoc, List.cons_append, depthAfter_append_insert]
  · rintro (⟨⟨later, rfl, hopen⟩, hdepth⟩ | ⟨rfl, rfl⟩)
    · refine ⟨later ++ [o], by simp, staysOpen_snoc.mpr ⟨hopen, ?_⟩⟩
      rwa [List.append_assoc, List.cons_append, depthAfter_append_insert] at hdepth
    · exact ⟨[], rfl, staysOpen_nil _⟩

/-- Of two insertions into open scopes the earlier one was so too when the later one was made. -/
theorem InsertedAfter.of_length_lt (h : InsertedAfter ops before name a)
    (h' : InsertedAfter ops other name b) (hlt : other.length < before.length) :
    InsertedAfter before other name b := by
  obtain ⟨later, rfl, -⟩ := h
  obtain ⟨later', hops, hopen⟩ := h'
  rcases List.append_eq_append_iff.mp hops with ⟨mid, rfl, -⟩ | ⟨mid, rfl, hlater⟩
  · rw [List.length_append] at hlt
    omega
  · cases mid with
    | nil => simp at hlt
    | cons o mid =>
      obtain ⟨rfl, rfl⟩ := List.cons.inj hlater
      refine ⟨mid, rfl, fun front hfront => hopen front (hfront.trans (List.prefix_append ..))⟩

/-! ### Depths -/

/-- The number of scopes around the innermost one is that of the chain. -/
theorem length_outer_after (ops : List (ScopeOp α)) :
    (Scopes.after ops).outer.length = depthAfter ops := by
  induction ops using List.reverseRecOn with
  | nil => rfl
  | append_singleton ops o ih =>
    rw [after_snoc, depthAfter_snoc, ← ih]
    cases o with
    | push => rfl
    | pop =>
      show (Scopes.after ops).leave.outer.length = _ - 1
      rw [Scopes.leave]
      split
      · next houter => rw [houter, List.length_nil]
      · next t rest houter => rw [houter, List.length_cons, Nat.add_sub_cancel]
    | insert name a =>
      show ((Scopes.after ops).insertNew name a).2.outer.length = _
      rw [Scopes.insertNew]
      split
      · rfl
      · rfl

/-! ### The entries of the open scopes -/

/-- A scope with an entry is one of the chain. -/
theorem Scopes.le_of_valueAt_eq_some {s : Scopes α} {depth : Nat}
    (h : s.valueAt depth name = some a) : depth ≤ s.outer.length := by
  by_contra hgt
  rw [valueAt_of_gt (Nat.lt_of_not_le hgt)] at h
  cases h

theorem Scopes.valueAt_enter_eq (s : Scopes α) (depth : Nat) (name : String) :
    s.enter.valueAt depth name = s.valueAt depth name := by
  rcases Nat.lt_trichotomy depth (s.outer.length + 1) with hlt | rfl | hgt
  · exact valueAt_enter (Nat.le_of_lt_succ hlt) name
  · rw [valueAt_of_gt (s := s) (Nat.lt_succ_self _)]
    exact s.enter.valueAt_length name
  · rw [valueAt_of_gt (s := s) (by omega), valueAt_of_gt (s := s.enter) hgt]

theorem Scopes.valueAt_leave_eq_some_iff (s : Scopes α) (depth : Nat) :
    s.leave.valueAt depth name = some a ↔
      s.valueAt depth name = some a ∧ depth ≤ s.leave.outer.length := by
  constructor
  · intro h
    refine ⟨?_, le_of_valueAt_eq_some h⟩
    cases hvalue : s.valueAt depth name with
    | none =>
      rw [valueAt_leave_of_none hvalue] at h
      cases h
    | some b =>
      obtain ⟨top, outer⟩ := s
      cases outer with
      | nil => exact hvalue.symm.trans h
      | cons t rest =>
        have hle : depth ≤ rest.length := le_of_valueAt_eq_some h
        rw [← hvalue, ← h, valueAt_leave (Nat.lt_succ_of_le hle)]
  · rintro ⟨h, hle⟩
    obtain ⟨top, outer⟩ := s
    cases outer with
    | nil => exact h
    | cons t rest => rw [valueAt_leave (Nat.lt_succ_of_le hle), h]

theorem Scopes.valueAt_length_eq_none_iff (s : Scopes α) (name : String) :
    s.valueAt s.outer.length name = none ↔ s.top.contains name = false := by
  rw [valueAt_length, Table.contains, Option.isSome_eq_false_iff, Option.isNone_iff_eq_none]

theorem Scopes.insertNew_succeeds_iff (s : Scopes α) (name : String) (a : α) :
    (s.insertNew name a).1 = true ↔ s.valueAt s.outer.length name = none := by
  rw [valueAt_length_eq_none_iff, insertNew]
  split
  · next htaken => simp [htaken]
  · next hfree => simp [hfree]

/-- An insertion that is rejected changes nothing. -/
theorem Scopes.insertNew_of_rejected {s : Scopes α} (h : (s.insertNew name a).1 = false) :
    (s.insertNew name a).2 = s := by
  rw [insertNew] at h ⊢
  split at h
  · next htaken => rw [if_pos htaken]
  · cases h

/-- **What one operation does to the entries of the open scopes**: those of the scopes that it leaves
stay, and it may add one to the innermost scope. -/
theorem Scopes.valueAt_step (s : Scopes α) (o : ScopeOp α) (depth : Nat) :
    (s.step o).valueAt depth name = some a ↔
      s.valueAt depth name = some a ∧ depth ≤ (s.step o).outer.length ∨
        o = .insert name a ∧ depth = s.outer.length ∧ s.valueAt depth name = none := by
  cases o with
  | push =>
    have houter : (s.step .push).outer.length = s.outer.length + 1 := rfl
    rw [step, valueAt_enter_eq] at *
    constructor
    · intro h
      exact .inl ⟨h, Nat.le_succ_of_le (le_of_valueAt_eq_some h)⟩
    · rintro (⟨h, -⟩ | ⟨h, -⟩)
      · exact h
      · cases h
  | pop =>
    rw [step, valueAt_leave_eq_some_iff]
    simp
  | insert x b =>
    rw [step, insertNew]
    split
    · -- the name is taken, and nothing changes
      next htaken =>
      refine ⟨fun h => .inl ⟨h, le_of_valueAt_eq_some h⟩, ?_⟩
      rintro (⟨h, -⟩ | ⟨h, rfl, hnone⟩)
      · exact h
      · cases h
        rw [valueAt_length_eq_none_iff, htaken] at hnone
        cases hnone
    · next hfree =>
      have hnone := (s.valueAt_length_eq_none_iff x).mpr (Bool.not_eq_true _ ▸ hfree)
      have hput : (s.put x b).valueAt s.outer.length x = some b :=
        ((s.put x b).valueAt_length x).trans (Table.get?_put_self _ _ _)
      show (s.put x b).valueAt depth name = some a ↔
        s.valueAt depth name = some a ∧ depth ≤ s.outer.length ∨ _
      by_cases hx : name = x
      · subst hx
        rcases Nat.lt_trichotomy depth s.outer.length with hlt | rfl | hgt
        · rw [valueAt_put_of_lt hlt]
          simp [Nat.le_of_lt hlt, Nat.ne_of_lt hlt]
        · rw [hput, hnone]
          simp
        · rw [valueAt_of_gt hgt, valueAt_of_gt (s := s.put name b) hgt]
          simp [Nat.ne_of_gt hgt]
      · rw [valueAt_put_of_ne hx]
        have hne : ScopeOp.insert x b ≠ .insert name a := fun h => hx (ScopeOp.insert.inj h).1.symm
        simp only [hne, false_and, or_false]
        exact ⟨fun h => ⟨h, le_of_valueAt_eq_some h⟩, And.left⟩

/-- **The entries of the open scopes**, by induction on the history: each was inserted when its scope
had none under the name. -/
theorem valueAt_after_eq_some_iff (ops : List (ScopeOp α)) (depth : Nat) (name : String) (a : α) :
    (Scopes.after ops).valueAt depth name = some a ↔
      ∃ before, InsertedAfter ops before name a ∧ depthAfter before = depth ∧
        (Scopes.after before).valueAt depth name = none := by
  induction ops using List.reverseRecOn with
  | nil =>
    have hnone : (Scopes.after []).valueAt depth name = (none : Option α) := by
      cases depth <;> rfl
    rw [hnone]
    refine iff_of_false nofun ?_
    rintro ⟨before, hinserted, -⟩
    exact not_insertedAfter_nil hinserted
  | append_singleton ops o ih =>
    have hdepth : ((Scopes.after ops).step o).outer.length = depthAfter (ops ++ [o]) := by
      rw [← after_snoc, length_outer_after]
    rw [after_snoc, Scopes.valueAt_step, ih, hdepth, length_outer_after]
    simp only [insertedAfter_snoc]
    constructor
    · rintro (⟨⟨before, hinserted, rfl, hnone⟩, hle⟩ | ⟨ho, rfl, hnone⟩)
      · exact ⟨before, .inl ⟨hinserted, hle⟩, rfl, hnone⟩
      · exact ⟨ops, .inr ⟨rfl, ho⟩, rfl, hnone⟩
    · rintro ⟨before, ⟨hinserted, hle⟩ | ⟨rfl, ho⟩, rfl, hnone⟩
      · exact .inl ⟨⟨before, hinserted, rfl, hnone⟩, hle⟩
      · exact .inr ⟨ho, rfl, hnone⟩

/-- A scope that is still open has an entry under every name that was inserted into it. -/
theorem valueAt_after_ne_none (h : InsertedAfter ops before name a) :
    (Scopes.after ops).valueAt (depthAfter before) name ≠ none := by
  induction ops using List.reverseRecOn with
  | nil => exact absurd h not_insertedAfter_nil
  | append_singleton ops o ih =>
    have hdepth : ((Scopes.after ops).step o).outer.length = depthAfter (ops ++ [o]) := by
      rw [← after_snoc, length_outer_after]
    have hkept {d : Nat} (hvalue : (Scopes.after ops).valueAt d name ≠ none)
        (hle : d ≤ depthAfter (ops ++ [o])) :
        (Scopes.after (ops ++ [o])).valueAt d name ≠ none := by
      obtain ⟨b, hb⟩ := Option.ne_none_iff_exists'.mp hvalue
      rw [after_snoc, ((Scopes.after ops).valueAt_step o d).mpr (.inl ⟨hb, hdepth ▸ hle⟩)]
      exact Option.some_ne_none b
    rcases insertedAfter_snoc.mp h with ⟨hinserted, hle⟩ | ⟨rfl, rfl⟩
    · exact hkept (ih hinserted) hle
    · by_cases hnone : (Scopes.after before).valueAt (depthAfter before) name = none
      · have hadded := ((Scopes.after before).valueAt_step (.insert name a) _).mpr
          (.inr ⟨rfl, (length_outer_after before).symm, hnone⟩)
        rw [after_snoc, hadded]
        exact Option.some_ne_none a
      · refine hkept hnone ?_
        rw [depthAfter_snoc]
        exact Nat.le_refl _

/-- An insertion succeeds exactly when the innermost scope has no earlier one of the name. -/
theorem insertNew_after_succeeds_iff (ops : List (ScopeOp α)) (name : String) (a : α) :
    ((Scopes.after ops).insertNew name a).1 = true ↔
      ∀ before b, InsertedAfter ops before name b → depthAfter before ≠ depthAfter ops := by
  rw [Scopes.insertNew_succeeds_iff, length_outer_after]
  constructor
  · intro hnone before b hinserted hdepth
    rw [← hdepth] at hnone
    exact valueAt_after_ne_none hinserted hnone
  · intro hfree
    cases hvalue : (Scopes.after ops).valueAt (depthAfter ops) name with
    | none => rfl
    | some b =>
      obtain ⟨before, hinserted, hdepth, -⟩ := (valueAt_after_eq_some_iff ops _ name b).mp hvalue
      exact absurd hdepth (hfree before b hinserted)

/-! ### Lookups -/

/-- The first item of a list for which there is a result is the last one of the reversed list. -/
theorem findSome?_eq_some_iff_reverse {β : Type} (f : β → Option α) (xs : List β) :
    xs.findSome? f = some a ↔ ∃ i : Nat, xs.reverse[i]?.bind f = some a ∧
      ∀ j : Nat, i < j → xs.reverse[j]?.bind f = none := by
  induction xs with
  | nil => simp
  | cons x xs ih =>
    have hlast : (xs.reverse ++ [x])[xs.length]?.bind f = f x := by
      rw [List.getElem?_append_right (by simp)]
      simp
    have hbeyond {i : Nat} (hi : xs.length < i) : (xs.reverse ++ [x])[i]?.bind f = none := by
      rw [List.getElem?_eq_none (by simpa using Nat.succ_le_of_lt hi)]
      rfl
    rw [List.reverse_cons, List.findSome?_cons]
    cases hx : f x with
    | some b =>
      rw [hx] at hlast
      constructor
      · rintro ⟨⟩
        exact ⟨xs.length, hlast, fun j => hbeyond⟩
      · rintro ⟨i, hi, hlater⟩
        -- The item has the last index: it rules out the earlier ones, and nothing is beyond it.
        rcases Nat.lt_trichotomy i xs.length with hlt | rfl | hgt
        · rw [hlater _ hlt] at hlast
          cases hlast
        · exact hlast.symm.trans hi
        · rw [hbeyond hgt] at hi
          cases hi
    | none =>
      -- The item has no result, so it makes no difference at its index either.
      have hsame (i : Nat) : (xs.reverse ++ [x])[i]?.bind f = xs.reverse[i]?.bind f := by
        rcases Nat.lt_trichotomy i xs.length with hlt | rfl | hgt
        · rw [List.getElem?_append_left (by simpa using hlt)]
        · rw [hlast, hx, List.getElem?_eq_none (by simp)]
          rfl
        · rw [hbeyond hgt, List.getElem?_eq_none (by simpa using Nat.le_of_lt hgt)]
          rfl
      simp only [hsame]
      exact ih

/-- A lookup finds the entry of the innermost scope that has one. -/
theorem Scopes.find?_eq_some_iff (s : Scopes α) : s.find? name = some a ↔
    ∃ depth, s.valueAt depth name = some a ∧
      ∀ further, depth < further → s.valueAt further name = none :=
  findSome?_eq_some_iff_reverse _ _

theorem exists_decides_of_find? (h : (Scopes.after ops).find? name = some a) :
    ∃ before, Decides ops before name a := by
  obtain ⟨depth, hvalue, hfurther⟩ := (Scopes.find?_eq_some_iff _).mp h
  obtain ⟨before, hinserted, rfl, hnone⟩ := (valueAt_after_eq_some_iff ops depth name a).mp hvalue
  refine ⟨before, hinserted, ?_, fun other b hother => ?_, fun other b hother hdepth => ?_⟩
  · rwa [Scopes.insertNew_succeeds_iff, length_outer_after]
  · by_contra hlt
    exact valueAt_after_ne_none hother (hfurther _ (Nat.lt_of_not_le hlt))
  · -- an earlier one into the same scope would have taken the name
    by_contra hlt
    have hearlier := hinserted.of_length_lt hother (Nat.lt_of_not_le hlt)
    rw [← hdepth] at hnone
    exact valueAt_after_ne_none hearlier hnone

theorem Decides.find? (h : Decides ops before name a) :
    (Scopes.after ops).find? name = some a := by
  have hnone := h.succeeds
  rw [Scopes.insertNew_succeeds_iff, length_outer_after] at hnone
  refine (Scopes.find?_eq_some_iff _).mpr ⟨depthAfter before, ?_, fun further hlt => ?_⟩
  · exact (valueAt_after_eq_some_iff ops _ name a).mpr ⟨before, h.inserted, rfl, hnone⟩
  · cases hvalue : (Scopes.after ops).valueAt further name with
    | none => rfl
    | some b =>
      obtain ⟨other, hother, rfl, -⟩ := (valueAt_after_eq_some_iff ops _ name b).mp hvalue
      exact absurd (h.innermost other b hother) (Nat.not_le_of_lt hlt)

theorem find?_after_eq_none_iff (ops : List (ScopeOp α)) (name : String) :
    (Scopes.after ops).find? name = none ↔ ∀ before a, ¬ InsertedAfter ops before name a := by
  constructor
  · intro hnone before a hinserted
    apply valueAt_after_ne_none hinserted
    rw [Scopes.find?, List.findSome?_eq_none_iff] at hnone
    rw [Scopes.valueAt, Option.bind_eq_none_iff]
    intro t ht
    exact hnone t (List.mem_reverse.mp (List.mem_of_getElem? ht))
  · intro hfree
    cases hfound : (Scopes.after ops).find? name with
    | none => rfl
    | some a =>
      obtain ⟨before, hdecides⟩ := exists_decides_of_find? hfound
      exact absurd hdecides.inserted (hfree before a)

/-! ### Balanced sequences -/

theorem Scopes.tables_inj {s s' : Scopes α} (h : s.tables = s'.tables) : s = s' := by
  obtain ⟨top, outer⟩ := s
  obtain ⟨top', outer'⟩ := s'
  obtain ⟨rfl, rfl⟩ := List.cons.inj h
  rfl

theorem Scopes.tables_leave {s : Scopes α} {t : Table α} {ts : List (Table α)}
    (h : s.tables = t :: ts) (hne : ts ≠ []) : s.leave.tables = ts := by
  obtain ⟨top, outer⟩ := s
  obtain ⟨rfl, rfl⟩ := List.cons.inj h
  cases outer with
  | nil => exact absurd rfl hne
  | cons u us => rfl

theorem Scopes.tables_insertNew (s : Scopes α) (name : String) (a : α) :
    ∃ t, (s.insertNew name a).2.tables = t :: s.outer := by
  rw [insertNew]
  split
  · exact ⟨s.top, rfl⟩
  · exact ⟨s.top.put name a, rfl⟩

/-- The scopes that a balanced sequence has opened so far lie in front of the chain at its start, and
in the end there are none. -/
theorem foldl_step_of_isBalanced (front : List (Table α)) {block : List (ScopeOp α)}
    {s base : Scopes α} (h : isBalanced front.length block = true)
    (hs : s.tables = front ++ base.tables) : block.foldl Scopes.step s = base := by
  have hbase : ∀ {ts : List (Table α)}, ts ++ base.tables ≠ [] := by
    intro ts hnil
    cases (List.append_eq_nil_iff.mp hnil).2
  induction block generalizing front s with
  | nil =>
    obtain rfl : front = [] := by simpa [isBalanced] using h
    exact Scopes.tables_inj hs
  | cons o block ih =>
    rw [List.foldl_cons]
    cases o with
    | push =>
      refine ih (.empty :: front) h ?_
      exact congrArg (List.cons Table.empty) hs
    | pop =>
      cases front with
      | nil => cases h
      | cons t front => exact ih front h (Scopes.tables_leave hs hbase)
    | insert name a =>
      cases front with
      | nil => cases h
      | cons t front =>
        obtain ⟨u, hu⟩ := s.tables_insertNew name a
        obtain ⟨-, houter⟩ := List.cons.inj hs
        refine ih (u :: front) h ?_
        rw [Scopes.step, hu, houter]
        rfl

/-- **A balanced sequence leaves the chain as it was.** -/
theorem after_append_of_isBalanced {block : List (ScopeOp α)} (h : isBalanced 0 block = true)
    (ops : List (ScopeOp α)) : Scopes.after (ops ++ block) = Scopes.after ops := by
  rw [Scopes.after, List.foldl_append]
  exact foldl_step_of_isBalanced [] h rfl

end Histories

/-! ### Lookups over whole histories -/

/-- **A lookup finds the first insertion into the innermost open scope that has one.**  After every
history of operations a lookup gives the entry of the insertion that decides it, and nothing if the
name was inserted into no scope that is still open.  An insertion succeeds if and only if the name
was not inserted into the innermost scope before, and changes nothing if it does not.  A balanced
sequence of operations makes no difference to any lookup. -/
theorem find?_after_iff (ops : List (ScopeOp α)) (name : String) :
    (∀ a, (Scopes.after ops).find? name = some a ↔ ∃ before, Decides ops before name a) ∧
    ((Scopes.after ops).find? name = none ↔ ∀ before a, ¬ InsertedAfter ops before name a) ∧
    (∀ a, ((Scopes.after ops).insertNew name a).1 = true ↔
      ∀ before b, InsertedAfter ops before name b → depthAfter before ≠ depthAfter ops) ∧
    (∀ a, ((Scopes.after ops).insertNew name a).1 = false →
      ((Scopes.after ops).insertNew name a).2 = Scopes.after ops) ∧
    ∀ block, isBalanced 0 block = true →
      (Scopes.after (ops ++ block)).find? name = (Scopes.after ops).find? name := by
  refine ⟨fun a => ⟨exists_decides_of_find?, ?_⟩, find?_after_eq_none_iff ops name,
    insertNew_after_succeeds_iff ops name, fun a => Scopes.insertNew_of_rejected, ?_⟩
  · rintro ⟨before, hdecides⟩
    exact hdecides.find?
  · intro block hblock
    rw [after_append_of_isBalanced hblock]

/-- A name that is inserted twice into the outermost scope and once into the scope inside it. -/
def shadowingOps : List (ScopeOp String) :=
  [.insert "x" "INT", .insert "x" "BOOL", .push, .insert "x" "STRING"]

/-- Two scopes that are opened and closed again, with insertions into them. -/
def innerOps : List (ScopeOp String) :=
  [.push, .insert "x" "BOOL", .push, .insert "y" "INT", .pop, .pop]

theorem find?_after_shadowingOps :
    (∃ before, Decides shadowingOps before "x" "STRING") ∧
    (((Scopes.after shadowingOps).insertNew "x" "INT").1 = false ∧
      ((Scopes.after shadowingOps).insertNew "x" "INT").2 = Scopes.after shadowingOps) ∧
    (isBalanced 0 innerOps = true ∧ (Scopes.after (shadowingOps ++ innerOps)).find? "x" =
      (Scopes.after shadowingOps).find? "x") := by
  have hfind := find?_after_iff shadowingOps "x"
  have hrejected : ((Scopes.after shadowingOps).insertNew "x" "INT").1 = false := by decide
  have hbalanced : isBalanced 0 innerOps = true := by decide
  exact ⟨(hfind.1 "STRING").mp (by decide), ⟨hrejected, hfind.2.2.2.1 "INT" hrejected⟩,
    hbalanced, hfind.2.2.2.2 innerOps hbalanced⟩

end SeqPar
