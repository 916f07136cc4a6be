import SeqPar.Proofs.ExactOrder

/-!
# Comparisons from both sides

A comparison converts both operands before it looks at them, and then treats its left operand and
its right operand in different ways: the left one decides how the values are compared, and only the
left dictionary is searched through.  All the same the two sides can be exchanged.  `u < v` gives
what `v > u` gives, `u <= v` what `v >= u` gives, and `u == v` and `u != v` do not depend on the
order of the two operands; each of these ends with a fault if its mirror image does.

For equality this rests on dictionaries having no key twice.  A dictionary is the same as another of
the same length if every entry of it is among the entries of the other.  Distinct keys are then
matched with distinct keys, so that no entry of the other is left over.

## Main definitions

* `Value.IsData` — the values that programs compute with.
* `Comparison.mirror`, `Written.Comparison.mirror` — the comparison for exchanged operands.
* `Operands`, `Judges` — the values of the operands of a node, and how the run of a comparison ends.

## Main results

* `IsData.same_trans`, `IsData.same_symm` — equality of data is transitive and symmetric.
* `IsData.ofEntries` — dictionaries have no key twice.
* `IsData.compare_mirror` — the order of data, from both sides.
* `relational_mirror` — comparisons of values, from both sides.
* `comparisons_mirrored` — **the two sides of every comparison can be exchanged.**
-/

namespace SeqPar

open Exec SeqPar.Number Written

namespace Value

/-! ### Data -/

/-- Values that hold neither tokens nor syntax trees.  The keys of a dictionary differ from each
other. -/
inductive IsData : Value → Prop
  /-- The absence of a value. -/
  | nothing : IsData .nothing
  /-- A truth value. -/
  | bool (b : Bool) : IsData (.bool b)
  /-- A whole number. -/
  | int (n : Int) : IsData (.int n)
  /-- A double. -/
  | float (x : Float) : IsData (.float x)
  /-- Not a number. -/
  | notANumber (mark : Nat) : IsData (.notANumber mark)
  /-- A text. -/
  | text (s : String) : IsData (.text s)
  /-- A list. -/
  | list {items : List Value} (hitems : ∀ v ∈ items, IsData v) : IsData (.list items)
  /-- A tuple. -/
  | tuple {items : List Value} (hitems : ∀ v ∈ items, IsData v) : IsData (.tuple items)
  /-- A dictionary. -/
  | dict {entries : List (Value × Value)} (hkeys : ∀ e ∈ entries, IsData e.1)
    (hvalues : ∀ e ∈ entries, IsData e.2)
    (hdistinct : entries.Pairwise fun e e' => e'.1.samePart e.1 = false) : IsData (.dict entries)

theorem isData_toValue (a : Numeric) : IsData a.toValue := by
  cases a with
  | int n => exact .int n
  | float x => exact .float x

/-! ### Equality, by the kind of the left side -/

theorem compare_nan_ne_eq (b : Numeric) : (Numeric.float nan).compare b ≠ some .eq := by
  have hplace : (Numeric.float nan).place? = none := rfl
  rw [Numeric.compare_eq_place, hplace]
  intro h
  cases h

/-- What is the same as a number is an equal number. -/
theorem same_numeric_iff {v : Value} {a : Numeric} (hv : v.numeric? = some a) (w : Value) :
    v.same w = true ↔ ∃ b, w.numeric? = some b ∧ a.compare b = some .eq := by
  have hnumber : (v.sameNumber? w).getD false = true ↔
      ∃ b, w.numeric? = some b ∧ a.compare b = some .eq := by
    rw [sameNumber?, hv]
    cases w.numeric? with
    | none => simp
    | some b => simp
  cases v with
  | bool b => rw [← hnumber, same]
  | int n => rw [← hnumber, same]
  | float x => rw [← hnumber, same]
  | notANumber mark =>
    -- It is no number, so no number is equal to it.
    cases hv
    simp [same, compare_nan_ne_eq]
  | nothing => cases hv
  | text s => cases hv
  | list vs => cases hv
  | tuple vs => cases hv
  | dict entries => cases hv
  | token t => cases hv
  | node n => cases hv

theorem same_nothing_iff (w : Value) : Value.nothing.same w = true ↔ w = .nothing := by
  cases w <;> simp [same]

theorem same_text_iff (s : String) (w : Value) : (Value.text s).same w = true ↔ w = .text s := by
  cases w with
  | text t => rw [same, beq_iff_eq, Value.text.injEq, eq_comm]
  | _ => simp [same]

theorem same_list_iff (vs : List Value) (w : Value) :
    (Value.list vs).same w = true ↔ ∃ ws, w = .list ws ∧ sameAll vs ws = true := by
  cases w <;> simp [same]

theorem same_tuple_iff (vs : List Value) (w : Value) :
    (Value.tuple vs).same w = true ↔ ∃ ws, w = .tuple ws ∧ sameAll vs ws = true := by
  cases w <;> simp [same]

/-- Two entries with equal keys and equal values. -/
def SameEntry (e f : Value × Value) : Prop :=
  e.1.samePart f.1 = true ∧ e.2.samePart f.2 = true

theorem sameEntries_cons (e : Value × Value) (rest others : List (Value × Value)) :
    sameEntries (e :: rest) others =
      ((others.any fun f => e.1.samePart f.1 && e.2.samePart f.2) && sameEntries rest others) := by
  obtain ⟨k, v⟩ := e
  rw [sameEntries]
  rfl

theorem sameEntries_iff (entries others : List (Value × Value)) :
    sameEntries entries others = true ↔ ∀ e ∈ entries, ∃ f ∈ others, SameEntry e f := by
  induction entries with
  | nil =>
    rw [sameEntries]
    simp
  | cons e rest ih =>
    rw [sameEntries_cons, Bool.and_eq_true, ih, List.any_eq_true, List.forall_mem_cons]
    simp only [Bool.and_eq_true, SameEntry]

theorem same_dict_iff (entries : List (Value × Value)) (w : Value) :
    (Value.dict entries).same w = true ↔ ∃ others, w = .dict others ∧
      entries.length = others.length ∧ ∀ e ∈ entries, ∃ f ∈ others, SameEntry e f := by
  cases w with
  | dict others =>
    rw [same, Bool.and_eq_true, beq_iff_eq, sameEntries_iff]
    constructor
    · intro h
      exact ⟨others, rfl, h⟩
    · rintro ⟨_, heq, h⟩
      cases heq
      exact h
  | _ => simp [same]

theorem sameAll_nil_iff (ws : List Value) : sameAll [] ws = true ↔ ws = [] := by
  rw [sameAll, List.isEmpty_iff]

theorem sameAll_cons_iff (v : Value) (vs ws : List Value) : sameAll (v :: vs) ws = true ↔
    ∃ w rest, ws = w :: rest ∧ v.samePart w = true ∧ sameAll vs rest = true := by
  cases ws with
  | nil => simp [sameAll]
  | cons w rest => simp [sameAll, samePart]

/-! ### Equal parts -/

theorem isMarkedAs_iff (v w : Value) :
    v.isMarkedAs w = true ↔ ∃ mark, v = .notANumber mark ∧ w = .notANumber mark := by
  constructor
  · intro h
    unfold isMarkedAs at h
    split at h
    · next mark mark' => exact ⟨mark, rfl, by rw [eq_of_beq h]⟩
    · cases h
  · rintro ⟨mark, rfl, rfl⟩
    exact beq_self_eq_true mark

theorem samePart_iff (v w : Value) : v.samePart w = true ↔
    (∃ mark, v = .notANumber mark ∧ w = .notANumber mark) ∨ v.same w = true := by
  rw [samePart, Bool.or_eq_true, isMarkedAs_iff]

theorem not_same_of_notANumber (mark : Nat) (w : Value) :
    ¬ (Value.notANumber mark).same w = true := by
  rw [same_numeric_iff rfl]
  rintro ⟨b, -, h⟩
  exact compare_nan_ne_eq b h

/-! ### Equality is transitive -/

/-- Equality of parts is transitive where equality of values is. -/
theorem samePart_trans_of {u v w : Value}
    (htrans : u.same v = true → v.same w = true → u.same w = true) (h : u.samePart v = true)
    (h' : v.samePart w = true) : u.samePart w = true := by
  rw [samePart_iff] at h h' ⊢
  rcases h with ⟨mark, rfl, rfl⟩ | h
  · rcases h' with ⟨mark', heq, rfl⟩ | h'
    · exact .inl ⟨mark', heq, rfl⟩
    · exact absurd h' (not_same_of_notANumber mark w)
  · rcases h' with ⟨mark, rfl, rfl⟩ | h'
    · exact .inr h
    · exact .inr (htrans h h')

theorem sameAll_trans {us vs ws : List Value}
    (htrans : ∀ u ∈ us, ∀ v w, u.same v = true → v.same w = true → u.same w = true)
    (h : sameAll us vs = true) (h' : sameAll vs ws = true) : sameAll us ws = true := by
  induction us generalizing vs ws with
  | nil =>
    obtain rfl := (sameAll_nil_iff vs).mp h
    exact h'
  | cons u us ih =>
    obtain ⟨v, vs, rfl, huv, hus⟩ := (sameAll_cons_iff u us vs).mp h
    obtain ⟨w, ws, rfl, hvw, hvs⟩ := (sameAll_cons_iff v vs ws).mp h'
    rw [List.forall_mem_cons] at htrans
    rw [sameAll_cons_iff]
    exact ⟨w, ws, rfl, samePart_trans_of (htrans.1 v w) huv hvw, ih htrans.2 hus hvs⟩

theorem same_trans_of_numeric {u v w : Value} {a : Numeric} (hu : u.numeric? = some a)
    (h : u.same v = true) (h' : v.same w = true) : u.same w = true := by
  obtain ⟨b, hv, hab⟩ := (same_numeric_iff hu v).mp h
  obtain ⟨c, hw, hbc⟩ := (same_numeric_iff hv w).mp h'
  exact (same_numeric_iff hu w).mpr ⟨c, hw, Numeric.compare_eq_trans hab hbc⟩

/-- **Equality of data is transitive.** -/
theorem IsData.same_trans {u : Value} (hu : u.IsData) (v w : Value) (h : u.same v = true)
    (h' : v.same w = true) : u.same w = true := by
  induction hu generalizing v w with
  | nothing =>
    obtain rfl := (same_nothing_iff v).mp h
    exact h'
  | bool b => exact same_trans_of_numeric rfl h h'
  | int n => exact same_trans_of_numeric rfl h h'
  | float x => exact same_trans_of_numeric rfl h h'
  | notANumber mark => exact same_trans_of_numeric rfl h h'
  | text s =>
    obtain rfl := (same_text_iff s v).mp h
    exact h'
  | list hitems ih =>
    obtain ⟨vs, rfl, huv⟩ := (same_list_iff _ v).mp h
    obtain ⟨ws, rfl, hvw⟩ := (same_list_iff vs w).mp h'
    exact (same_list_iff _ _).mpr ⟨ws, rfl, sameAll_trans ih huv hvw⟩
  | tuple hitems ih =>
    obtain ⟨vs, rfl, huv⟩ := (same_tuple_iff _ v).mp h
    obtain ⟨ws, rfl, hvw⟩ := (same_tuple_iff vs w).mp h'
    exact (same_tuple_iff _ _).mpr ⟨ws, rfl, sameAll_trans ih huv hvw⟩
  | dict hkeys hvalues hdistinct ihkeys ihvalues =>
    obtain ⟨others, rfl, hlength, huv⟩ := (same_dict_iff _ v).mp h
    obtain ⟨thirds, rfl, hlength', hvw⟩ := (same_dict_iff others w).mp h'
    refine (same_dict_iff _ _).mpr ⟨thirds, rfl, hlength.trans hlength', ?_⟩
    intro e he
    obtain ⟨f, hf, hkey, hvalue⟩ := huv e he
    obtain ⟨g, hg, hkey', hvalue'⟩ := hvw f hf
    exact ⟨g, hg, samePart_trans_of (ihkeys e he f.1 g.1) hkey hkey',
      samePart_trans_of (ihvalues e he f.2 g.2) hvalue hvalue'⟩

/-! ### Equality is symmetric -/

theorem samePart_symm_of {v w : Value} (hsymm : v.same w = true → w.same v = true)
    (h : v.samePart w = true) : w.samePart v = true := by
  rw [samePart_iff] at h ⊢
  rcases h with ⟨mark, hv, hw⟩ | h
  · exact .inl ⟨mark, hw, hv⟩
  · exact .inr (hsymm h)

theorem sameAll_symm {vs ws : List Value}
    (hsymm : ∀ v ∈ vs, ∀ w, v.same w = true → w.same v = true) (h : sameAll vs ws = true) :
    sameAll ws vs = true := by
  induction vs generalizing ws with
  | nil =>
    obtain rfl := (sameAll_nil_iff ws).mp h
    exact h
  | cons v vs ih =>
    obtain ⟨w, ws, rfl, hvw, hvs⟩ := (sameAll_cons_iff v vs ws).mp h
    rw [List.forall_mem_cons] at hsymm
    rw [sameAll_cons_iff]
    exact ⟨v, vs, rfl, samePart_symm_of (hsymm.1 w) hvw, ih hsymm.2 hvs⟩

theorem same_symm_of_numeric {v w : Value} {a : Numeric} (hv : v.numeric? = some a)
    (h : v.same w = true) : w.same v = true := by
  obtain ⟨b, hw, hab⟩ := (same_numeric_iff hv w).mp h
  refine (same_numeric_iff hw v).mpr ⟨a, hv, ?_⟩
  rw [Numeric.compare_swap, hab]
  rfl

/-- If no two elements of a list have a match in common, and there are as many elements as there are
matches for them, then every match is one of an element. -/
theorem exists_matched {α β : Type} {r : α → β → Prop} {xs : List α} {ys : List β}
    (hlength : xs.length = ys.length) (hmatch : ∀ x ∈ xs, ∃ y ∈ ys, r x y)
    (hdistinct : xs.Pairwise fun x x' => ∀ y, r x y → ¬ r x' y) : ∀ y ∈ ys, ∃ x ∈ xs, r x y := by
  induction xs generalizing ys with
  | nil =>
    intro y hy
    rw [List.eq_nil_of_length_eq_zero hlength.symm] at hy
    cases hy
  | cons x xs ih =>
    rw [List.forall_mem_cons] at hmatch
    rw [List.pairwise_cons] at hdistinct
    obtain ⟨y, hy, hxy⟩ := hmatch.1
    obtain ⟨before, after, rfl⟩ := List.append_of_mem hy
    -- The match of the first element is not one of the others, which are matched without it.
    have hrest : ∀ x' ∈ xs, ∃ y' ∈ before ++ after, r x' y' := by
      intro x' hx'
      obtain ⟨y', hy', hxy'⟩ := hmatch.2 x' hx'
      refine ⟨y', ?_, hxy'⟩
      rw [List.mem_append, List.mem_cons] at hy'
      rw [List.mem_append]
      rcases hy' with hbefore | rfl | hafter
      · exact .inl hbefore
      · exact absurd hxy' (hdistinct.1 x' hx' y' hxy)
      · exact .inr hafter
    have hlength' : xs.length = (before ++ after).length := by
      rw [List.length_cons, List.length_append, List.length_cons] at hlength
      rw [List.length_append]
      omega
    intro z hz
    rw [List.mem_append, List.mem_cons] at hz
    rcases hz with hbefore | rfl | hafter
    · obtain ⟨x', hx', h⟩ := ih hlength' hrest hdistinct.2 z (List.mem_append_left _ hbefore)
      exact ⟨x', List.mem_cons_of_mem _ hx', h⟩
    · exact ⟨x, List.mem_cons_self, hxy⟩
    · obtain ⟨x', hx', h⟩ := ih hlength' hrest hdistinct.2 z (List.mem_append_right _ hafter)
      exact ⟨x', List.mem_cons_of_mem _ hx', h⟩

/-- **Equality of data is symmetric.** -/
theorem IsData.same_symm {v : Value} (hv : v.IsData) (w : Value) (h : v.same w = true) :
    w.same v = true := by
  induction hv generalizing w with
  | nothing =>
    obtain rfl := (same_nothing_iff w).mp h
    exact h
  | bool b => exact same_symm_of_numeric rfl h
  | int n => exact same_symm_of_numeric rfl h
  | float x => exact same_symm_of_numeric rfl h
  | notANumber mark => exact same_symm_of_numeric rfl h
  | text s =>
    obtain rfl := (same_text_iff s w).mp h
    exact h
  | list hitems ih =>
    obtain ⟨ws, rfl, hvw⟩ := (same_list_iff _ w).mp h
    exact (same_list_iff _ _).mpr ⟨_, rfl, sameAll_symm ih hvw⟩
  | tuple hitems ih =>
    obtain ⟨ws, rfl, hvw⟩ := (same_tuple_iff _ w).mp h
    exact (same_tuple_iff _ _).mpr ⟨_, rfl, sameAll_symm ih hvw⟩
  | @dict entries hkeys hvalues hdistinct ihkeys ihvalues =>
    obtain ⟨others, rfl, hlength, hmatch⟩ := (same_dict_iff _ w).mp h
    -- Two entries with a match in common would have equal keys.
    have hapart : entries.Pairwise fun e e' => ∀ f, SameEntry e f → ¬ SameEntry e' f := by
      refine hdistinct.imp_of_mem ?_
      intro e e' he he' hkey f hef hef'
      have hback : f.1.samePart e.1 = true := samePart_symm_of (ihkeys e he f.1) hef.1
      have hsame : e'.1.samePart e.1 = true :=
        samePart_trans_of ((hkeys e' he').same_trans f.1 e.1) hef'.1 hback
      rw [hsame] at hkey
      cases hkey
    refine (same_dict_iff _ _).mpr ⟨entries, rfl, hlength.symm, ?_⟩
    intro f hf
    obtain ⟨e, he, hkey, hvalue⟩ := exists_matched hlength hmatch hapart f hf
    exact ⟨e, he, samePart_symm_of (ihkeys e he f.1) hkey,
      samePart_symm_of (ihvalues e he f.2) hvalue⟩

theorem IsData.same_comm {v w : Value} (hv : v.IsData) (hw : w.IsData) : v.same w = w.same v := by
  rw [Bool.eq_iff_iff]
  exact ⟨hv.same_symm w, hw.same_symm v⟩

theorem IsData.samePart_comm {v w : Value} (hv : v.IsData) (hw : w.IsData) :
    v.samePart w = w.samePart v := by
  rw [Bool.eq_iff_iff]
  exact ⟨samePart_symm_of (hv.same_symm w), samePart_symm_of (hw.same_symm v)⟩

/-! ### Dictionaries have no key twice -/

theorem mem_putEntry {key value : Value} {entries : List (Value × Value)} {e : Value × Value}
    (he : e ∈ putEntry key value entries) :
    (e.1 = key ∨ ∃ f ∈ entries, e.1 = f.1) ∧ (e.2 = value ∨ ∃ f ∈ entries, e.2 = f.2) := by
  induction entries with
  | nil =>
    rw [putEntry, List.mem_singleton] at he
    rw [he]
    exact ⟨.inl rfl, .inl rfl⟩
  | cons f rest ih =>
    rw [putEntry] at he
    split at he
    · rcases List.mem_cons.mp he with rfl | hrest
      · exact ⟨.inr ⟨f, List.mem_cons_self, rfl⟩, .inl rfl⟩
      · have hmem := List.mem_cons_of_mem f hrest
        exact ⟨.inr ⟨e, hmem, rfl⟩, .inr ⟨e, hmem, rfl⟩⟩
    · rcases List.mem_cons.mp he with rfl | hrest
      · exact ⟨.inr ⟨f, List.mem_cons_self, rfl⟩, .inr ⟨f, List.mem_cons_self, rfl⟩⟩
      · obtain ⟨hkey, hvalue⟩ := ih hrest
        refine ⟨hkey.imp id ?_, hvalue.imp id ?_⟩
        · rintro ⟨g, hg, heq⟩
          exact ⟨g, List.mem_cons_of_mem f hg, heq⟩
        · rintro ⟨g, hg, heq⟩
          exact ⟨g, List.mem_cons_of_mem f hg, heq⟩

/-- A key that is put in replaces no key and comes after those that it differs from. -/
theorem pairwise_putEntry (key value : Value) {entries : List (Value × Value)}
    (h : entries.Pairwise fun e e' => e'.1.samePart e.1 = false) :
    (putEntry key value entries).Pairwise fun e e' => e'.1.samePart e.1 = false := by
  induction entries with
  | nil => exact List.pairwise_singleton _ _
  | cons f rest ih =>
    rw [List.pairwise_cons] at h
    rw [putEntry]
    split
    · exact List.pairwise_cons.mpr h
    · next hkey =>
      refine List.pairwise_cons.mpr ⟨?_, ih h.2⟩
      intro e he
      rcases (mem_putEntry he).1 with heq | ⟨g, hg, heq⟩
      · rw [heq]
        exact Bool.eq_false_iff.mpr hkey
      · rw [heq]
        exact h.1 g hg

theorem IsData.putEntry {key value : Value} {entries : List (Value × Value)} (hkey : key.IsData)
    (hvalue : value.IsData) (h : (Value.dict entries).IsData) :
    (Value.dict (Value.putEntry key value entries)).IsData := by
  cases h with
  | dict hkeys hvalues hdistinct =>
    refine .dict ?_ ?_ (pairwise_putEntry key value hdistinct)
    · intro e he
      rcases (mem_putEntry he).1 with heq | ⟨f, hf, heq⟩
      · rw [heq]
        exact hkey
      · rw [heq]
        exact hkeys f hf
    · intro e he
      rcases (mem_putEntry he).2 with heq | ⟨f, hf, heq⟩
      · rw [heq]
        exact hvalue
      · rw [heq]
        exact hvalues f hf

/-- **A dictionary that is made of data is data**: no key is in it twice. -/
theorem IsData.ofEntries {entries : List (Value × Value)}
    (h : ∀ e ∈ entries, e.1.IsData ∧ e.2.IsData) : (Value.ofEntries entries).IsData := by
  have hfold : ∀ done, (Value.dict done).IsData →
      (Value.dict (entries.foldl (fun done e => Value.putEntry e.1 e.2 done) done)).IsData := by
    induction entries with
    | nil =>
      intro done hdone
      exact hdone
    | cons e rest ih =>
      intro done hdone
      rw [List.forall_mem_cons] at h
      exact ih h.2 _ (.putEntry h.1.1 h.1.2 hdone)
  refine hfold [] (.dict ?_ ?_ .nil)
  · intro e he
    cases he
  · intro e he
    cases he

end Value

/-! ### The order from both sides -/

/-- The relation for exchanged sides. -/
def Comparison.mirror : Comparison → Comparison
  | .lt => .gt
  | .le => .ge
  | .gt => .lt
  | .ge => .le

theorem Comparison.accepts_mirror (op : Comparison) (o : Ordering) :
    op.mirror.accepts o.swap = op.accepts o := by
  cases op <;> cases o <;> rfl

theorem any_accepts_mirror (op : Comparison) (o : Option Ordering) :
    (o.map Ordering.swap).any op.mirror.accepts = o.any op.accepts := by
  cases o with
  | none => rfl
  | some o => exact op.accepts_mirror o

namespace Value

/-- A number is compared with numbers only. -/
theorem compare_of_numeric {v : Value} {a : Numeric} (hv : v.numeric? = some a) (op : Comparison)
    (w : Value) :
    (v.compare op w).toOption = w.numeric?.map fun b => (a.compare b).any op.accepts := by
  have hcompare : (v.compare op w).toOption =
      v.numeric?.bind fun a => w.numeric?.map fun b => (a.compare b).any op.accepts := by
    cases v with
    | text s => cases hv
    | list vs => cases hv
    | tuple vs => cases hv
    | _ =>
      unfold compare
      cases w.numeric? <;> rfl
  rw [hcompare, hv]
  rfl

/-- Only numbers are compared with a number. -/
theorem compare_numeric {w : Value} {b : Numeric} (hw : w.numeric? = some b) (op : Comparison)
    (v : Value) :
    (v.compare op w).toOption = v.numeric?.map fun a => (a.compare b).any op.accepts := by
  cases w with
  | bool _ | int _ | float _ | notANumber _ =>
    cases hw
    cases v <;> rfl
  | _ => cases hw

theorem compare_mirror_of_numeric {v : Value} {a : Numeric} (hv : v.numeric? = some a)
    (op : Comparison) (w : Value) :
    (v.compare op w).toOption = (w.compare op.mirror v).toOption := by
  rw [compare_of_numeric hv, compare_numeric hv]
  refine congrArg (fun f => Option.map f w.numeric?) ?_
  funext b
  rw [Numeric.compare_swap a b, any_accepts_mirror]

theorem compare_text (op : Comparison) (s t : String) :
    (Value.text s).compare op (.text t) = .ok (op.accepts (Ord.compare s t)) := by
  unfold compare
  rfl

theorem compareAll_cons (op : Comparison) (v w : Value) (vs ws : List Value) :
    compareAll op (v :: vs) (w :: ws) =
      if v.samePart w = true then compareAll op vs ws else v.compare op w := by
  rw [compareAll]
  rfl

/-- The first difference of two lists is the same from both sides. -/
theorem compareAll_mirror (op : Comparison) {vs ws : List Value} (hvs : ∀ v ∈ vs, v.IsData)
    (hws : ∀ w ∈ ws, w.IsData)
    (hmirror : ∀ v ∈ vs, ∀ w : Value, w.IsData →
      (v.compare op w).toOption = (w.compare op.mirror v).toOption) :
    (compareAll op vs ws).toOption = (compareAll op.mirror ws vs).toOption := by
  induction vs generalizing ws with
  | nil =>
    cases ws with
    | nil => cases op <;> rfl
    | cons w ws => cases op <;> rfl
  | cons v vs ih =>
    cases ws with
    | nil => cases op <;> rfl
    | cons w ws =>
      rw [List.forall_mem_cons] at hvs hws hmirror
      rw [compareAll_cons, compareAll_cons, hws.1.samePart_comm hvs.1]
      split
      · exact ih hvs.2 hws.2 hmirror.2
      · exact hmirror.1 w hws.1

/-- **The order of data can be read from both sides.** -/
theorem IsData.compare_mirror {v w : Value} (hv : v.IsData) (hw : w.IsData) (op : Comparison) :
    (v.compare op w).toOption = (w.compare op.mirror v).toOption := by
  induction hv generalizing w with
  | nothing => cases hw <;> rfl
  | bool b => exact compare_mirror_of_numeric rfl op w
  | int n => exact compare_mirror_of_numeric rfl op w
  | float x => exact compare_mirror_of_numeric rfl op w
  | notANumber mark => exact compare_mirror_of_numeric rfl op w
  | text s =>
    cases hw with
    | text t =>
      rw [compare_text, compare_text, ← op.accepts_mirror, ← Std.OrientedOrd.eq_swap]
    | _ => rfl
  | list hitems ih =>
    cases hw with
    | list hitems' =>
      unfold compare
      exact compareAll_mirror op hitems hitems' fun v hv w hw => ih v hv hw
    | _ => rfl
  | tuple hitems ih =>
    cases hw with
    | tuple hitems' =>
      unfold compare
      exact compareAll_mirror op hitems hitems' fun v hv w hw => ih v hv hw
    | _ => rfl
  | dict hkeys hvalues hdistinct _ _ => cases hw <;> rfl

/-- A comparison sees data where its operand is data. -/
theorem IsData.compared {v w : Value} (hv : v.IsData) (h : v.compared = .ok w) : w.IsData := by
  cases hv with
  | text s =>
    cases hr : numberOfText s with
    | error fault =>
      rw [compared_text_error hr] at h
      cases h
    | ok number =>
      cases number with
      | some a =>
        rw [compared_text hr] at h
        cases h
        exact isData_toValue a.simplify
      | none =>
        rw [Value.compared] at h
        dsimp only at h
        rw [hr] at h
        cases h
        exact .text s
  | float x =>
    cases h
    exact isData_toValue (Numeric.float x).simplify
  | nothing => cases h; exact .nothing
  | bool b => cases h; exact .bool b
  | int n => cases h; exact .int n
  | notANumber mark => cases h; exact .notANumber mark
  | list hitems => cases h; exact .list hitems
  | tuple hitems => cases h; exact .tuple hitems
  | dict hkeys hvalues hdistinct => cases h; exact .dict hkeys hvalues hdistinct

end Value

/-! ### Comparisons from both sides -/

/-- The comparison for exchanged operands. -/
def Written.Comparison.mirror : Written.Comparison → Written.Comparison
  | .eq => .eq
  | .neq => .neq
  | .lt => .gt
  | .gt => .lt
  | .lte => .gte
  | .gte => .lte

/-- A comparison of operands that have been converted. -/
def Written.Comparison.test : Written.Comparison → Value → Value → Except Fault Bool
  | .eq, v, w => .ok (v.same w)
  | .neq, v, w => .ok !v.same w
  | .lt, v, w => v.compare .lt w
  | .gt, v, w => v.compare .gt w
  | .lte, v, w => v.compare .le w
  | .gte, v, w => v.compare .ge w

theorem relational_spelling (c : Written.Comparison) (u v : Value) :
    relational (spelling c.tag) u v = (do
      let a ← u.compared
      let b ← v.compared
      c.test a b) := by
  cases c <;> rfl

theorem test_mirror (c : Written.Comparison) {v w : Value} (hv : v.IsData) (hw : w.IsData) :
    (c.test v w).toOption = (c.mirror.test w v).toOption := by
  cases c with
  | eq => exact congrArg some (hv.same_comm hw)
  | neq => exact congrArg (fun b => some !b) (hv.same_comm hw)
  | lt => exact hv.compare_mirror hw .lt
  | gt => exact hv.compare_mirror hw .gt
  | lte => exact hv.compare_mirror hw .le
  | gte => exact hv.compare_mirror hw .ge

/-- Comparisons of values, from both sides.  The operands are converted in the other order then, so
that the fault may be another one, but there is one in both cases or in none. -/
theorem relational_mirror (c : Written.Comparison) {u v : Value} (hu : u.IsData) (hv : v.IsData) :
    (relational (spelling c.tag) u v).toOption =
      (relational (spelling c.mirror.tag) v u).toOption := by
  rw [relational_spelling, relational_spelling]
  cases hu' : u.compared with
  | error cause =>
    cases v.compared with
    | error cause' => rfl
    | ok b => rfl
  | ok a =>
    cases hv' : v.compared with
    | error cause' => rfl
    | ok b => exact test_mirror c (hu.compared hu') (hv.compared hv')

/-- Of two operands that can be told apart, `!=` says the opposite of `==`. -/
theorem relational_neq_eq_not (u v : Value) :
    (relational "!=" u v).toOption = (relational "==" u v).toOption.map not := by
  have hneq : relational "!=" u v = _ := relational_spelling .neq u v
  have heq : relational "==" u v = _ := relational_spelling .eq u v
  rw [hneq, heq]
  cases u.compared with
  | error cause => rfl
  | ok a =>
    cases v.compared with
    | error cause => rfl
    | ok b => rfl

/-- The operands of a node, run one after the other, give two values. -/
def Operands (k : Nat) (left right : Node) (m : Machine) (u v : Value) (m' : Machine) : Prop :=
  ∃ m₁, exec k left m = .ok u m₁ ∧ exec k right m₁ = .ok v m'

/-- The computation gives a truth value, or ends with a fault if there is none. -/
inductive Judges (p : Exec Value) (m : Machine) : Option Bool → Machine → Prop
  /-- With a truth value. -/
  | truth {b : Bool} {m' : Machine} (h : p m = .ok (.bool b) m') : Judges p m (some b) m'
  /-- With a fault. -/
  | fault {cause : Fault} {m' : Machine} (h : p m = .error (.fault cause) m') : Judges p m none m'

theorem Judges.unique {p : Exec Value} {m m' m'' : Machine} {r r' : Option Bool}
    (h : Judges p m r m') (h' : Judges p m r' m'') : r = r' := by
  cases h with
  | truth h =>
    cases h' with
    | truth h' =>
      cases h.symm.trans h'
      rfl
    | fault h' => cases h.symm.trans h'
  | fault h =>
    cases h' with
    | truth h' => cases h.symm.trans h'
    | fault h' => rfl

theorem judges_relational {k : Nat} {left right : Node} {m m' : Machine} {u v : Value}
    (h : Operands k left right m u v m') (type : Option String) (t : Token) :
    Judges (exec (k + 1) (.relational type t left right)) m
      (relational t.text u v).toOption m' := by
  obtain ⟨m₁, hleft, hright⟩ := h
  have hnode := relational_computes k type t left right m m₁ m' u v hleft hright
  rw [relationalValue] at hnode
  cases hr : relational t.text u v with
  | ok b =>
    rw [hr] at hnode
    exact .truth hnode
  | error cause =>
    rw [hr] at hnode
    exact .fault hnode

/-- **The two sides of every comparison can be exchanged.**  Two nodes compare the same two values,
which are the operands of the one in the opposite order to those of the other, by a comparison and
by its mirror image: they give the same truth value, or both end with a fault.  On the same operands
`!=` gives the opposite of `==`, or both end with a fault. -/
theorem comparisons_mirrored {u v : Value} (hu : u.IsData) (hv : v.IsData) {k k' : Nat}
    {left right left' right' : Node} {m m' n n' : Machine} (h : Operands k left right m u v m')
    (h' : Operands k' left' right' n v u n') (type type' : Option String) :
    (∀ (c : Written.Comparison) (t t' : Token), t.text = spelling c.tag →
      t'.text = spelling c.mirror.tag →
      ∃ r, Judges (exec (k + 1) (.relational type t left right)) m r m' ∧
        Judges (exec (k' + 1) (.relational type' t' left' right')) n r n') ∧
    ∀ t t' : Token, t.text = "==" → t'.text = "!=" →
      ∃ r, Judges (exec (k + 1) (.relational type t left right)) m r m' ∧
        Judges (exec (k + 1) (.relational type' t' left right)) m (r.map not) m' := by
  constructor
  · intro c t t' ht ht'
    have hfirst := judges_relational h type t
    have hsecond := judges_relational h' type' t'
    rw [ht', ← relational_mirror c hu hv, ← ht] at hsecond
    exact ⟨_, hfirst, hsecond⟩
  · intro t t' ht ht'
    have hfirst := judges_relational h type t
    have hsecond := judges_relational h type' t'
    have hnot : (relational t'.text u v).toOption = (relational t.text u v).toOption.map not := by
      rw [ht, ht']
      exact relational_neq_eq_not u v
    rw [hnot] at hsecond
    exact ⟨_, hfirst, hsecond⟩

/-- A list of a dictionary and a text. -/
def labelled (entries : List (Value × Value)) (label : String) : Value :=
  .list [.ofEntries entries, .text label]

theorem isData_labelled {entries : List (Value × Value)}
    (h : ∀ e ∈ entries, e.1.IsData ∧ e.2.IsData) (label : String) :
    (labelled entries label).IsData := by
  refine .list ?_
  rw [List.forall_mem_cons, List.forall_mem_singleton]
  exact ⟨.ofEntries h, .text label⟩

/-- A dictionary with the key `1`, labelled. -/
def wholeKeyed : Value :=
  labelled [(.int 1, .text "one"), (.text "k", .nothing)] "a"

/-- The same dictionary in another order, with a double for the key, and a later label. -/
def doubleKeyed : Value :=
  labelled [(.text "k", .nothing), (.float 1, .text "one")] "b"

theorem isData_wholeKeyed : wholeKeyed.IsData := by
  apply isData_labelled
  rw [List.forall_mem_cons, List.forall_mem_singleton]
  exact ⟨⟨.int 1, .text "one"⟩, .text "k", .nothing⟩

theorem isData_doubleKeyed : doubleKeyed.IsData := by
  apply isData_labelled
  rw [List.forall_mem_cons, List.forall_mem_singleton]
  exact ⟨⟨.text "k", .nothing⟩, .float 1, .text "one"⟩

/-- The dictionaries are equal, so that the labels decide, from both sides. -/
theorem comparisons_mirrored_keyed :
    wholeKeyed.IsData ∧ doubleKeyed.IsData ∧
      Judges (exec 2 (.relational none ⟨.lt, "<"⟩ (Parser.reference "x") (Parser.reference "y")))
        (machineWith wholeKeyed doubleKeyed) (some true) (machineWith wholeKeyed doubleKeyed) ∧
      Judges (exec 2 (.relational none ⟨.gt, ">"⟩ (Parser.reference "y") (Parser.reference "x")))
        (machineWith wholeKeyed doubleKeyed) (some true) (machineWith wholeKeyed doubleKeyed) := by
  have hforth : Operands 1 (Parser.reference "x") (Parser.reference "y")
      (machineWith wholeKeyed doubleKeyed) wholeKeyed doubleKeyed
      (machineWith wholeKeyed doubleKeyed) := ⟨_, exec_x _ _, exec_y _ _⟩
  have hback : Operands 1 (Parser.reference "y") (Parser.reference "x")
      (machineWith wholeKeyed doubleKeyed) doubleKeyed wholeKeyed
      (machineWith wholeKeyed doubleKeyed) := ⟨_, exec_y _ _, exec_x _ _⟩
  have hlt : relational "<" wholeKeyed doubleKeyed = .ok true := by decide +kernel
  have hjudges := judges_relational hforth none ⟨.lt, "<"⟩
  rw [hlt] at hjudges
  obtain ⟨r, hfirst, hsecond⟩ := (comparisons_mirrored isData_wholeKeyed isData_doubleKeyed hforth
    hback none none).1 .lt ⟨.lt, "<"⟩ ⟨.gt, ">"⟩ rfl rfl
  obtain rfl : some true = r := hjudges.unique hfirst
  exact ⟨isData_wholeKeyed, isData_doubleKeyed, hfirst, hsecond⟩

end SeqPar
