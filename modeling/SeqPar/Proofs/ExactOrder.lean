import SeqPar.Proofs.NumericReadings
import SeqPar.Proofs.WholeExpressions

/-!
# The exact order of numbers

A whole number is compared with a whole number, a double with a double, and a double with a whole
number in three different ways: by value, by exponent and significand, and by cross-multiplication.
All three are one order.  Every number other than what is not a number has a place on a line: a
whole number of units, one unit being the least positive double, or a place beyond all of these for
the infinities.  Numbers compare as their places do.

That exponents can be compared before significands is due to the normal form of doubles: above the
least exponent a significand has its full length.

## Main definitions

* `Place`, `Place.compare` — the places on the line and their order.
* `Normal`, `magnitude` — the normal form of a finite double, and its distance from zero in units.
* `Numeric.place?` — the place of a number.

## Main results

* `compare_magnitude` — normal forms are ordered by their exponents first.
* `compare_unpacked` — doubles compare as their places do.
* `compareInt_eq_place` — a double and a whole number compare as their places do.
* `Numeric.compare_eq_place` — **numbers of all kinds compare as their places do.**
* `Numeric.compare_swap`, `Numeric.compare_eq_iff` — what follows for the two sides of a comparison
  and for equal numbers.
-/

namespace SeqPar

open SeqPar.Number
open Float.Model (UnpackedFloat)
open Float.Model.UnpackedFloat

/-! ### Comparisons of whole numbers in other terms -/

section Compare

variable {a b c d : Int}

theorem compare_congr (hlt : a < b ↔ c < d) (hgt : b < a ↔ d < c) :
    Ord.compare a b = Ord.compare c d := by
  rcases compare_cases a b with ⟨h, hcompare⟩ | ⟨h, hcompare⟩ | ⟨h, hcompare⟩
  · rw [hcompare, Int.compare_eq_lt.mpr (hlt.mp h)]
  · rw [hcompare, Int.compare_eq_eq.mpr (by omega)]
  · rw [hcompare, Int.compare_eq_gt.mpr (hgt.mp h)]

/-- Both sides may be scaled. -/
theorem compare_mul_right (a b : Int) {k : Int} (hk : 0 < k) :
    Ord.compare (a * k) (b * k) = Ord.compare a b :=
  compare_congr (Int.mul_lt_mul_right hk) (Int.mul_lt_mul_right hk)

theorem compare_natCast (m n : Nat) : Ord.compare (m : Int) n = Ord.compare m n := by
  rcases Nat.lt_trichotomy m n with h | rfl | h
  · rw [Nat.compare_eq_lt.mpr h, Int.compare_eq_lt.mpr (Int.ofNat_lt.mpr h)]
  · rw [Nat.compare_eq_eq.mpr rfl, Int.compare_eq_eq.mpr rfl]
  · rw [Nat.compare_eq_gt.mpr h, Int.compare_eq_gt.mpr (Int.ofNat_lt.mpr h)]

theorem compare_neg_neg (a b : Int) : Ord.compare (-a) (-b) = (Ord.compare a b).swap := by
  rw [← Std.OrientedOrd.eq_swap]
  exact compare_congr (by omega) (by omega)

end Compare

/-! ### The line -/

/-- A place on the line of numbers. -/
structure Place where
  /-- Zero for all finite places, and the sign of an infinite one. -/
  side : Int
  /-- The distance from zero, for a finite place. -/
  units : Int

namespace Place

/-- The order of places. -/
def compare (p q : Place) : Ordering :=
  (Ord.compare p.side q.side).then (Ord.compare p.units q.units)

/-- A finite place. -/
def finite (units : Int) : Place :=
  ⟨0, units⟩

theorem compare_swap (p q : Place) : (p.compare q).swap = q.compare p := by
  rw [compare, Ordering.swap_then, ← Std.OrientedOrd.eq_swap, ← Std.OrientedOrd.eq_swap]
  rfl

theorem compare_eq_iff (p q : Place) : p.compare q = .eq ↔ p = q := by
  obtain ⟨side, units⟩ := p
  obtain ⟨side', units'⟩ := q
  rw [compare, Ordering.then_eq_eq, Std.LawfulEqOrd.compare_eq_iff_eq,
    Std.LawfulEqOrd.compare_eq_iff_eq, Place.mk.injEq]

end Place

/-! ### Doubles -/

/-- The normal form of a finite double: above the least exponent its significand is full. -/
structure Normal (m : Nat) (e : Int) : Prop where
  /-- The significand has 53 binary digits at most. -/
  lt : m < powTwo 53
  /-- There is a least exponent. -/
  least : leastExponent ≤ e
  /-- Above it the significand has 53 binary digits. -/
  full : leastExponent < e → powTwo 52 ≤ m

theorem Number.Storable.normal {s : Sign} {m : Nat} {e : Int} {hpos : 0 < m}
    (h : Storable (.finite s m e hpos)) : Normal m e := by
  cases h with
  | short _ _ hm =>
    exact ⟨Nat.lt_trans hm (powTwo_lt_powTwo.mpr (by decide)), Int.le_refl _, by omega⟩
  | full _ _ hm hm' he he' => exact ⟨hm', he, fun _ => hm⟩

/-- A significand with an exponent, in units of the least double. -/
def magnitude (m : Nat) (e : Int) : Int :=
  (m * powTwo (e - leastExponent).toNat : Nat)

theorem magnitude_pos {m : Nat} (hm : 0 < m) (e : Int) : 0 < magnitude m e :=
  Int.natCast_pos.mpr (Nat.mul_pos hm (powTwo_pos _))

section Magnitude

variable {m m' : Nat} {e e' : Int}

/-- The greater exponent makes the greater number, whatever the significands are. -/
theorem magnitude_lt_of_lt (h : Normal m e) (h' : Normal m' e') (he : e < e') :
    magnitude m e < magnitude m' e' := by
  have hleast := h.least
  have hfull : powTwo 52 ≤ m' := h'.full (by omega)
  obtain ⟨d, hd⟩ : ∃ d, (e' - leastExponent).toNat = 1 + (e - leastExponent).toNat + d :=
    ⟨(e' - e).toNat - 1, by omega⟩
  refine Int.ofNat_lt.mpr ?_
  rw [hd]
  generalize (e - leastExponent).toNat = k
  calc m * powTwo k < powTwo 53 * powTwo k := Nat.mul_lt_mul_of_pos_right h.lt (powTwo_pos k)
    _ = powTwo 52 * powTwo (1 + k) := by rw [← powTwo_add, ← powTwo_add, ← Nat.add_assoc]
    _ ≤ m' * powTwo (1 + k + d) :=
      Nat.mul_le_mul hfull (Nat.le_of_dvd (powTwo_pos _) (powTwo_dvd_powTwo (by omega)))

/-- **Normal forms are ordered by their exponents first and then by their significands.** -/
theorem compare_magnitude (h : Normal m e) (h' : Normal m' e') :
    (Ord.compare e e').then (Ord.compare m m') = Ord.compare (magnitude m e) (magnitude m' e') := by
  rcases compare_cases e e' with ⟨he, hcompare⟩ | ⟨rfl, hcompare⟩ | ⟨he, hcompare⟩
  · rw [hcompare, Int.compare_eq_lt.mpr (magnitude_lt_of_lt h h' he)]
    rfl
  · -- With one exponent there is one scale, and the significands decide.
    rw [hcompare, magnitude, magnitude, Int.natCast_mul, Int.natCast_mul,
      compare_mul_right _ _ (Int.natCast_pos.mpr (powTwo_pos _)), compare_natCast]
    rfl
  · rw [hcompare, Int.compare_eq_gt.mpr (magnitude_lt_of_lt h' h he)]
    rfl

end Magnitude

/-- The place of an unpacked double. -/
def Place.ofUnpacked? : UnpackedFloat → Option Place
  | .notANumber => none
  | .infinity s => some ⟨s.apply 1, 0⟩
  | .zero _ => some (finite 0)
  | .finite s m e _ => some (finite (s.apply (magnitude m e)))

/-- Finite doubles, by their signs. -/
theorem compare_finite {s t : Sign} {m m' : Nat} {e e' : Int} {hm : 0 < m} {hm' : 0 < m'}
    (h : Normal m e) (h' : Normal m' e') :
    (UnpackedFloat.finite s m e hm).compare (.finite t m' e' hm') =
      some (Ord.compare (s.apply (magnitude m e)) (t.apply (magnitude m' e'))) := by
  have hpos := magnitude_pos hm e
  have hpos' := magnitude_pos hm' e'
  cases s with
  | positive =>
    cases t with
    | positive => exact congrArg some (compare_magnitude h h')
    | negative =>
      have hgt : -magnitude m' e' < magnitude m e := by omega
      exact congrArg some (Int.compare_eq_gt.mpr hgt).symm
  | negative =>
    cases t with
    | positive =>
      have hlt : -magnitude m e < magnitude m' e' := by omega
      exact congrArg some (Int.compare_eq_lt.mpr hlt).symm
    | negative =>
      have hswap := congrArg Ordering.swap (compare_magnitude h h')
      rw [← compare_neg_neg] at hswap
      exact congrArg some hswap

/-- A finite double other than zero lies on the side of its sign. -/
theorem compare_zero_finite (z s : Sign) {m : Nat} {e : Int} (hm : 0 < m) :
    (UnpackedFloat.zero z).compare (.finite s m e hm) =
      some (Ord.compare 0 (s.apply (magnitude m e))) := by
  have hpos := magnitude_pos hm e
  cases s with
  | positive => exact congrArg some (Int.compare_eq_lt.mpr hpos).symm
  | negative =>
    have hneg : -magnitude m e < 0 := by omega
    exact congrArg some (Int.compare_eq_gt.mpr hneg).symm

theorem compare_finite_zero (z s : Sign) {m : Nat} {e : Int} (hm : 0 < m) :
    (UnpackedFloat.finite s m e hm).compare (.zero z) =
      some (Ord.compare (s.apply (magnitude m e)) 0) := by
  have hpos := magnitude_pos hm e
  cases s with
  | positive => exact congrArg some (Int.compare_eq_gt.mpr hpos).symm
  | negative =>
    have hneg : -magnitude m e < 0 := by omega
    exact congrArg some (Int.compare_eq_lt.mpr hneg).symm

/-- **Doubles compare as their places do.** -/
theorem compare_unpacked {u v : UnpackedFloat} (hu : Storable u) (hv : Storable v) :
    u.compare v = (Place.ofUnpacked? u).bind fun p => (Place.ofUnpacked? v).map p.compare := by
  cases u with
  | notANumber => rfl
  | infinity s =>
    cases v with
    | notANumber => rfl
    | infinity t => cases s <;> cases t <;> rfl
    | zero t => cases s <;> rfl
    | finite t m e hm => cases s <;> rfl
  | zero s =>
    cases v with
    | notANumber => rfl
    | infinity t => cases t <;> rfl
    | zero t => rfl
    | finite t m e hm => exact compare_zero_finite s t hm
  | finite s m e hm =>
    cases v with
    | notANumber => rfl
    | infinity t => cases t <;> rfl
    | zero t => exact compare_finite_zero t s hm
    | finite t m' e' hm' => exact compare_finite hu.normal hv.normal

/-! ### Numbers -/

/-- The units in the number one. -/
def unitsInOne : Int :=
  (powTwo 1074 : Nat)

theorem unitsInOne_pos : 0 < unitsInOne :=
  Int.natCast_pos.mpr (powTwo_pos 1074)

/-- The place of a number; what is not a number has none. -/
def Numeric.place? : Numeric → Option Place
  | .int n => some (.finite (n * unitsInOne))
  | .float x => Place.ofUnpacked? x.toModel.unpack

theorem float_lt_iff (x y : Float) :
    x < y ↔ x.toModel.unpack.compare y.toModel.unpack = some .lt := by
  show decide (x.toModel < y.toModel) = true ↔ _
  rw [decide_eq_true_iff]
  show (x.toModel.unpack.compare y.toModel.unpack == some .lt) = true ↔ _
  exact beq_iff_eq

theorem float_beq_iff (x y : Float) :
    (x == y) = true ↔ x.toModel.unpack.compare y.toModel.unpack = some .eq := by
  show (x.toModel.unpack.compare y.toModel.unpack == some .eq) = true ↔ _
  exact beq_iff_eq

/-- The exact ratio of a double, in units. -/
theorem magnitude_mul_ratio {b : Binary} (h : leastExponent ≤ b.exponent) :
    magnitude b.significand b.exponent * b.ratio.2 = b.ratio.1 * unitsInOne := by
  have hleast : leastExponent = -1074 := rfl
  rw [magnitude, unitsInOne, Binary.ratio]
  split
  · next hsign =>
    have hexponent : (b.exponent - leastExponent).toNat = b.exponent.toNat + 1074 := by omega
    rw [hexponent, powTwo_add, Int.natCast_one, Int.mul_one, ← Int.natCast_mul, Nat.mul_assoc]
  · next hsign =>
    have hexponent : (b.exponent - leastExponent).toNat + (-b.exponent).toNat = 1074 := by omega
    rw [← Int.natCast_mul, Nat.mul_assoc, ← powTwo_add, hexponent, Int.natCast_mul]

theorem signed_eq_apply (s : Sign) (m : Nat) (e : Int) (n : Nat) :
    Binary.signed ⟨s == .negative, m, e⟩ n = s.apply n := by
  cases s <;> rfl

theorem apply_mul (s : Sign) (a b : Int) : s.apply (a * b) = s.apply a * b := by
  cases s with
  | positive => rfl
  | negative => exact (Int.neg_mul a b).symm

/-- A finite double is compared with a whole number by cross-multiplication. -/
theorem compare_ratio (s : Sign) {m : Nat} {e : Int} (he : leastExponent ≤ e) (n : Int) {b : Binary}
    (hb : b = ⟨s == .negative, m, e⟩) :
    Ord.compare (b.signed b.ratio.1) (n * b.ratio.2) =
      Ord.compare (s.apply (magnitude m e)) (n * unitsInOne) := by
  have hunits : magnitude m e * b.ratio.2 = b.ratio.1 * unitsInOne := by
    subst hb
    exact magnitude_mul_ratio (b := ⟨s == .negative, m, e⟩) he
  have hden : (0 : Int) < b.ratio.2 := Int.natCast_pos.mpr b.ratio_pos
  have hsigned : b.signed b.ratio.1 = s.apply b.ratio.1 := by
    subst hb
    exact signed_eq_apply s m e _
  calc Ord.compare (b.signed b.ratio.1) (n * b.ratio.2)
      = Ord.compare (s.apply b.ratio.1 * unitsInOne) (n * b.ratio.2 * unitsInOne) := by
        rw [hsigned, compare_mul_right _ _ unitsInOne_pos]
    _ = Ord.compare (s.apply (magnitude m e) * b.ratio.2) (n * unitsInOne * b.ratio.2) := by
        rw [← apply_mul, ← apply_mul, hunits, Int.mul_right_comm]
    _ = Ord.compare (s.apply (magnitude m e)) (n * unitsInOne) :=
        compare_mul_right _ _ hden

theorem compareInt_of_finite {x : Float} {b : Binary} (hb : Binary.ofFloat? x = some b) (n : Int) :
    compareInt x n = some (Ord.compare (b.signed b.ratio.1) (n * b.ratio.2)) := by
  rw [compareInt, hb]

/-- An infinity lies on the side of its sign of every whole number. -/
theorem compareInt_of_infinite {x : Float} {s : Sign} (hx : x.toModel.unpack = .infinity s)
    (n : Int) : compareInt x n = some (Ord.compare (s.apply 1) 0) := by
  have hnone : Binary.ofFloat? x = none := by
    rw [Binary.ofFloat?_eq, hx]
    rfl
  have hnan : x.isNaN = false := by
    show x.toModel.unpack.isNaN = false
    rw [hx]
    rfl
  have hside : compareInt x n = some (if x < 0 then .lt else .gt) := by
    rw [compareInt, hnone, hnan]
    rfl
  have hneg : x < 0 ↔ (UnpackedFloat.infinity s).compare (.zero .positive) = some .lt := by
    rw [← hx]
    exact float_lt_iff x 0
  rw [hside]
  cases s with
  | positive =>
    have hnot : ¬ x < 0 := by
      intro hlt
      cases hneg.mp hlt
    rw [if_neg hnot]
    rfl
  | negative =>
    rw [if_pos (hneg.mpr rfl)]
    rfl

/-- A double and a whole number compare as their places do. -/
theorem compareInt_eq_place (x : Float) (n : Int) :
    compareInt x n = (Numeric.float x).place?.map fun p =>
      p.compare (.finite (n * unitsInOne)) := by
  have hstorable : Storable x.toModel.unpack := storable_unpack x.toModel.toBits.toBitVec
  have hparts := Binary.ofFloat?_eq x
  rw [Numeric.place?]
  cases hu : x.toModel.unpack with
  | notANumber =>
    rw [hu] at hparts
    have hnan : x.isNaN = true := by
      show x.toModel.unpack.isNaN = true
      rw [hu]
      rfl
    rw [compareInt, hparts]
    exact if_pos hnan
  | infinity s =>
    rw [compareInt_of_infinite hu]
    cases s with
    | positive => rfl
    | negative => rfl
  | zero s =>
    rw [hu] at hparts
    -- Both zeros have the same place.
    have hzero : s.apply (magnitude 0 leastExponent) = 0 := by
      rw [magnitude, Nat.zero_mul]
      cases s with
      | positive => rfl
      | negative => rfl
    rw [compareInt_of_finite hparts, compare_ratio s (Int.le_refl leastExponent) n rfl, hzero]
    rfl
  | finite s m e hm =>
    rw [hu] at hparts hstorable
    rw [compareInt_of_finite hparts, compare_ratio s hstorable.normal.least n rfl]
    rfl

/-- The three tests of two doubles find out how their places compare. -/
theorem compare_float_eq_place (x y : Float) :
    (Numeric.float x).compare (.float y) =
      (Numeric.float x).place?.bind fun p => (Numeric.float y).place?.map p.compare := by
  have hx : Storable x.toModel.unpack := storable_unpack x.toModel.toBits.toBitVec
  have hy : Storable y.toModel.unpack := storable_unpack y.toModel.toBits.toBitVec
  rw [Numeric.compare, Numeric.place?, Numeric.place?]
  simp only [float_lt_iff, float_beq_iff]
  rw [compare_unpacked hx hy, compare_unpacked hy hx]
  cases Place.ofUnpacked? x.toModel.unpack with
  | none =>
    cases Place.ofUnpacked? y.toModel.unpack with
    | none => rfl
    | some q => rfl
  | some p =>
    cases Place.ofUnpacked? y.toModel.unpack with
    | none => rfl
    | some q =>
      show (if some (p.compare q) = some .lt then some Ordering.lt
        else if some (q.compare p) = some .lt then some .gt
        else if some (p.compare q) = some .eq then some .eq else none) = some (p.compare q)
      -- The second test looks from the other side, which is the swapped ordering.
      rw [← p.compare_swap q]
      cases p.compare q with
      | lt => rfl
      | eq => rfl
      | gt => rfl

namespace Numeric

/-- **Numbers of all kinds compare as their places do.** -/
theorem compare_eq_place (a b : Numeric) :
    a.compare b = a.place?.bind fun p => b.place?.map p.compare := by
  cases a with
  | int a =>
    cases b with
    | int b =>
      have hunits := compare_mul_right a b unitsInOne_pos
      exact congrArg some hunits.symm
    | float y =>
      rw [compare, compareInt_eq_place, Option.map_map]
      refine congrArg (fun f => Option.map f (Numeric.float y).place?) ?_
      funext q
      exact q.compare_swap _
  | float x =>
    cases b with
    | int b =>
      rw [compare, compareInt_eq_place, Option.map_eq_bind]
      rfl
    | float y => exact compare_float_eq_place x y

/-- The two sides of a comparison may be exchanged. -/
theorem compare_swap (a b : Numeric) : b.compare a = (a.compare b).map Ordering.swap := by
  rw [compare_eq_place, compare_eq_place]
  cases a.place? with
  | none =>
    cases b.place? with
    | none => rfl
    | some q => rfl
  | some p =>
    cases b.place? with
    | none => rfl
    | some q => exact congrArg some (p.compare_swap q).symm

/-- Two numbers are equal if they have the same place. -/
theorem compare_eq_iff (a b : Numeric) :
    a.compare b = some .eq ↔ ∃ p, a.place? = some p ∧ b.place? = some p := by
  rw [compare_eq_place]
  constructor
  · intro h
    obtain ⟨p, hp, h⟩ := Option.bind_eq_some_iff.mp h
    obtain ⟨q, hq, h⟩ := Option.map_eq_some_iff.mp h
    rw [(p.compare_eq_iff q).mp h] at hp
    exact ⟨q, hp, hq⟩
  · rintro ⟨p, hp, hq⟩
    rw [hp, hq]
    exact congrArg some ((p.compare_eq_iff p).mpr rfl)

theorem compare_eq_trans {a b c : Numeric} (h : a.compare b = some .eq)
    (h' : b.compare c = some .eq) : a.compare c = some .eq := by
  obtain ⟨p, ha, hb⟩ := (compare_eq_iff a b).mp h
  obtain ⟨q, hb', hc⟩ := (compare_eq_iff b c).mp h'
  obtain rfl : p = q := Option.some.inj (hb.symm.trans hb')
  exact (compare_eq_iff a c).mpr ⟨p, ha, hc⟩

end Numeric

end SeqPar
