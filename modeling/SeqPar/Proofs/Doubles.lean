import SeqPar.Conversion

/-!
# Doubles

A double is a word of 64 bits, and all that programs compute with doubles goes through its exact
parts: a sign, a significand and a power of two.  This module takes the parts from the bits once and
for all.  Unpacking has one equation for each kind of double, packing undoes it, and a minus sign
changes nothing but the sign.

The second half is about the doubles nearest to whole numbers.  A whole number is a double when it
is the product of a significand and a power of two, both within the bounds of the format.  Rounding
leaves exactly these numbers as they are.

## Main definitions

* `signField`, `exponentField`, `fractionField` — the three parts of the word.
* `Storable` — the unpacked doubles that fit into a word.
* `Binary.ofUnpacked?` — the exact parts of an unpacked double.
* `IsDouble` — whole numbers that are doubles.

## Main results

* `unpack_pack` — packing a double that fits and unpacking it again.
* `Binary.ofFloat?_eq` — the exact parts, by unpacking.
* `Binary.ofFloat?_neg` — the exact parts of the negative.
* `isDouble_truncate` — the whole part of a double is a double.
* `nearest?_of_isDouble` — **a whole number that is a double is its own nearest double.**
* `nearest?_eq_none` — beyond the greatest double there is none.
-/

namespace SeqPar.Number

open Float.Model (Format UnpackedFloat)
open Float.Model.UnpackedFloat

/-! ### Powers of two -/

theorem powTwo_pos (k : Nat) : 0 < powTwo k :=
  Nat.two_pow_pos k

theorem powTwo_add (j k : Nat) : powTwo (j + k) = powTwo j * powTwo k :=
  Nat.pow_add 2 j k

theorem powTwo_lt_powTwo {j k : Nat} : powTwo j < powTwo k ↔ j < k :=
  Nat.pow_lt_pow_iff_right (Nat.lt_succ_self 1)

theorem powTwo_dvd_powTwo {j k : Nat} (h : j ≤ k) : powTwo j ∣ powTwo k :=
  Nat.pow_dvd_pow 2 h

theorem powTwo_11 : powTwo 11 = 2048 := rfl

theorem powTwo_52 : powTwo 52 = 4503599627370496 := rfl

theorem powTwo_53 : powTwo 53 = 9007199254740992 := rfl

theorem powTwo_63 : powTwo 63 = 9223372036854775808 := rfl

/-! ### The fields of a word -/

/-- The sign of a packed double. -/
def signField (b : BitVec 64) : Sign :=
  Sign.ofBitVec (@unpackSign Format.binary64 b)

/-- The exponent of a packed double, as it is stored. -/
def exponentField (b : BitVec 64) : Nat :=
  (@unpackExponent Format.binary64 b).toNat

/-- The significand of a packed double, as it is stored. -/
def fractionField (b : BitVec 64) : Nat :=
  (@unpackMantissa Format.binary64 b).toNat

section Fields

variable (s : Sign) (e : BitVec 11) (m : BitVec 52) (b : BitVec 64)

theorem exponentField_eq : exponentField b = b.toNat / powTwo 52 % powTwo 11 := by
  rw [exponentField, unpackExponent, BitVec.toNat_cast, BitVec.extractLsb_toNat,
    Nat.shiftRight_eq_div_pow]
  rfl

theorem fractionField_eq : fractionField b = b.toNat % powTwo 52 := by
  rw [fractionField, unpackMantissa, BitVec.toNat_cast, BitVec.extractLsb_toNat,
    Nat.shiftRight_zero]
  rfl

theorem toNat_unpackSign : (@unpackSign Format.binary64 b).toNat = b.toNat / powTwo 63 := by
  have hb := b.isLt
  delta unpackSign
  rw [BitVec.toNat_cast, BitVec.extractLsb_toNat, Nat.shiftRight_eq_div_pow]
  refine Nat.mod_eq_of_lt ?_
  show b.toNat / 9223372036854775808 < 2
  omega

theorem exponentField_lt : exponentField b < 2048 :=
  (@unpackExponent Format.binary64 b).isLt

theorem fractionField_lt : fractionField b < powTwo 52 :=
  (@unpackMantissa Format.binary64 b).isLt

theorem signField_eq : (signField b == Sign.negative) = decide (powTwo 63 ≤ b.toNat) := by
  have hsign := toNat_unpackSign b
  rw [powTwo_63] at hsign ⊢
  rw [signField, Sign.ofBitVec]
  by_cases hzero : @unpackSign Format.binary64 b = 0#1
  · have hlow : ¬ 9223372036854775808 ≤ b.toNat := by
      have hbit : (@unpackSign Format.binary64 b).toNat = 0 := congrArg BitVec.toNat hzero
      omega
    rw [if_pos hzero]
    exact (decide_eq_false hlow).symm
  · have hhigh : 9223372036854775808 ≤ b.toNat := by
      have hbit : (@unpackSign Format.binary64 b).toNat ≠ 0 :=
        fun h => hzero (BitVec.eq_of_toNat_eq h)
      omega
    rw [if_neg hzero]
    exact (decide_eq_true hhigh).symm

theorem toNat_packComponents : (packComponents Format.binary64 s e m).toNat =
    s.toBitVec.toNat * powTwo 63 + e.toNat * powTwo 52 + m.toNat := by
  have he := e.isLt
  have hm := m.isLt
  show (s.toBitVec ++ e ++ m).toNat = _
  rw [BitVec.toNat_append, BitVec.toNat_append, ← Nat.shiftLeft_add_eq_or_of_lt hm,
    ← Nat.shiftLeft_add_eq_or_of_lt he, Nat.shiftLeft_eq, Nat.shiftLeft_eq, powTwo_52, powTwo_63]
  omega

theorem signField_packComponents : signField (packComponents Format.binary64 s e m) = s := by
  have he := e.isLt
  have hm := m.isLt
  have hsign : unpackSign (packComponents Format.binary64 s e m) = s.toBitVec := by
    refine BitVec.eq_of_toNat_eq ((toNat_unpackSign _).trans ?_)
    rw [toNat_packComponents, powTwo_52, powTwo_63]
    omega
  rw [signField, hsign]
  cases s with
  | negative => rfl
  | positive => rfl

theorem exponentField_packComponents :
    exponentField (packComponents Format.binary64 s e m) = e.toNat :=
  congrArg BitVec.toNat unpackExponent_packComponents

theorem fractionField_packComponents :
    fractionField (packComponents Format.binary64 s e m) = m.toNat :=
  congrArg BitVec.toNat unpackMantissa_packComponents

end Fields

/-! ### Unpacking -/

section Unpack

variable {b : BitVec 64}

/-- The greatest exponent stands for the infinities and for what is not a number. -/
theorem unpack_special (he : exponentField b = 2047) :
    UnpackedFloat.unpack Format.binary64 b =
      if @unpackMantissa Format.binary64 b = 0#52 then .infinity (signField b)
      else .notANumber := by
  have hones : @unpackExponent Format.binary64 b = -1#11 := BitVec.eq_of_toNat_eq he
  delta UnpackedFloat.unpack
  exact if_pos hones

theorem unpack_zero (he : exponentField b = 0) (hm : fractionField b = 0) :
    UnpackedFloat.unpack Format.binary64 b = .zero (signField b) := by
  have hexponent : @unpackExponent Format.binary64 b = 0#11 := BitVec.eq_of_toNat_eq he
  have hfraction : @unpackMantissa Format.binary64 b = 0#52 := BitVec.eq_of_toNat_eq hm
  have hnot : @unpackExponent Format.binary64 b ≠ -1#11 := by
    rw [hexponent]
    decide
  delta UnpackedFloat.unpack
  exact (if_neg hnot).trans ((if_pos hexponent).trans (dif_pos hfraction))

/-- The exponent zero stands for the least one, with a significand that is not full. -/
theorem unpack_short (he : exponentField b = 0) (hm : 0 < fractionField b) :
    UnpackedFloat.unpack Format.binary64 b =
      .finite (signField b) (fractionField b) leastExponent hm := by
  have hexponent : @unpackExponent Format.binary64 b = 0#11 := BitVec.eq_of_toNat_eq he
  have hfraction : @unpackMantissa Format.binary64 b ≠ 0#52 := by
    intro hzero
    rw [fractionField, hzero] at hm
    exact absurd hm (by decide)
  have hnot : @unpackExponent Format.binary64 b ≠ -1#11 := by
    rw [hexponent]
    decide
  delta UnpackedFloat.unpack
  refine (if_neg hnot).trans ((if_pos hexponent).trans ((dif_neg hfraction).trans ?_))
  rw [UnpackedFloat.finite.injEq]
  refine ⟨rfl, rfl, ?_⟩
  rw [hexponent]
  rfl

/-- All other exponents come with a full significand, whose first bit is not stored. -/
theorem unpack_full (he : exponentField b ≠ 0) (he' : exponentField b ≠ 2047) :
    UnpackedFloat.unpack Format.binary64 b =
      .finite (signField b) (fractionField b + powTwo 52) (exponentField b - 1075)
        (Nat.add_pos_right _ (powTwo_pos 52)) := by
  have hm := (@unpackMantissa Format.binary64 b).isLt
  have hzero : @unpackExponent Format.binary64 b ≠ 0#11 := fun h => he (congrArg BitVec.toNat h)
  have hones : @unpackExponent Format.binary64 b ≠ -1#11 := fun h => he' (congrArg BitVec.toNat h)
  delta UnpackedFloat.unpack
  refine (if_neg hones).trans ((if_neg hzero).trans ?_)
  rw [UnpackedFloat.finite.injEq]
  refine ⟨rfl, ?_, rfl⟩
  rw [BitVec.toNat_append, ← Nat.shiftLeft_add_eq_or_of_lt hm, Nat.shiftLeft_eq]
  exact Nat.add_comm _ _

end Unpack

/-- The unpacked doubles that fit into a word. -/
inductive Storable : UnpackedFloat → Prop
  /-- No number. -/
  | notANumber : Storable .notANumber
  /-- An infinity. -/
  | infinity (s : Sign) : Storable (.infinity s)
  /-- A zero. -/
  | zero (s : Sign) : Storable (.zero s)
  /-- A number with the least exponent and a significand that is not full. -/
  | short (s : Sign) {m : Nat} (hpos : 0 < m) (hm : m < powTwo 52) :
    Storable (.finite s m leastExponent hpos)
  /-- A number with a full significand. -/
  | full (s : Sign) {m : Nat} {e : Int} (hpos : 0 < m) (hm : powTwo 52 ≤ m) (hm' : m < powTwo 53)
    (he : leastExponent ≤ e) (he' : e ≤ 971) : Storable (.finite s m e hpos)

theorem storable_unpack (b : BitVec 64) :
    Storable (UnpackedFloat.unpack Format.binary64 b) := by
  have hfraction := fractionField_lt b
  have hexponent := exponentField_lt b
  have hleast : leastExponent = -1074 := rfl
  by_cases hones : exponentField b = 2047
  · rw [unpack_special hones]
    split
    · exact .infinity _
    · exact .notANumber
  by_cases hzero : exponentField b = 0
  · by_cases hm : fractionField b = 0
    · rw [unpack_zero hzero hm]
      exact .zero _
    · rw [unpack_short hzero (Nat.pos_of_ne_zero hm)]
      exact .short _ _ hfraction
  · rw [powTwo_52] at hfraction
    rw [unpack_full hzero hones]
    refine .full _ _ (Nat.le_add_left _ _) ?_ (by omega) (by omega)
    rw [powTwo_52, powTwo_53]
    omega

/-! ### Packing -/

/-- A number with a full significand is packed with its exponent. -/
theorem pack_full {s : Sign} {m : Nat} {e : Int} (hpos : 0 < m) (hm : powTwo 52 ≤ m)
    (hm' : m < powTwo 53) (he : leastExponent ≤ e) (he' : e ≤ 971) :
    UnpackedFloat.pack Format.binary64 (.finite s m e hpos) =
      packComponents Format.binary64 s (BitVec.ofNat 11 (e + 1075).toNat) (BitVec.ofNat 52 m) := by
  have hleast : leastExponent = -1074 := rfl
  have hbiased : (e + Format.binary64.exponentBias +
      (Format.binary64.mantissaBitsWithoutImplicit : Int)).toNat = (e + 1075).toNat := by
    show (e + 1023 + 52).toNat = _
    omega
  have hlog : m.log2 + 1 = Format.binary64.mantissaBits :=
    congrArg (· + 1) ((Nat.log2_eq_iff (Nat.ne_of_gt hpos)).mpr ⟨hm, hm'⟩)
  rw [← hbiased]
  delta UnpackedFloat.pack
  refine (if_neg ?_).trans (if_pos hlog)
  show ¬ 2048 ≤ _ + 1
  omega

/-- A number with a significand that is not full is packed with the exponent zero. -/
theorem pack_short {s : Sign} {m : Nat} (hpos : 0 < m) (hm : m < powTwo 52) :
    UnpackedFloat.pack Format.binary64 (.finite s m leastExponent hpos) =
      packComponents Format.binary64 s 0#11 (BitVec.ofNat 52 m) := by
  have hlog : m.log2 < 52 := (Nat.log2_lt (Nat.ne_of_gt hpos)).mpr hm
  have hnot : ¬ m.log2 + 1 = Format.binary64.mantissaBits := by
    show ¬ m.log2 + 1 = 53
    omega
  delta UnpackedFloat.pack
  exact (if_neg (by decide)).trans (if_neg hnot)

/-- **A double that fits is the same after packing and unpacking.** -/
theorem unpack_pack {u : UnpackedFloat} (h : Storable u) :
    UnpackedFloat.unpack Format.binary64 (UnpackedFloat.pack Format.binary64 u) = u := by
  cases h with
  | notANumber => rfl
  | infinity s =>
    cases s with
    | negative => rfl
    | positive => rfl
  | zero s =>
    cases s with
    | negative => rfl
    | positive => rfl
  | @short s m hpos hm =>
    -- The exponent field is zero, and the fraction is the whole significand.
    have hfraction : fractionField (packComponents Format.binary64 s 0#11 (BitVec.ofNat 52 m)) =
        m := by
      rw [fractionField_packComponents, BitVec.toNat_ofNat]
      exact Nat.mod_eq_of_lt hm
    rw [pack_short hpos hm, unpack_short (exponentField_packComponents _ _ _) (by omega),
      UnpackedFloat.finite.injEq]
    exact ⟨signField_packComponents _ _ _, hfraction, rfl⟩
  | @full s m e hpos hm hm' he he' =>
    -- The leading bit of the significand is not stored; unpacking adds it again.
    have hleast : leastExponent = -1074 := rfl
    generalize hb : packComponents Format.binary64 s (BitVec.ofNat 11 (e + 1075).toNat)
      (BitVec.ofNat 52 m) = b
    have hexponent : exponentField b = (e + 1075).toNat := by
      rw [← hb, exponentField_packComponents, BitVec.toNat_ofNat]
      omega
    have hfraction : fractionField b + powTwo 52 = m := by
      rw [← hb, fractionField_packComponents, BitVec.toNat_ofNat]
      rw [powTwo_52] at hm ⊢
      rw [powTwo_53] at hm'
      omega
    rw [pack_full hpos hm hm' he he', hb, unpack_full (by omega) (by omega),
      UnpackedFloat.finite.injEq]
    refine ⟨?_, hfraction, by omega⟩
    rw [← hb]
    exact signField_packComponents _ _ _

/-! ### Exact parts -/

/-- The exact parts of an unpacked double. -/
def Binary.ofUnpacked? : UnpackedFloat → Option Binary
  | .infinity _ | .notANumber => none
  | .zero s => some ⟨s == .negative, 0, leastExponent⟩
  | .finite s m e _ => some ⟨s == .negative, m, e⟩

theorem Binary.ofUnpacked?_finite (s : Sign) {m : Nat} (e : Int) (hpos : 0 < m) :
    Binary.ofUnpacked? (.finite s m e hpos) = some ⟨s == .negative, m, e⟩ := rfl

/-- **The exact parts of a double are those of the unpacked double.** -/
theorem Binary.ofFloat?_eq (x : Float) :
    Binary.ofFloat? x = Binary.ofUnpacked? x.toModel.unpack := by
  show Binary.ofFloat? x =
    Binary.ofUnpacked? (UnpackedFloat.unpack Format.binary64 x.toBits.toBitVec)
  generalize hb : x.toBits.toBitVec = b
  have hbits : x.toBits.toNat = b.toNat := congrArg BitVec.toNat hb
  rw [Binary.ofFloat?, hbits, ← signField_eq, fractionBits, ← exponentField_eq, ← fractionField_eq]
  by_cases hones : exponentField b = 2047
  · rw [if_pos hones, unpack_special hones]
    split
    · rfl
    · rfl
  by_cases hzero : exponentField b = 0
  · rw [if_neg hones, if_pos hzero]
    by_cases hm : fractionField b = 0
    · rw [unpack_zero hzero hm, hm]
      rfl
    · rw [unpack_short hzero (Nat.pos_of_ne_zero hm)]
      rfl
  · have hexponent : leastExponent + ((exponentField b - 1 : Nat) : Int) =
        (exponentField b : Int) - 1075 := by
      show (-1074 : Int) + _ = _
      omega
    rw [if_neg hones, if_neg hzero, unpack_full hzero hones, Binary.ofUnpacked?_finite, hexponent]

theorem Binary.ofFloat?_ofBits (w : UInt64) : Binary.ofFloat? (Float.ofBits w) =
    Binary.ofUnpacked? (UnpackedFloat.unpack Format.binary64 w.toBitVec) := by
  rw [ofFloat?_eq]
  exact congrArg Binary.ofUnpacked? (unpack_pack (storable_unpack w.toBitVec))

/-- A word whose exponent field is not full has exact parts. -/
theorem Binary.exists_ofFloat?_ofBits {w : UInt64} (h : exponentField w.toBitVec ≠ 2047) :
    ∃ b, Binary.ofFloat? (Float.ofBits w) = some b := by
  rw [ofFloat?_ofBits]
  by_cases hzero : exponentField w.toBitVec = 0
  · by_cases hm : fractionField w.toBitVec = 0
    · rw [unpack_zero hzero hm]
      exact ⟨_, rfl⟩
    · rw [unpack_short hzero (Nat.pos_of_ne_zero hm)]
      exact ⟨_, rfl⟩
  · rw [unpack_full hzero h]
    exact ⟨_, rfl⟩

/-- The same number with the other sign. -/
def Binary.negated (b : Binary) : Binary :=
  { b with negative := !b.negative }

theorem Storable.neg {u : UnpackedFloat} (h : Storable u) : Storable u.neg := by
  cases h with
  | notANumber => exact .notANumber
  | infinity s => exact .infinity _
  | zero s => exact .zero _
  | short s hpos hm => exact .short _ hpos hm
  | full s hpos hm hm' he he' => exact .full _ hpos hm hm' he he'

/-- A minus sign changes the sign and nothing else. -/
theorem Binary.ofFloat?_neg (x : Float) :
    Binary.ofFloat? (-x) = (Binary.ofFloat? x).map Binary.negated := by
  have hneg : (-x).toModel.unpack = x.toModel.unpack.neg :=
    unpack_pack (storable_unpack x.toModel.toBits.toBitVec).neg
  rw [ofFloat?_eq, ofFloat?_eq, hneg]
  cases x.toModel.unpack with
  | notANumber => rfl
  | infinity s => rfl
  | zero s =>
    cases s with
    | negative => rfl
    | positive => rfl
  | finite s m e hm =>
    cases s with
    | negative => rfl
    | positive => rfl

theorem isNaN_of_ofFloat? {x : Float} {b : Binary} (h : Binary.ofFloat? x = some b) :
    x.isNaN = false := by
  rw [Binary.ofFloat?_eq] at h
  show x.toModel.unpack.isNaN = false
  cases hu : x.toModel.unpack with
  | notANumber =>
    rw [hu] at h
    cases h
  | infinity s => rfl
  | zero s => rfl
  | finite s m e hm => rfl

/-- The bounds of the significand and the exponent. -/
theorem Binary.bounds_of_ofFloat? {x : Float} {b : Binary} (h : Binary.ofFloat? x = some b) :
    b.significand < powTwo 53 ∧ b.exponent ≤ 971 := by
  have hleast : leastExponent ≤ 971 := by decide
  have hstorable : Storable x.toModel.unpack := storable_unpack x.toModel.toBits.toBitVec
  rw [ofFloat?_eq] at h
  revert h hstorable
  generalize x.toModel.unpack = u
  intro h hstorable
  cases hstorable with
  | notANumber => cases h
  | infinity s => cases h
  | zero s =>
    cases h
    exact ⟨powTwo_pos 53, hleast⟩
  | short s hpos hm =>
    cases h
    exact ⟨Nat.lt_trans hm (powTwo_lt_powTwo.mpr (by decide)), hleast⟩
  | full s hpos hm hm' he he' =>
    cases h
    exact ⟨hm', he'⟩

/-! ### Whole doubles -/

/-- A whole number that is a double: a significand times a power of two, below the infinity. -/
def IsDouble (n : Nat) : Prop :=
  ∃ m e, m < powTwo 53 ∧ n = m * powTwo e ∧ n < powTwo 1024

/-- Every number with at most 53 binary digits is a double. -/
theorem isDouble_of_lt {n : Nat} (h : n < powTwo 53) : IsDouble n :=
  ⟨n, 0, h, (Nat.mul_one n).symm, Nat.lt_trans h (powTwo_lt_powTwo.mpr (by decide))⟩

theorem Binary.natAbs_signed (b : Binary) (n : Nat) : (b.signed n).natAbs = n := by
  rw [signed]
  split
  · exact (Int.natAbs_neg _).trans (Int.natAbs_natCast n)
  · exact Int.natAbs_natCast n

/-- **The whole part of a double is a double.** -/
theorem isDouble_truncate {x : Float} {b : Binary} (h : Binary.ofFloat? x = some b) :
    IsDouble b.truncate.natAbs := by
  obtain ⟨hm, he⟩ := Binary.bounds_of_ofFloat? h
  rw [Binary.truncate, Binary.natAbs_signed, Binary.ratio]
  by_cases hsign : 0 ≤ b.exponent
  · rw [if_pos hsign]
    refine ⟨b.significand, b.exponent.toNat, hm, Nat.div_one _, ?_⟩
    have hscale : powTwo 1024 = powTwo 53 * powTwo 971 := powTwo_add 53 971
    have hpower : powTwo b.exponent.toNat ≤ powTwo 971 :=
      Nat.le_of_dvd (powTwo_pos 971) (powTwo_dvd_powTwo (by omega))
    show b.significand * powTwo b.exponent.toNat / 1 < powTwo 1024
    rw [Nat.div_one, hscale]
    exact Nat.lt_of_lt_of_le (Nat.mul_lt_mul_of_pos_right hm (powTwo_pos _))
      (Nat.mul_le_mul_left _ hpower)
  · rw [if_neg hsign]
    exact isDouble_of_lt (Nat.lt_of_le_of_lt (Nat.div_le_self _ _) hm)

/-- A full significand and its exponent are the exact parts of the word that they make up. -/
theorem Binary.ofFloat?_word {q : Nat} {e : Int} (hq : powTwo 52 ≤ q) (hq' : q < powTwo 53)
    (he : leastExponent ≤ e) (he' : e ≤ 971) :
    Binary.ofFloat? (Float.ofBits (UInt64.ofNat ((e - leastExponent).toNat * powTwo 52 + q))) =
      some ⟨false, q, e⟩ := by
  have hleast : leastExponent = -1074 := rfl
  rw [powTwo_52] at hq
  rw [powTwo_53] at hq'
  generalize hw : UInt64.ofNat ((e - leastExponent).toNat * powTwo 52 + q) = w
  have hbits : w.toBitVec.toNat = (e + 1074).toNat * 4503599627370496 + q := by
    rw [← hw, hleast, powTwo_52, UInt64.toNat_toBitVec, UInt64.toNat_ofNat']
    omega
  have hexponent : exponentField w.toBitVec = (e + 1075).toNat := by
    rw [exponentField_eq, hbits, powTwo_52, powTwo_11]
    omega
  have hfraction : fractionField w.toBitVec + powTwo 52 = q := by
    rw [fractionField_eq, hbits, powTwo_52]
    omega
  have hsign : (signField w.toBitVec == Sign.negative) = false := by
    rw [signField_eq, hbits, powTwo_63]
    exact decide_eq_false (by omega)
  have hscale : ((exponentField w.toBitVec : Nat) : Int) - 1075 = e := by omega
  rw [ofFloat?_ofBits, unpack_full (by omega) (by omega), ofUnpacked?_finite, hsign, hfraction,
    hscale]

theorem divRoundEven_mul (q : Nat) {d : Nat} (hd : 0 < d) : divRoundEven (q * d) d = q := by
  rw [divRoundEven, Nat.mul_mod_left, Nat.mul_zero, if_pos hd]
  exact Nat.mul_div_cancel q hd

theorem floorLog2_one {n : Nat} (hn : n ≠ 0) : floorLog2 n 1 = n.log2 := by
  have hlog : ((n.log2 : Nat) : Int) - ((Nat.log2 1 : Nat) : Int) = n.log2 := by
    show ((n.log2 : Nat) : Int) - ((0 : Nat) : Int) = n.log2
    omega
  have hle : ¬ n < 1 * powTwo n.log2 := by
    rw [Nat.one_mul]
    exact Nat.not_lt_of_le (Nat.log2_self_le hn)
  rw [floorLog2, hlog, if_pos (Int.natCast_nonneg _), Int.toNat_natCast, if_neg hle]

/-- A number is the product of a significand and a power of two, which may be a fraction. -/
def IsProduct (n q : Nat) (e : Int) : Prop :=
  if 0 ≤ e then n = q * powTwo e.toNat else q = n * powTwo (-e).toNat

theorem Binary.truncate_of_isProduct {n q : Nat} {e : Int} (h : IsProduct n q e) :
    Binary.truncate ⟨false, q, e⟩ = n := by
  rw [IsProduct] at h
  show Int.ofNat ((Binary.ratio ⟨false, q, e⟩).1 / (Binary.ratio ⟨false, q, e⟩).2) = n
  refine congrArg Int.ofNat ?_
  rw [ratio]
  by_cases hsign : 0 ≤ e
  · rw [if_pos hsign] at h ⊢
    rw [h]
    exact Nat.div_one _
  · rw [if_neg hsign] at h ⊢
    rw [h]
    exact Nat.mul_div_cancel n (powTwo_pos _)

/-- The nearest double to a number with a full significand. -/
theorem nearest?_of_full {n q : Nat} {e : Int} (hn : n ≠ 0) (hlog : (n.log2 : Int) = e + 52)
    (hq : powTwo 52 ≤ q) (hq' : q < powTwo 53) (he : e ≤ 971) (hvalue : IsProduct n q e) :
    ∃ x b, nearest? n 1 = some x ∧ Binary.ofFloat? x = some b ∧ b.truncate = n := by
  have hleast : leastExponent = -1074 := rfl
  have hmax : max (floorLog2 n 1 - (fractionBits : Int)) leastExponent = e := by
    rw [floorLog2_one hn, hleast]
    show max ((n.log2 : Int) - ((52 : Nat) : Int)) (-1074) = e
    omega
  have hrounded : (if 0 ≤ e then divRoundEven n (1 * powTwo e.toNat)
      else divRoundEven (n * powTwo (-e).toNat) 1) = q := by
    rw [IsProduct] at hvalue
    by_cases hsign : 0 ≤ e
    · rw [if_pos hsign] at hvalue ⊢
      rw [Nat.one_mul, hvalue]
      exact divRoundEven_mul q (powTwo_pos _)
    · rw [if_neg hsign] at hvalue ⊢
      have hexact := divRoundEven_mul q Nat.one_pos
      rw [Nat.mul_one] at hexact
      rwa [← hvalue]
  have hfinite : ¬ 2047 * powTwo 52 ≤ (e - leastExponent).toNat * powTwo 52 + q := by
    rw [powTwo_53] at hq'
    rw [powTwo_52, hleast]
    omega
  refine ⟨Float.ofBits (UInt64.ofNat ((e - leastExponent).toNat * powTwo 52 + q)), ⟨false, q, e⟩,
    ?_, ?_, Binary.truncate_of_isProduct hvalue⟩
  · rw [nearest?, if_neg hn]
    dsimp only
    rw [hmax, hrounded]
    exact if_neg hfinite
  · exact Binary.ofFloat?_word hq hq' (by omega) he

/-- **A whole number that is a double is its own nearest double.** -/
theorem nearest?_of_isDouble {n : Nat} (h : IsDouble n) :
    ∃ x b, nearest? n 1 = some x ∧ Binary.ofFloat? x = some b ∧ b.truncate = n := by
  by_cases hn : n = 0
  · subst hn
    refine ⟨_, ⟨false, 0, leastExponent⟩, rfl, by decide, ?_⟩
    exact Binary.truncate_of_isProduct (Nat.zero_mul _).symm
  obtain ⟨m, k, hm, hvalue, hbound⟩ := h
  have hlow : powTwo n.log2 ≤ n := Nat.log2_self_le hn
  have hhigh : n < powTwo (n.log2 + 1) := Nat.lt_log2_self
  have hlog : n.log2 < 1024 := powTwo_lt_powTwo.mp (Nat.lt_of_le_of_lt hlow hbound)
  by_cases hlarge : 52 ≤ n.log2
  · -- the number is a multiple of the last place of its doubles
    obtain ⟨j, hj⟩ := Nat.exists_eq_add_of_le hlarge
    have hk : j ≤ k := by
      have hlt : powTwo n.log2 < powTwo (53 + k) := by
        rw [powTwo_add]
        refine Nat.lt_of_le_of_lt hlow ?_
        rw [hvalue]
        exact Nat.mul_lt_mul_of_pos_right hm (powTwo_pos k)
      have := powTwo_lt_powTwo.mp hlt
      omega
    obtain ⟨q, hq⟩ : powTwo j ∣ n := by
      rw [hvalue]
      exact Nat.dvd_mul_left_of_dvd (powTwo_dvd_powTwo hk) m
    rw [hj, powTwo_add, Nat.mul_comm, hq] at hlow
    rw [hj, Nat.add_right_comm, powTwo_add, Nat.mul_comm (powTwo (52 + 1)), hq] at hhigh
    refine @nearest?_of_full n q j hn (by omega) (Nat.le_of_mul_le_mul_left hlow (powTwo_pos j))
      (Nat.lt_of_mul_lt_mul_left hhigh) (by omega) ?_
    rw [IsProduct, if_pos (Int.natCast_nonneg j), Int.toNat_natCast, Nat.mul_comm]
    exact hq
  · -- the last place of its doubles is a fraction
    obtain ⟨j, hj⟩ := Nat.exists_eq_add_of_le (Nat.le_of_not_le hlarge)
    have hpower := powTwo_pos j
    refine @nearest?_of_full n (n * powTwo j) (-j) hn (by omega) ?_ ?_ (by omega) ?_
    · rw [hj, powTwo_add]
      exact Nat.mul_le_mul_right _ hlow
    · have hscale : powTwo 53 = powTwo (n.log2 + 1) * powTwo j := by
        rw [← powTwo_add]
        exact congrArg powTwo (by omega)
      rw [hscale]
      exact Nat.mul_lt_mul_of_pos_right hhigh hpower
    · have hneg : ¬ (0 : Int) ≤ -j := by omega
      rw [IsProduct, if_neg hneg, Int.neg_neg, Int.toNat_natCast]

theorem le_divRoundEven (num den : Nat) : num / den ≤ divRoundEven num den := by
  rw [divRoundEven]
  split
  · exact Nat.le_refl _
  · split
    · exact Nat.le_succ _
    · split
      · exact Nat.le_refl _
      · exact Nat.le_succ _

/-- There is no double beyond the greatest one. -/
theorem nearest?_eq_none {n : Nat} (h : powTwo 1024 ≤ n) : nearest? n 1 = none := by
  have hleast : leastExponent = -1074 := rfl
  have hn : n ≠ 0 := Nat.ne_of_gt (Nat.lt_of_lt_of_le (powTwo_pos 1024) h)
  have hhigh : n < powTwo (n.log2 + 1) := Nat.lt_log2_self
  have hlog : 1024 < n.log2 + 1 := powTwo_lt_powTwo.mp (Nat.lt_of_le_of_lt h hhigh)
  obtain ⟨j, hj⟩ : ∃ j, n.log2 = 52 + j := Nat.exists_eq_add_of_le (by omega)
  have hmax : max (floorLog2 n 1 - (fractionBits : Int)) leastExponent = j := by
    rw [floorLog2_one hn, hleast]
    show max ((n.log2 : Int) - ((52 : Nat) : Int)) (-1074) = j
    omega
  have hrounded : powTwo 52 ≤ divRoundEven n (1 * powTwo (j : Int).toNat) := by
    rw [Int.toNat_natCast, Nat.one_mul]
    refine Nat.le_trans ?_ (le_divRoundEven n _)
    rw [Nat.le_div_iff_mul_le (powTwo_pos j), ← powTwo_add, ← hj]
    exact Nat.log2_self_le hn
  rw [nearest?, if_neg hn]
  dsimp only
  rw [hmax, if_pos (Int.natCast_nonneg j)]
  refine if_pos ?_
  show 2047 * powTwo 52 ≤ _ * powTwo 52 + _
  rw [powTwo_52, hleast] at *
  omega

/-- The double nearest to a ratio is finite. -/
theorem exists_ofFloat?_of_nearest? {num den : Nat} {x : Float} (h : nearest? num den = some x) :
    ∃ b, Binary.ofFloat? x = some b := by
  have hword (bits : Nat) (hbits : (if 2047 * powTwo fractionBits ≤ bits then none
      else some (Float.ofBits (UInt64.ofNat bits))) = some x) :
      ∃ b, Binary.ofFloat? x = some b := by
    by_cases hbound : 2047 * powTwo fractionBits ≤ bits
    · rw [if_pos hbound] at hbits
      cases hbits
    · rw [if_neg hbound] at hbits
      cases hbits
      apply Binary.exists_ofFloat?_ofBits
      rw [fractionBits, powTwo_52] at hbound
      rw [exponentField_eq, UInt64.toNat_toBitVec, UInt64.toNat_ofNat', powTwo_52, powTwo_11]
      omega
  rw [nearest?] at h
  by_cases hzero : num = 0
  · rw [if_pos hzero] at h
    cases h
    exact ⟨_, rfl⟩
  · rw [if_neg hzero] at h
    exact hword _ h

end SeqPar.Number
