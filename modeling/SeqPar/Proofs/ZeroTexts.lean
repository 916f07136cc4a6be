import SeqPar.Proofs.WholeTexts

/-!
# Texts that are read as zero

A text is read as a double by rounding the decimal that it spells to the nearest double, half ways to
the even one.  A decimal is therefore read as zero not only when all its digits are zeros: every
decimal up to one half of the least positive double, `2 ^ -1075`, is rounded down to zero.  This file
says so from the bottom up: for the word of a double, for a ratio of two naturals, for digits with a
power of ten, and for a text with blanks and a sign.

## Main definitions

* `Negligible` — a decimal that is at most half of the least positive double.
* `decimalOf?` — the digits of a text and the power of ten that the last of them counts for.
* `SpellsZero` — the text spells a negligible decimal.

## Main results

* `nearest?_beq_zero_iff` — the ratios whose nearest double is zero.
* `nearestDecimal_beq_zero_iff` — the same for decimals; the shortcuts for very large and very small
  decimals are exact.
* `readDecimal?_eq` — a text is read by rounding its decimal.
* `readFloat?_eq_zero_iff` — the texts that are read as zero.
-/

namespace SeqPar.Number

open Float.Model (UnpackedFloat)
open SeqPar.Text

/-! ### Doubles that are zero -/

/-- A double is zero when its significand is, whatever its sign. -/
theorem beq_zero_iff (x : Float) :
    (x == 0) = true ↔ ∃ b, Binary.ofFloat? x = some b ∧ b.significand = 0 := by
  have hbeq : (x == 0) = x.toModel.unpack.beq (.zero .positive) := rfl
  rw [hbeq, Binary.ofFloat?_eq]
  cases x.toModel.unpack with
  | notANumber =>
    refine iff_of_false Bool.false_ne_true ?_
    rintro ⟨b, hb, -⟩
    cases hb
  | infinity s =>
    refine iff_of_false ?_ ?_
    · cases s <;> exact Bool.false_ne_true
    · rintro ⟨b, hb, -⟩
      cases hb
  | zero s => exact iff_of_true rfl ⟨_, rfl, rfl⟩
  | finite s m e hm =>
    refine iff_of_false ?_ ?_
    · cases s <;> exact Bool.false_ne_true
    · rintro ⟨b, hb, hsignificand⟩
      cases hb
      exact Nat.ne_of_gt hm hsignificand

/-- Of the words of finite doubles without a sign only the first is a zero. -/
theorem ofBits_beq_zero_iff {bits : Nat} (h : bits < 2047 * powTwo 52) :
    (Float.ofBits (UInt64.ofNat bits) == 0) = true ↔ bits = 0 := by
  rw [powTwo_52] at h
  generalize hw : UInt64.ofNat bits = w
  have hbits : w.toBitVec.toNat = bits := by
    rw [← hw, UInt64.toNat_toBitVec, UInt64.toNat_ofNat']
    omega
  have hexponent : exponentField w.toBitVec = bits / 4503599627370496 := by
    rw [exponentField_eq, hbits, powTwo_52, powTwo_11]
    omega
  have hfraction : fractionField w.toBitVec = bits % 4503599627370496 := by
    rw [fractionField_eq, hbits, powTwo_52]
  rw [beq_zero_iff, Binary.ofFloat?_ofBits]
  by_cases hzero : exponentField w.toBitVec = 0
  · by_cases hm : fractionField w.toBitVec = 0
    · rw [unpack_zero hzero hm]
      exact ⟨fun _ => by omega, fun _ => ⟨_, rfl, rfl⟩⟩
    · rw [unpack_short hzero (Nat.pos_of_ne_zero hm), Binary.ofUnpacked?_finite]
      constructor
      · rintro ⟨b, hb, hsignificand⟩
        cases hb
        exact absurd hsignificand hm
      · omega
  · -- The leading bit, which is not stored, keeps the significand from being zero.
    rw [unpack_full hzero (by omega), Binary.ofUnpacked?_finite]
    have hpos := powTwo_pos 52
    constructor
    · rintro ⟨b, hb, hsignificand⟩
      cases hb
      dsimp only at hsignificand
      omega
    · omega

/-! ### Ratios that are rounded to zero -/

theorem divRoundEven_eq_zero_iff (num : Nat) {den : Nat} (hden : 0 < den) :
    divRoundEven num den = 0 ↔ 2 * num ≤ den := by
  by_cases hlt : num < den
  · rw [divRoundEven, Nat.div_eq_of_lt hlt, Nat.mod_eq_of_lt hlt]
    split
    · omega
    · split
      · omega
      · rw [if_pos rfl]
        omega
  · have hquotient : 0 < num / den := Nat.div_pos (Nat.le_of_not_lt hlt) hden
    have hle := le_divRoundEven num den
    omega

/-- A bound on a ratio from below, by its binary logarithm. -/
theorem le_mul_of_floorLog2 {num den : Nat} (hnum : num ≠ 0) {k : Nat}
    (h : -(k : Int) ≤ floorLog2 num den) : den ≤ num * powTwo k := by
  have hlow : powTwo num.log2 ≤ num := Nat.log2_self_le hnum
  have hhigh : den < powTwo (den.log2 + 1) := Nat.lt_log2_self
  -- A ratio that is large enough for the bits of its two numbers alone.
  have hbits (hk : den.log2 + 1 ≤ num.log2 + k) : den ≤ num * powTwo k := by
    calc den ≤ powTwo (den.log2 + 1) := Nat.le_of_lt hhigh
      _ ≤ powTwo (num.log2 + k) := Nat.le_of_dvd (powTwo_pos _) (powTwo_dvd_powTwo hk)
      _ = powTwo num.log2 * powTwo k := powTwo_add _ _
      _ ≤ num * powTwo k := Nat.mul_le_mul_right _ hlow
  have hscale {j : Nat} (hj : j ≤ k) (hden : den ≤ num * powTwo j) : den ≤ num * powTwo k :=
    Nat.le_trans hden
      (Nat.mul_le_mul_left num (Nat.le_of_dvd (powTwo_pos _) (powTwo_dvd_powTwo hj)))
  rw [floorLog2] at h
  split at h
  · next hsign =>
    split at h
    · exact hbits (by omega)
    · next hle =>
      have hone : den * 1 ≤ den * powTwo ((num.log2 : Int) - den.log2).toNat :=
        Nat.mul_le_mul_left den (powTwo_pos _)
      have hzero : num * powTwo 0 = num := Nat.mul_one num
      exact hscale (Nat.zero_le k) (by omega)
  · next hsign =>
    split at h
    · exact hbits (by omega)
    · next hle => exact hscale (by omega) (Nat.le_of_not_lt hle)

/-- A word that is made up of an exponent and a significand is a zero only when both are; beyond the
greatest double there is no word. -/
theorem word_beq_zero_iff (bits : Nat) :
    ((if 2047 * powTwo 52 ≤ bits then none else some (Float.ofBits (UInt64.ofNat bits))).getD
      infinity == 0) = true ↔ bits = 0 := by
  by_cases hbound : 2047 * powTwo 52 ≤ bits
  · rw [if_pos hbound]
    have hpos := powTwo_pos 52
    exact iff_of_false Bool.false_ne_true (by omega)
  · rw [if_neg hbound]
    exact ofBits_beq_zero_iff (Nat.lt_of_not_le hbound)

/-- **The double nearest to a ratio is zero exactly when the ratio is at most half of the least
positive double.** -/
theorem nearest?_beq_zero_iff {num den : Nat} (hnum : num ≠ 0) (hden : 0 < den) :
    ((nearest? num den).getD infinity == 0) = true ↔ num * powTwo 1075 ≤ den := by
  have hleast : leastExponent = -1074 := rfl
  have hbits : (fractionBits : Int) = 52 := rfl
  rw [nearest?, if_neg hnum]
  generalize he : max (floorLog2 num den - (fractionBits : Int)) leastExponent = e
  refine (word_beq_zero_iff _).trans ?_
  have hpos := powTwo_pos 52
  by_cases hsmall : e = leastExponent
  · -- The significand counts the least doubles, and up to one half of one there are none.
    have htwice : num * powTwo 1075 = 2 * (num * powTwo 1074) := by
      rw [powTwo_add 1 1074, Nat.mul_left_comm]
      rfl
    rw [hsmall, if_neg (by decide), Int.sub_self, htwice, ← divRoundEven_eq_zero_iff _ hden]
    show 0 * _ + _ = 0 ↔ _
    rw [Nat.zero_mul, Nat.zero_add]
    rfl
  · have hratio : den ≤ num * powTwo 1021 := le_mul_of_floorLog2 hnum (by omega)
    have hless : num * powTwo 1021 < num * powTwo 1075 :=
      Nat.mul_lt_mul_of_pos_left (powTwo_lt_powTwo.mpr (by decide)) (Nat.pos_of_ne_zero hnum)
    have hexponent : 1 * powTwo 52 ≤ (e - leastExponent).toNat * powTwo 52 :=
      Nat.mul_le_mul_right _ (by omega)
    refine iff_of_false ?_ (by omega)
    show ¬ (e - leastExponent).toNat * powTwo 52 + _ = 0
    omega

/-! ### Decimals that are rounded to zero -/

/-- The decimal `n · 10 ^ e` is at most half of the least positive double, which is `2 ^ -1074`. -/
def Negligible (n : Nat) (e : Int) : Prop :=
  n * powTwo 1075 * powTen e.toNat ≤ powTen (-e).toNat

theorem powTen_add (j k : Nat) : powTen (j + k) = powTen j * powTen k :=
  Nat.pow_add 10 j k

/-- A number that is not zero is far above half of the least positive double. -/
theorem not_negligible_of_le {n : Nat} {e : Int} (h : powTen (-e).toNat ≤ n) : ¬ Negligible n e := by
  have hpos := powTen_pos (-e).toNat
  have hscale : n * 1 < n * powTwo 1075 :=
    Nat.mul_lt_mul_of_pos_left (powTwo_lt_powTwo (j := 0).mpr (by decide)) (by omega)
  have hpower : n * powTwo 1075 * 1 ≤ n * powTwo 1075 * powTen e.toNat :=
    Nat.mul_le_mul_left _ (powTen_pos _)
  unfold Negligible
  omega

/-- A decimal far below one is negligible. -/
theorem negligible_of_lt {n digits : Nat} {e : Int} (hn : n < powTen digits)
    (he : e + digits < -400) : Negligible n e := by
  have hpower : powTwo 1075 ≤ powTen 400 :=
    Nat.le_trans (Nat.le_of_lt (powTwo_lt_powTwo.mpr (by decide))) (powTwo_le_powTen 400)
  have hexponent : e.toNat = 0 := by omega
  calc n * powTwo 1075 * powTen e.toNat
      = n * powTwo 1075 := by rw [hexponent]; exact Nat.mul_one _
    _ ≤ powTen digits * powTen 400 := Nat.mul_le_mul (Nat.le_of_lt hn) hpower
    _ = powTen (digits + 400) := (powTen_add digits 400).symm
    _ ≤ powTen (-e).toNat := powTen_le (by omega)

/-- The double nearest to a decimal is zero exactly when the decimal is negligible.  The number of
digits tells the size of the number. -/
theorem nearestDecimal_beq_zero_iff {n digits : Nat} (e : Int)
    (hlow : n ≠ 0 → powTen (digits - 1) ≤ n) (hhigh : n < powTen digits) :
    (nearestDecimal n digits e == 0) = true ↔ Negligible n e := by
  rw [nearestDecimal]
  by_cases hn : n = 0
  · rw [if_pos hn]
    refine iff_of_true rfl ?_
    rw [Negligible, hn, Nat.zero_mul, Nat.zero_mul]
    exact Nat.zero_le _
  rw [if_neg hn]
  have hdigits : digits ≠ 0 := by
    rintro rfl
    exact hn (Nat.lt_one_iff.mp hhigh)
  -- The size of the decimal decides at both ends of the range; rounding decides between them.
  by_cases hlarge : 400 < e + digits
  · rw [if_pos hlarge]
    refine iff_of_false Bool.false_ne_true (not_negligible_of_le ?_)
    exact Nat.le_trans (powTen_le (by omega)) (hlow hn)
  rw [if_neg hlarge]
  by_cases htiny : e + digits < -400
  · rw [if_pos htiny]
    exact iff_of_true rfl (negligible_of_lt hhigh htiny)
  rw [if_neg htiny, Negligible]
  by_cases hsign : 0 ≤ e
  · have hexponent : (-e).toNat = 0 := by omega
    rw [if_pos hsign, hexponent, Nat.mul_right_comm]
    exact nearest?_beq_zero_iff (Nat.mul_ne_zero hn (Nat.ne_of_gt (powTen_pos _))) Nat.one_pos
  · have hexponent : e.toNat = 0 := by omega
    rw [if_neg hsign, hexponent]
    have hone : n * powTwo 1075 * powTen 0 = n * powTwo 1075 := Nat.mul_one _
    rw [hone]
    exact nearest?_beq_zero_iff hn (powTen_pos _)

/-! ### Texts -/

/-- The digits behind a point, if there is one, and what follows them. -/
def takeFraction : List Char → List Nat × List Char
  | '.' :: cs => takeDigits cs
  | cs => ([], cs)

/-- The digits of a decimal without sign, and the power of ten that the last of them counts for. -/
def decimalOf? (cs : List Char) : Option (List Nat × Int) :=
  let (whole, afterWhole) := takeDigits cs
  let (fraction, afterFraction) := takeFraction afterWhole
  if whole.isEmpty && fraction.isEmpty then none
  else match takeExponent afterFraction with
    | some (e, []) => some (whole ++ fraction, e - fraction.length)
    | _ => none

/-- The text spells a decimal, with or without a sign, that is at most half of the least positive
double. -/
def SpellsZero (s : String) : Prop :=
  ∃ ds e, decimalOf? (takeSign (trimNumber s.toList)).2 = some (ds, e) ∧ Negligible (ofDigits ds) e

/-- The double nearest to a decimal. -/
def doubleOfDecimal (decimal : List Nat × Int) : Float :=
  let ds := decimal.1.dropWhile (· == 0)
  nearestDecimal (ofDigits ds) ds.length decimal.2

/-- A decimal is read as the double nearest to it. -/
theorem readDecimal?_eq (cs : List Char) :
    readDecimal? cs = (decimalOf? cs).map doubleOfDecimal := by
  have hparts : readDecimal? cs =
      let (whole, afterWhole) := takeDigits cs
      let (fraction, afterFraction) := takeFraction afterWhole
      if whole.isEmpty && fraction.isEmpty then none
      else match takeExponent afterFraction with
        | some (e, []) => some (doubleOfDecimal (whole ++ fraction, e - fraction.length))
        | _ => none := rfl
  rw [hparts, decimalOf?]
  obtain ⟨whole, afterWhole⟩ := takeDigits cs
  dsimp only
  obtain ⟨fraction, afterFraction⟩ := takeFraction afterWhole
  dsimp only
  split
  · rfl
  · split
    · rfl
    · rfl

theorem lt_ten_of_mem_takeFraction (cs : List Char) : ∀ d ∈ (takeFraction cs).1, d < 10 := by
  unfold takeFraction
  split
  · exact lt_ten_of_mem_takeDigits _
  · exact List.forall_mem_nil _

theorem lt_ten_of_decimalOf? {cs : List Char} {ds : List Nat} {e : Int}
    (h : decimalOf? cs = some (ds, e)) : ∀ d ∈ ds, d < 10 := by
  rw [decimalOf?] at h
  dsimp only at h
  split at h
  · cases h
  · split at h
    · cases h
      exact List.forall_mem_append.mpr
        ⟨lt_ten_of_mem_takeDigits cs, lt_ten_of_mem_takeFraction (takeDigits cs).2⟩
    · cases h

/-- A decimal starts with a digit or a point. -/
theorem decimalOf?_cons_eq_none {c : Char} (hdigit : digitValue? c = none) (hpoint : c ≠ '.')
    (cs : List Char) : decimalOf? (c :: cs) = none := by
  have hwhole : takeDigits (c :: cs) = ([], c :: cs) := by rw [takeDigits, hdigit]
  have hfraction : takeFraction (c :: cs) = ([], c :: cs) := by
    unfold takeFraction
    split
    · next heq =>
      cases heq
      exact absurd rfl hpoint
    · rfl
  rw [decimalOf?, hwhole]
  dsimp only
  rw [hfraction]
  rfl

/-- The double nearest to a decimal is zero exactly when the decimal is negligible. -/
theorem doubleOfDecimal_beq_zero_iff {ds : List Nat} (h : ∀ d ∈ ds, d < 10) (e : Int) :
    (doubleOfDecimal (ds, e) == 0) = true ↔ Negligible (ofDigits ds) e := by
  rw [← ofDigits_dropWhile]
  refine nearestDecimal_beq_zero_iff e (fun hn => powTen_le_ofDigits ?_) (ofDigits_lt ?_)
  · intro hnil
    rw [hnil] at hn
    exact hn rfl
  · exact fun d hd => h d ((List.dropWhile_sublist _).subset hd)

/-- A word for an infinity or for no number is no decimal. -/
theorem decimalOf?_eq_none_of_lowerAscii {cs rest : List Char} {first : Char}
    (hlow : 58 ≤ first.toNat) (hhigh : first.toNat < 1632)
    (h : lowerAscii cs = first :: rest) : decimalOf? cs = none := by
  cases cs with
  | nil => cases h
  | cons c cs =>
    have hc : c.toLower = first := (List.cons.inj h).1
    refine decimalOf?_cons_eq_none (digitValue?_of_toLower hc hlow hhigh) ?_ cs
    rintro rfl
    subst hc
    exact absurd hlow (by decide)

/-- The texts without a sign that are read as zero. -/
theorem readUnsigned?_eq_zero_iff (cs : List Char) :
    (∃ x, readUnsigned? cs = some x ∧ (x == 0) = true) ↔
      ∃ ds e, decimalOf? cs = some (ds, e) ∧ Negligible (ofDigits ds) e := by
  have hword {first : Char} {rest : List Char} {x : Float} (hlow : 58 ≤ first.toNat)
      (hhigh : first.toNat < 1632) (h : lowerAscii cs = first :: rest) (hx : (x == 0) = false) :
      (∃ y, some x = some y ∧ (y == 0) = true) ↔
        ∃ ds e, decimalOf? cs = some (ds, e) ∧ Negligible (ofDigits ds) e := by
    rw [decimalOf?_eq_none_of_lowerAscii hlow hhigh h]
    refine iff_of_false ?_ ?_
    · rintro ⟨y, hy, hzero⟩
      cases hy
      rw [hx] at hzero
      cases hzero
    · rintro ⟨ds, e, hnone, -⟩
      cases hnone
  -- The words for infinities and for what is not a number spell neither a zero nor a decimal.
  have hinf : "inf".toList = ['i', 'n', 'f'] := rfl
  have hinfinity : "infinity".toList = ['i', 'n', 'f', 'i', 'n', 'i', 't', 'y'] := rfl
  have hnan : "nan".toList = ['n', 'a', 'n'] := rfl
  rw [readUnsigned?, hinf, hinfinity, hnan]
  split
  · next hinfinite =>
    rcases Bool.or_eq_true_iff.mp hinfinite with h | h
    · exact hword (by decide) (by decide) (beq_iff_eq.mp h) rfl
    · exact hword (by decide) (by decide) (beq_iff_eq.mp h) rfl
  · split
    · next h => exact hword (by decide) (by decide) (beq_iff_eq.mp h) rfl
    · rw [readDecimal?_eq]
      constructor
      · rintro ⟨x, hx, hzero⟩
        obtain ⟨⟨ds, e⟩, hdecimal, rfl⟩ := Option.map_eq_some_iff.mp hx
        exact ⟨ds, e, hdecimal,
          (doubleOfDecimal_beq_zero_iff (lt_ten_of_decimalOf? hdecimal) e).mp hzero⟩
      · rintro ⟨ds, e, hdecimal, hnegligible⟩
        exact ⟨_, Option.map_eq_some_iff.mpr ⟨_, hdecimal, rfl⟩,
          (doubleOfDecimal_beq_zero_iff (lt_ten_of_decimalOf? hdecimal) e).mpr hnegligible⟩

theorem neg_beq_zero (x : Float) : (-x == 0) = (x == 0) := by
  rw [Bool.eq_iff_iff, beq_zero_iff, beq_zero_iff, Binary.ofFloat?_neg]
  cases Binary.ofFloat? x with
  | none => exact Iff.rfl
  | some b =>
    constructor
    · rintro ⟨_, hb, hsignificand⟩
      cases hb
      exact ⟨b, rfl, hsignificand⟩
    · rintro ⟨_, hb, hsignificand⟩
      cases hb
      exact ⟨b.negated, rfl, hsignificand⟩

/-- **A text is read as zero exactly when it spells a decimal that is at most half of the least
positive double.** -/
theorem readFloat?_eq_zero_iff (s : String) :
    (∃ x, readFloat? s = some x ∧ (x == 0) = true) ↔ SpellsZero s := by
  rw [readFloat?, SpellsZero]
  obtain ⟨negative, body⟩ := takeSign (trimNumber s.toList)
  rw [← readUnsigned?_eq_zero_iff]
  have hsign (x : Float) : ((if negative then -x else x) == 0) = (x == 0) := by
    cases negative with
    | true => exact neg_beq_zero x
    | false => rfl
  constructor
  · rintro ⟨_, hx, hzero⟩
    obtain ⟨x, hread, rfl⟩ := Option.map_eq_some_iff.mp hx
    exact ⟨x, hread, (hsign x).symm.trans hzero⟩
  · rintro ⟨x, hread, hzero⟩
    exact ⟨_, Option.map_eq_some_iff.mpr ⟨x, hread, rfl⟩, (hsign x).trans hzero⟩

end SeqPar.Number
