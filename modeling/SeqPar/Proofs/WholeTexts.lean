import SeqPar.Proofs.Doubles
import SeqPar.Value.Arith

/-!
# Texts that spell whole numbers

A text of digits can be read in two ways.  Read as a whole number it is the number that its digits
stand for.  Read as a double it is the nearest double, and where a number is needed its whole part
is taken.  The two agree exactly on the numbers that are doubles: on others the second way gives a
different number, or none when the nearest double would be infinite.

## Main definitions

* `doubleOfDigits` — the double nearest to the number that digits stand for.

## Main results

* `ofDigits_cons`, `ofDigits_dropWhile` — the value of a digit by its place; leading zeros.
* `powTen_le_ofDigits`, `ofDigits_lt` — how large a number is by the number of its digits.
* `readUnsigned?_digits` — digits are read as the nearest double.
* `doubleOfDigits_cases` — when that double is finite, and when it is exact.
* `numberOfText_digits` — **the number that a text of digits counts as.**
-/

namespace SeqPar.Number

open SeqPar.Text

/-! ### Digits -/

/-- Three binary digits make less than one decimal digit. -/
theorem powTwo_le_powTen (k : Nat) : powTwo (3 * k) ≤ powTen k := by
  induction k with
  | zero => exact Nat.le_refl 1
  | succ k ih =>
    have height : powTwo 3 = 8 := rfl
    rw [Nat.mul_succ, powTwo_add, powTen_succ, height]
    omega

theorem foldl_digits (ds : List Nat) (start : Nat) :
    ds.foldl (fun n d => 10 * n + d) start = start * powTen ds.length + ofDigits ds := by
  induction ds generalizing start with
  | nil => exact (Nat.mul_one start).symm
  | cons d ds ih =>
    rw [ofDigits, List.foldl_cons, List.foldl_cons, ih, ih, List.length_cons, powTen_succ]
    grind

/-- The first digit counts for its place. -/
theorem ofDigits_cons (d : Nat) (ds : List Nat) :
    ofDigits (d :: ds) = d * powTen ds.length + ofDigits ds := by
  rw [ofDigits, List.foldl_cons, foldl_digits, Nat.mul_zero, Nat.zero_add]

/-- Leading zeros do not count. -/
theorem ofDigits_dropWhile (ds : List Nat) : ofDigits (ds.dropWhile (· == 0)) = ofDigits ds := by
  induction ds with
  | nil => rfl
  | cons d ds ih =>
    by_cases hd : d = 0
    · rw [List.dropWhile_cons_of_pos (by simp [hd]), ih, ofDigits_cons, hd, Nat.zero_mul,
        Nat.zero_add]
    · rw [List.dropWhile_cons_of_neg (by simp [hd])]

theorem lt_ten_of_digitValue? {c : Char} {d : Nat} (h : digitValue? c = some d) : d < 10 := by
  obtain ⟨start, hstart, rfl⟩ := Option.map_eq_some_iff.mp h
  have hrange := List.find?_some hstart
  simp only [Bool.and_eq_true, decide_eq_true_eq] at hrange
  omega

theorem lt_ten_of_mem_takeDigitsAfter (cs : List Char) : ∀ d ∈ (takeDigitsAfter cs).1, d < 10 := by
  fun_induction takeDigitsAfter cs with
  | case1 => nofun
  | case2 c cs d hd ds rest hrest ih =>
    rw [hrest] at ih
    exact List.forall_mem_cons.mpr ⟨lt_ten_of_digitValue? hd, ih⟩
  | case3 => nofun
  | case4 c cs _ d hd ds rest hrest ih =>
    rw [hrest] at ih
    exact List.forall_mem_cons.mpr ⟨lt_ten_of_digitValue? hd, ih⟩
  | case5 => nofun

theorem lt_ten_of_mem_takeDigits (cs : List Char) : ∀ d ∈ (takeDigits cs).1, d < 10 := by
  fun_cases takeDigits cs with
  | case1 => nofun
  | case2 c cs d hd ds rest hrest =>
    have hds := lt_ten_of_mem_takeDigitsAfter cs
    rw [hrest] at hds
    exact List.forall_mem_cons.mpr ⟨lt_ten_of_digitValue? hd, hds⟩
  | case3 => nofun

/-- Decimal digits behind a number add as many digits to it. -/
theorem foldl_digits_lt {ds : List Nat} (h : ∀ d ∈ ds, d < 10) (n : Nat) :
    ds.foldl (fun n d => 10 * n + d) n < (n + 1) * powTen ds.length := by
  induction ds generalizing n with
  | nil => exact Nat.lt_of_lt_of_eq (Nat.lt_succ_self n) (Nat.mul_one (n + 1)).symm
  | cons d ds ih =>
    obtain ⟨hd, hds⟩ := List.forall_mem_cons.mp h
    calc ds.foldl (fun n d => 10 * n + d) (10 * n + d)
        < (10 * n + d + 1) * powTen ds.length := ih hds _
      _ ≤ ((n + 1) * 10) * powTen ds.length := Nat.mul_le_mul_right _ (by omega)
      _ = (n + 1) * powTen (ds.length + 1) := by
        rw [powTen_succ, Nat.mul_assoc, Nat.mul_comm 10]

theorem ofDigits_lt {ds : List Nat} (h : ∀ d ∈ ds, d < 10) : ofDigits ds < powTen ds.length := by
  simpa [ofDigits] using foldl_digits_lt h 0

/-- The first digit that is not zero tells the size of a number. -/
theorem powTen_le_ofDigits {ds : List Nat} (h : ds.dropWhile (· == 0) ≠ []) :
    powTen ((ds.dropWhile (· == 0)).length - 1) ≤ ofDigits (ds.dropWhile (· == 0)) := by
  obtain ⟨d, rest, hds⟩ := List.exists_cons_of_ne_nil h
  have hd : (d == 0) = false := by
    have hfirst := List.head?_dropWhile_not (· == 0) ds
    rw [hds] at hfirst
    exact hfirst
  have hpos : 1 ≤ d := Nat.pos_of_ne_zero (ne_of_beq_false hd)
  have hfirst : 1 * powTen rest.length ≤ d * powTen rest.length := Nat.mul_le_mul_right _ hpos
  rw [hds, ofDigits_cons, List.length_cons, Nat.add_sub_cancel]
  omega

/-- A number with more than four hundred digits lies beyond the doubles. -/
theorem not_isDouble_of_length {ds : List Nat} (h : 400 < (ds.dropWhile (· == 0)).length) :
    ¬ IsDouble (ofDigits ds) := by
  rintro ⟨m, e, -, -, hlt⟩
  have hsize := powTen_le_ofDigits (List.ne_nil_of_length_pos (Nat.zero_lt_of_lt h))
  have hpower : powTen 400 ≤ powTen ((ds.dropWhile (· == 0)).length - 1) := powTen_le (by omega)
  have hbound : powTwo 1024 < powTwo (3 * 400) := powTwo_lt_powTwo.mpr (by decide)
  have hscale := powTwo_le_powTen 400
  rw [ofDigits_dropWhile] at hsize
  omega

/-! ### Digits as doubles -/

/-- The double nearest to the number that digits stand for. -/
def doubleOfDigits (ds : List Nat) : Float :=
  nearestDecimal (ofDigits (ds.dropWhile (· == 0))) (ds.dropWhile (· == 0)).length 0

/-- The positive infinity. -/
def infinity : Float :=
  Float.ofBits 0x7ff0000000000000

theorem nearest?_doubleOfDigits (ds : List Nat) :
    nearest? (ofDigits ds) 1 = some (doubleOfDigits ds) ∨
    doubleOfDigits ds = infinity ∧ ¬ IsDouble (ofDigits ds) := by
  rw [doubleOfDigits, nearestDecimal, ofDigits_dropWhile]
  by_cases hzero : ofDigits ds = 0
  · rw [if_pos hzero, hzero]
    exact .inl rfl
  rw [if_neg hzero]
  by_cases hlong : 400 < (0 : Int) + (ds.dropWhile (· == 0)).length
  · rw [if_pos hlong]
    exact .inr ⟨rfl, not_isDouble_of_length (by omega)⟩
  have hscale : ofDigits ds * powTen (0 : Int).toNat = ofDigits ds := Nat.mul_one _
  rw [if_neg hlong, if_neg (by omega), if_pos (Int.le_refl 0), hscale]
  cases hnearest : nearest? (ofDigits ds) 1 with
  | some x => exact .inl rfl
  | none =>
    refine .inr ⟨rfl, fun hdouble => ?_⟩
    obtain ⟨x, b, hx, -⟩ := nearest?_of_isDouble hdouble
    rw [hnearest] at hx
    cases hx

/-- The nearest double is finite, and exact for a number that is a double; or it is infinite, and
the number is none. -/
theorem doubleOfDigits_cases (ds : List Nat) :
    (∃ b, Binary.ofFloat? (doubleOfDigits ds) = some b ∧
      (IsDouble (ofDigits ds) → b.truncate = ofDigits ds)) ∨
    doubleOfDigits ds = infinity ∧ ¬ IsDouble (ofDigits ds) := by
  refine (nearest?_doubleOfDigits ds).imp_left fun hnearest => ?_
  obtain ⟨b, hb⟩ := exists_ofFloat?_of_nearest? hnearest
  refine ⟨b, hb, fun hdouble => ?_⟩
  obtain ⟨x, b', hx, hb', htruncate⟩ := nearest?_of_isDouble hdouble
  obtain rfl : doubleOfDigits ds = x := Option.some.inj (hnearest.symm.trans hx)
  obtain rfl : b = b' := Option.some.inj (hb.symm.trans hb')
  exact htruncate

theorem readDecimal?_digits {cs : List Char} {ds : List Nat} (h : takeDigits cs = (ds, []))
    (hds : ds ≠ []) : readDecimal? cs = some (doubleOfDigits ds) := by
  obtain ⟨d, ds, rfl⟩ := List.exists_cons_of_ne_nil hds
  rw [readDecimal?, h]
  simp [takeExponent, doubleOfDigits]

/-- The digits are the ten of ASCII and others far behind the ASCII letters. -/
theorem code_of_digitValue? {c : Char} {d : Nat} (h : digitValue? c = some d) :
    48 ≤ c.toNat ∧ c.toNat < 58 ∨ 1632 ≤ c.toNat := by
  have hzeros : ∀ start ∈ zeroCodes, start = 48 ∨ 1632 ≤ start := by decide
  obtain ⟨start, hfind, -⟩ := Option.map_eq_some_iff.mp h
  have hrange := List.find?_some hfind
  rw [Bool.and_eq_true, decide_eq_true_iff, decide_eq_true_iff] at hrange
  have hstart := hzeros start (List.mem_of_find?_eq_some hfind)
  omega

theorem toLower_of_digitValue? {c : Char} {d : Nat} (h : digitValue? c = some d) :
    c.toLower = c := by
  have hcode := code_of_digitValue? h
  delta Char.toLower
  rw [dif_neg]
  rintro ⟨hlow, hhigh⟩
  have hlow : 65 ≤ c.toNat := hlow
  have hhigh : c.toNat ≤ 90 := hhigh
  omega

/-- No letter of ASCII is a digit, in either case. -/
theorem digitValue?_of_toLower {c first : Char} (h : c.toLower = first) (hlow : 58 ≤ first.toNat)
    (hhigh : first.toNat < 1632) : digitValue? c = none := by
  cases hvalue : digitValue? c with
  | none => rfl
  | some d =>
    have hcode := code_of_digitValue? hvalue
    rw [toLower_of_digitValue? hvalue] at h
    subst h
    omega

/-- What starts with a digit is no word for an infinity or for no number. -/
theorem readUnsigned?_digits {cs : List Char} {ds : List Nat} (h : takeDigits cs = (ds, []))
    (hds : ds ≠ []) : readUnsigned? cs = some (doubleOfDigits ds) := by
  cases cs with
  | nil =>
    cases h
    exact absurd rfl hds
  | cons c cs =>
    have hdigit : digitValue? c ≠ none := by
      intro hvalue
      rw [takeDigits, hvalue] at h
      exact hds (congrArg Prod.fst h).symm
    have hword (first : Char) (rest : List Char) (hfirst : 58 ≤ first.toNat)
        (hfirst' : first.toNat < 1632) : (lowerAscii (c :: cs) == first :: rest) = false := by
      apply beq_false_of_ne
      intro heq
      exact hdigit (digitValue?_of_toLower (List.cons.inj heq).1 hfirst hfirst')
    have hinf : "inf".toList = ['i', 'n', 'f'] := rfl
    have hinfinity : "infinity".toList = ['i', 'n', 'f', 'i', 'n', 'i', 't', 'y'] := rfl
    have hnan : "nan".toList = ['n', 'a', 'n'] := rfl
    rw [readUnsigned?, hinf, hinfinity, hnan]
    rw [hword 'i' _ (by decide) (by decide), hword 'i' _ (by decide) (by decide),
      hword 'n' _ (by decide) (by decide)]
    exact readDecimal?_digits h hds

/-! ### Signs -/

theorem Binary.truncate_negated (b : Binary) : b.negated.truncate = -b.truncate := by
  show (if !b.negative then _ else _) = -(if b.negative then _ else _)
  cases b.negative with
  | true => exact (Int.neg_neg _).symm
  | false => rfl

/-- A number with a sign in front of it. -/
def withSign (negative : Bool) (n : Nat) : Int :=
  if negative then -(n : Int) else n

theorem natAbs_withSign (negative : Bool) (n : Nat) : (withSign negative n).natAbs = n := by
  cases negative with
  | true => exact (Int.natAbs_neg _).trans (Int.natAbs_natCast n)
  | false => exact Int.natAbs_natCast n

/-- A text that is a sign and digits, but for blanks around it. -/
def SpellsDigits (s : String) (negative : Bool) (ds : List Nat) : Prop :=
  ∃ body, takeSign (trimNumber s.toList) = (negative, body) ∧ takeDigits body = (ds, []) ∧ ds ≠ []

theorem SpellsDigits.readFloat? {s : String} {negative : Bool} {ds : List Nat}
    (h : SpellsDigits s negative ds) : readFloat? s =
      some (if negative then -doubleOfDigits ds else doubleOfDigits ds) := by
  obtain ⟨body, hsign, hdigits, hds⟩ := h
  rw [Number.readFloat?, hsign]
  dsimp only
  rw [readUnsigned?_digits hdigits hds, Option.map_some]

/-- A text that is read as a whole number is a sign and digits. -/
theorem spellsDigits_of_readInt? {s : String} {n : Int} (h : readInt? s = some n) :
    ∃ negative ds, SpellsDigits s negative ds ∧ n = withSign negative (ofDigits ds) := by
  have hread : readInt s = .value n := by
    rw [readInt?] at h
    split at h
    · next m hm =>
      cases h
      exact hm
    · cases h
  rw [readInt] at hread
  rcases hsign : takeSign (trimNumber s.toList) with ⟨negative, body⟩
  rcases hdigits : takeDigits body with ⟨ds, rest⟩
  rw [hsign] at hread
  dsimp only at hread
  rw [hdigits] at hread
  split at hread
  · cases hread
  · cases hread
  · next hds _ heq =>
    cases heq
    split at hread
    · cases hread
    · split at hread
      · next hrest =>
        rw [List.isEmpty_iff] at hrest
        subst hrest
        cases hread
        exact ⟨negative, ds, ⟨body, hsign, hdigits, hds⟩, rfl⟩
      · cases hread

end SeqPar.Number

namespace SeqPar

open SeqPar.Number

/-- **The number that a text of digits counts as.**  It is a double in any case, and the number that
the digits stand for if that is one; a text counts as no number when the nearest double is
infinite. -/
theorem numberOfText_digits {s : String} {negative : Bool} {ds : List Nat}
    (h : SpellsDigits s negative ds) :
    (∃ t : Int, numberOfText s = .ok (some (.int t)) ∧ IsDouble t.natAbs ∧
      (IsDouble (ofDigits ds) → t = withSign negative (ofDigits ds))) ∨
    (¬ IsDouble (ofDigits ds) ∧ numberOfText s = .error .wholeOfInfinity) := by
  rw [numberOfText, h.readFloat?]
  obtain ⟨b, hb, hexact⟩ | ⟨hinfinite, hdouble⟩ := doubleOfDigits_cases ds
  · left
    have hsigned : ∃ b', Binary.ofFloat? (if negative then -doubleOfDigits ds
        else doubleOfDigits ds) = some b' ∧
        (IsDouble (ofDigits ds) → b'.truncate = withSign negative (ofDigits ds)) := by
      cases negative with
      | true =>
        refine ⟨b.negated, ?_, fun hdouble => ?_⟩
        · rw [if_pos rfl, Binary.ofFloat?_neg, hb, Option.map_some]
        · rw [Binary.truncate_negated, hexact hdouble]
          rfl
      | false => exact ⟨b, hb, hexact⟩
    obtain ⟨b', hb', htruncate⟩ := hsigned
    refine ⟨b'.truncate, ?_, isDouble_truncate hb', htruncate⟩
    dsimp only
    rw [isNaN_of_ofFloat? hb', wholePart, hb']
    rfl
  · right
    refine ⟨hdouble, ?_⟩
    rw [hinfinite]
    cases negative with
    | true => rfl
    | false => rfl

end SeqPar
