/-!
# Powers of two and of ten

The scales of binary and decimal numbers.

## Main definitions

* `powTwo`, `powTen` — the powers of two and of ten.
-/

namespace SeqPar.Number

/-- The power of two with the given exponent. -/
def powTwo (exponent : Nat) : Nat :=
  Nat.pow 2 exponent

/-- The power of ten with the given exponent. -/
def powTen (exponent : Nat) : Nat :=
  Nat.pow 10 exponent

theorem powTen_succ (k : Nat) : powTen (k + 1) = powTen k * 10 := rfl

theorem powTen_pos (k : Nat) : 0 < powTen k :=
  Nat.pow_pos (by decide)

theorem powTen_le {j k : Nat} (h : j ≤ k) : powTen j ≤ powTen k :=
  Nat.pow_le_pow_right (by decide) h

end SeqPar.Number
