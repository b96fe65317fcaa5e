import Mathlib.Algebra.Order.Ring.Nat
import Mathlib.Data.Nat.Log

/-! # Rounding to a binary precision

A floating-point number keeps a number of binary digits.  A natural number with more of
them is rounded to the nearest one that has no more, and in a tie to the one that ends
with zero.  Rounding keeps the order and what needs no rounding.
-/
namespace FloatRounding

/-- The quotient, rounded to the nearest number and in a tie to the even one. -/
def halfEven (n d : Nat) : Nat :=
  if d < 2 * (n % d) ∨ (2 * (n % d) = d ∧ n / d % 2 = 1) then n / d + 1 else n / d

/-- The place of the last digit that is kept. -/
def exponent (p n : Nat) : Nat := n.log2 + 1 - p

/-- The number with at most `p` binary digits that is next. -/
def roundTo (p n : Nat) : Nat := halfEven n (2 ^ exponent p n) * 2 ^ exponent p n

variable {p n m q : Nat}

/-! ## Quotients -/

theorem le_halfEven (n d : Nat) : n / d ≤ halfEven n d := by
  rw [halfEven]
  split <;> omega

theorem halfEven_le (n d : Nat) : halfEven n d ≤ n / d + 1 := by
  rw [halfEven]
  split <;> omega

theorem halfEven_one (n : Nat) : halfEven n 1 = n := by
  rw [halfEven, Nat.mod_one, if_neg (by omega), Nat.div_one]

/-- A common factor is of no account. -/
theorem halfEven_two_mul (n d : Nat) : halfEven (2 * n) (2 * d) = halfEven n d := by
  rw [halfEven, halfEven, Nat.mul_div_mul_left n d (by decide), Nat.mul_mod_mul_left]
  congr 1
  refine propext (or_congr ?_ (and_congr_left' ?_)) <;> omega

theorem halfEven_mono (hle : n ≤ m) (d : Nat) : halfEven n d ≤ halfEven m d := by
  rcases Nat.lt_or_ge (n / d) (m / d) with hlt | hge
  · exact (halfEven_le n d).trans (hlt.trans_le (le_halfEven m d))
  · -- the quotients are the same, so the remainders decide
    have hquot : m / d = n / d := Nat.le_antisymm hge (Nat.div_le_div_right hle)
    have hn := Nat.div_add_mod n d
    have hm := Nat.div_add_mod m d
    rw [hquot] at hm
    have hrem : n % d ≤ m % d := by omega
    rw [halfEven, halfEven, hquot]
    split <;> split <;> omega

/-! ## Numbers -/

theorem exponent_of_lt (h : n < 2 ^ p) (hp : 0 < p) : exponent p n = 0 := by
  have hlog : n.log2 < p := by
    rcases Nat.eq_zero_or_pos n with rfl | hpos
    · exact hp
    · exact (Nat.log2_lt (Nat.ne_of_gt hpos)).mpr h
  rw [exponent]
  omega

/-- **What has few digits is kept.** -/
theorem roundTo_of_lt (h : n < 2 ^ p) (hp : 0 < p) : roundTo p n = n := by
  rw [roundTo, exponent_of_lt h hp, pow_zero, halfEven_one, Nat.mul_one]

/-- Rounding goes with doubling. -/
theorem roundTo_two_mul (hp : 0 < p) (n : Nat) : roundTo p (2 * n) = 2 * roundTo p n := by
  rcases Nat.eq_zero_or_pos n with rfl | hpos
  · rw [Nat.mul_zero, roundTo_of_lt (Nat.two_pow_pos p) hp]
  have hlog : (2 * n).log2 = n.log2 + 1 := Nat.log2_two_mul (Nat.ne_of_gt hpos)
  by_cases hshort : n.log2 + 2 ≤ p
  · have hsmall : 2 * n < 2 ^ p := by
      rw [← Nat.log2_lt (by omega), hlog]
      omega
    rw [roundTo_of_lt hsmall hp, roundTo_of_lt (by omega) hp]
  · have hexponent : exponent p (2 * n) = exponent p n + 1 := by
      rw [exponent, exponent, hlog]
      omega
    rw [roundTo, hexponent, pow_succ', halfEven_two_mul, roundTo]
    exact Nat.mul_left_comm ..

theorem roundTo_mul_pow (hp : 0 < p) (n e : Nat) : roundTo p (n * 2 ^ e) = roundTo p n * 2 ^ e := by
  induction e with
  | zero => rw [pow_zero, Nat.mul_one, Nat.mul_one]
  | succ e ih =>
    rw [pow_succ', Nat.mul_left_comm, roundTo_two_mul hp, ih]
    exact Nat.mul_left_comm ..

theorem roundTo_pow (hp : 0 < p) (e : Nat) : roundTo p (2 ^ e) = 2 ^ e := by
  have hone : roundTo p 1 = 1 := roundTo_of_lt (Nat.one_lt_two_pow (Nat.ne_of_gt hp)) hp
  have hpow := roundTo_mul_pow hp 1 e
  rwa [Nat.one_mul, hone, Nat.one_mul] at hpow

/-- The digits that are kept. -/
theorem halfEven_exponent_le (p n : Nat) : halfEven n (2 ^ exponent p n) ≤ 2 ^ p := by
  have hlt : n < 2 ^ exponent p n * 2 ^ p := by
    rw [← pow_add]
    refine Nat.lt_of_lt_of_le Nat.lt_log2_self (Nat.pow_le_pow_right (by decide) ?_)
    rw [exponent]
    omega
  have hquot : n / 2 ^ exponent p n < 2 ^ p := Nat.div_lt_of_lt_mul hlt
  exact (halfEven_le _ _).trans hquot

/-- What has so many digits in front of zeros is kept. -/
theorem roundTo_of_digits (hp : 0 < p) (h : q ≤ 2 ^ p) (e : Nat) :
    roundTo p (q * 2 ^ e) = q * 2 ^ e := by
  rw [roundTo_mul_pow hp]
  congr 1
  rcases Nat.lt_or_eq_of_le h with hlt | rfl
  · exact roundTo_of_lt hlt hp
  · exact roundTo_pow hp p

/-- **The half of a rounded number is kept**, if the fraction is left out. -/
theorem roundTo_half (hp : 0 < p) (n : Nat) : roundTo p (roundTo p n / 2) = roundTo p n / 2 := by
  have hdigits := halfEven_exponent_le p n
  rw [show roundTo p n = halfEven n (2 ^ exponent p n) * 2 ^ exponent p n from rfl]
  cases hexponent : exponent p n with
  | zero =>
    have hlt : n < 2 ^ p := by
      rcases Nat.eq_zero_or_pos n with rfl | hpos
      · exact Nat.two_pow_pos p
      · rw [← Nat.log2_lt (Nat.ne_of_gt hpos)]
        rw [exponent] at hexponent
        omega
    rw [pow_zero, Nat.mul_one, halfEven_one]
    exact roundTo_of_lt (Nat.lt_of_le_of_lt (Nat.div_le_self n 2) hlt) hp
  | succ e =>
    rw [hexponent] at hdigits
    rw [pow_succ, ← Nat.mul_assoc, Nat.mul_div_cancel _ (by decide)]
    exact roundTo_of_digits hp hdigits e

/-- What is kept of a number is not above the next power of two. -/
theorem roundTo_le_pow (p n : Nat) : roundTo p n ≤ 2 ^ (p + exponent p n) :=
  calc roundTo p n ≤ 2 ^ p * 2 ^ exponent p n :=
        Nat.mul_le_mul_right _ (halfEven_exponent_le p n)
    _ = 2 ^ (p + exponent p n) := (pow_add ..).symm

/-- Nor is it below the last one. -/
theorem pow_log2_le_roundTo (hp : 0 < p) (hn : n ≠ 0) : 2 ^ n.log2 ≤ roundTo p n := by
  have hsum : n.log2 - exponent p n + exponent p n = n.log2 := by
    rw [exponent]
    omega
  have hquot : 2 ^ (n.log2 - exponent p n) ≤ n / 2 ^ exponent p n := by
    rw [Nat.le_div_iff_mul_le (Nat.two_pow_pos _), ← pow_add, hsum]
    exact Nat.log2_self_le hn
  calc 2 ^ n.log2 = 2 ^ (n.log2 - exponent p n) * 2 ^ exponent p n := by rw [← pow_add, hsum]
    _ ≤ roundTo p n := Nat.mul_le_mul_right _ (hquot.trans (le_halfEven _ _))

/-- **Rounding keeps the order.** -/
theorem roundTo_mono (hp : 0 < p) : Monotone (roundTo p) := by
  intro n m hle
  have hlog : n.log2 ≤ m.log2 := by
    rw [Nat.log2_eq_log_two, Nat.log2_eq_log_two]
    exact Nat.log_mono_right hle
  by_cases hsame : exponent p n = exponent p m
  · rw [roundTo, roundTo, hsame]
    exact Nat.mul_le_mul_right _ (halfEven_mono hle _)
  · -- a power of two lies between them
    have hbetween : p + exponent p n ≤ m.log2 := by
      simp only [exponent] at hsame ⊢
      omega
    have hpos : m ≠ 0 := by
      rintro rfl
      rw [Nat.le_zero.mp hle] at hsame
      exact hsame rfl
    calc roundTo p n ≤ 2 ^ (p + exponent p n) := roundTo_le_pow p n
      _ ≤ 2 ^ m.log2 := Nat.pow_le_pow_right (by decide) hbetween
      _ ≤ roundTo p m := pow_log2_le_roundTo hp hpos

end FloatRounding
