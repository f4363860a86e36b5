/-
  CFiber.Base.Masks — rounding to a power of two by a mask.

  In words of `w` bits `~(2^k - 1)` is `2^w - 1 - (2^k - 1)`.  Masking with it clears the low `k`
  bits: it rounds down to a multiple of `2^k` (`clear_low_eq`), and up if `2^k - 1` was added
  before and the sum did not wrap (`le_round_up`).
-/
import Mathlib.Data.Nat.Digits.Defs

namespace CFiber.Base

variable {w k x : Nat}

/-- `x & ~(2^k - 1)`, in words of `w` bits. -/
def clear_low (w k x : Nat) : Nat := x &&& (2 ^ w - 1 - (2 ^ k - 1))

theorem mask_eq (h : k ≤ w) : 2 ^ w - 1 - (2 ^ k - 1) = (2 ^ (w - k) - 1) * 2 ^ k := by
  have hpow : 2 ^ (w - k) * 2 ^ k = 2 ^ w := by
    rw [← Nat.pow_add, Nat.sub_add_cancel h]
  have hpos := Nat.two_pow_pos k
  rw [Nat.sub_mul, hpow, Nat.one_mul]
  omega

/-- **Masking clears the low bits.** -/
theorem clear_low_eq (h : k ≤ w) (hx : x < 2 ^ w) : clear_low w k x = x / 2 ^ k * 2 ^ k := by
  unfold clear_low
  rw [mask_eq h]
  apply Nat.eq_of_testBit_eq
  intro i
  rw [Nat.testBit_and, Nat.testBit_mul_two_pow, Nat.testBit_mul_two_pow,
    Nat.testBit_two_pow_sub_one, Nat.testBit_div_two_pow]
  by_cases hki : k ≤ i
  · rw [Nat.sub_add_cancel hki]
    by_cases hiw : i < w
    · simp only [hki, show i - k < w - k by omega, decide_true, Bool.and_true, Bool.true_and]
    · -- no bit of `x` is this high
      have hbit : x.testBit i = false := by
        apply Nat.testBit_lt_two_pow
        exact Nat.lt_of_lt_of_le hx (Nat.pow_le_pow_right (by omega) (by omega))
      simp only [hbit, Bool.false_and, Bool.and_false]
  · simp only [hki, decide_false, Bool.false_and, Bool.and_false]

theorem clear_low_dvd (h : k ≤ w) (hx : x < 2 ^ w) : 2 ^ k ∣ clear_low w k x := by
  rw [clear_low_eq h hx]
  exact Nat.dvd_mul_left _ _

theorem clear_low_le (h : k ≤ w) (hx : x < 2 ^ w) : clear_low w k x ≤ x := by
  rw [clear_low_eq h hx]
  exact Nat.div_mul_le_self _ _

theorem lt_clear_low (h : k ≤ w) (hx : x < 2 ^ w) : x < clear_low w k x + 2 ^ k := by
  rw [clear_low_eq h hx]
  have hdiv := Nat.div_add_mod x (2 ^ k)
  have hmod := Nat.mod_lt x (Nat.two_pow_pos k)
  rw [Nat.mul_comm] at hdiv
  omega

/-- **Rounding up**, where the sum does not wrap. -/
theorem le_round_up (h : k ≤ w) (hx : x + 2 ^ k - 1 < 2 ^ w) :
    x ≤ clear_low w k (x + 2 ^ k - 1) := by
  have hlt := lt_clear_low h hx
  have hpos := Nat.two_pow_pos k
  omega

end CFiber.Base
