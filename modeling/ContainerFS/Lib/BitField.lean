import Mathlib.Data.Nat.Bitwise

/-!
Contiguous bit fields of natural numbers. Masking with a run of `b` ones
shifted left by `a` keeps the field `n / 2^a % 2^b` in place, so a test of a
masked opcode becomes linear arithmetic with literal divisors for `omega`.
-/

namespace ContainerFS.BitField

theorem land_mask (n a b : ℕ) :
    n &&& (2 ^ b - 1) * 2 ^ a = n / 2 ^ a % 2 ^ b * 2 ^ a := by
  apply Nat.eq_of_testBit_eq
  intro i
  rw [Nat.testBit_and, Nat.testBit_mul_two_pow, Nat.testBit_mul_two_pow]
  by_cases hi : a ≤ i
  · simp only [hi, decide_true, Bool.true_and, Nat.testBit_mod_two_pow,
      Nat.testBit_div_two_pow, Nat.testBit_two_pow_sub_one]
    by_cases hb : i - a < b
    · simp [hb, Nat.sub_add_cancel hi]
    · simp [hb]
  · simp [hi]

end ContainerFS.BitField
