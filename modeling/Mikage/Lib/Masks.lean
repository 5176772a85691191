import Mathlib.Data.Nat.Bitwise

/-!
# Masked numbers

What the masks of the low bits and of the others leave of a machine integer.
-/

namespace BitVec

variable {w : ℕ} (x : BitVec w) (k : ℕ)

theorem toNat_and_not_mask : (x &&& ~~~BitVec.ofNat w (2 ^ k - 1)).toNat =
    x.toNat / 2 ^ k * 2 ^ k := by
  refine Nat.eq_of_testBit_eq fun i => ?_
  rw [BitVec.testBit_toNat, BitVec.getLsbD_and, BitVec.getLsbD_not, BitVec.getLsbD_ofNat,
    Nat.testBit_two_pow_sub_one, Nat.testBit_mul_two_pow, Nat.testBit_div_two_pow]
  by_cases hi : k ≤ i
  · rw [Nat.sub_add_cancel hi, BitVec.testBit_toNat]
    by_cases hw : i < w
    · simp [hi, hw, Nat.not_lt.2 hi]
    · simp [hw, BitVec.getLsbD_of_ge x i (Nat.not_lt.1 hw)]
  · have hlt : i < k := by omega
    by_cases hw : i < w <;> simp [hi, hw, hlt]

end BitVec
