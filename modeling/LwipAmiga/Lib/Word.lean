import Mathlib.Data.UInt

/-!
# Machine words

A count kept in a 32-bit word is exact as long as it neither exceeds the word nor goes below zero.
-/

namespace UInt32

theorem toNat_add_ofNat
    {a : UInt32} {n : ℕ} (h : a.toNat + n < 2 ^ 32) :
  (a + UInt32.ofNat n).toNat = a.toNat + n
  := by
  rw [UInt32.toNat_add, UInt32.toNat_ofNat']
  omega

theorem toNat_sub_ofNat
    {a : UInt32} {n : ℕ} (h : n ≤ a.toNat) :
  (a - UInt32.ofNat n).toNat = a.toNat - n
  := by
  have hlt := a.toNat_lt
  have hn : (UInt32.ofNat n).toNat = n := by
    rw [UInt32.toNat_ofNat']
    omega
  rw [UInt32.toNat_sub_of_le _ _ (UInt32.le_iff_toNat_le.mpr (by omega)), hn]

theorem toNat_and_not_three (x : UInt32) :
  (x &&& ~~~3).toNat = x.toNat / 4 * 4
  := by
  have hx : x.toNat < 2 ^ 32 := x.toNat_lt
  have hmask : (~~~3 : UInt32).toNat = (2 ^ 30 - 1) <<< 2 := by decide
  have hround : x.toNat / 4 * 4 = (x.toNat >>> 2) <<< 2 := by
    rw [Nat.shiftLeft_eq, Nat.shiftRight_eq_div_pow]
  rw [UInt32.toNat_and, hmask, hround]
  apply Nat.eq_of_testBit_eq
  intro i
  rw [Nat.testBit_and, Nat.testBit_shiftLeft, Nat.testBit_shiftLeft, Nat.testBit_shiftRight,
    Nat.testBit_two_pow_sub_one]
  by_cases hlow : 2 ≤ i
  · rw [Nat.add_sub_cancel' hlow]
    by_cases hhigh : i < 32
    · have hlt : i - 2 < 30 := by omega
      simp [hlow, hlt]
    · -- The word has no bits there.
      have hpow : 2 ^ 32 ≤ 2 ^ i := Nat.pow_le_pow_right (by decide) (by omega)
      rw [Nat.testBit_lt_two_pow (Nat.lt_of_lt_of_le hx hpow)]
      simp
  · simp [hlow]

end UInt32
