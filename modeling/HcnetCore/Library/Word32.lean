import Mathlib

/-! # 32-bit words as numbers

`UInt32` arithmetic read on `toNat`: subtracting one from a nonzero word, and masking a word with
the complement of `2 ^ k - 1`, which clears its `k` low bits and so rounds it down to a multiple
of `2 ^ k` (stated first for natural numbers below `2 ^ w`).
-/

namespace Word32

set_option autoImplicit false

theorem two_pow_sub_two_pow {k w : ℕ} (hk : k ≤ w) : 2 ^ w - 1 - (2 ^ k - 1) = (2 ^ (w - k) - 1) <<< k := by
  have hpow : 2 ^ (w - k) * 2 ^ k = 2 ^ w := by rw [← pow_add, Nat.sub_add_cancel hk]
  have hone : 1 ≤ 2 ^ k := Nat.one_le_two_pow
  rw [Nat.shiftLeft_eq, Nat.sub_mul, hpow, one_mul]
  omega

theorem and_not_low_eq {x k w : ℕ} (hx : x < 2 ^ w) (hk : k ≤ w) :
    x &&& (2 ^ w - 1 - (2 ^ k - 1)) = x / 2 ^ k * 2 ^ k := by
  rw [two_pow_sub_two_pow hk, ← Nat.shiftRight_eq_div_pow, ← Nat.shiftLeft_eq]
  refine Nat.eq_of_testBit_eq fun i => ?_
  simp only [Nat.testBit_and, Nat.testBit_shiftLeft, Nat.testBit_shiftRight, Nat.testBit_two_pow_sub_one]
  by_cases hki : k ≤ i
  · by_cases hiw : i < w
    · simp [hki, Nat.add_sub_cancel' hki]
      omega
    · -- above the word, `x` has no bits
      have hbit : x.testBit i = false :=
        Nat.testBit_eq_false_of_lt (lt_of_lt_of_le hx (Nat.pow_le_pow_right Nat.two_pos (by omega)))
      simp [hki, Nat.add_sub_cancel' hki, hbit]
  · simp [hki]

theorem uint32_and_not_eq (v m : UInt32) {k : ℕ} (hm : m.toNat = 2 ^ k) (hk : k ≤ 32) :
    (v &&& ~~~(m - 1)).toNat = v.toNat / 2 ^ k * 2 ^ k := by
  have hone : (1 : UInt32) ≤ m := by
    rw [UInt32.le_iff_toNat_le, hm]
    exact Nat.one_le_two_pow
  rw [UInt32.toNat_and, UInt32.toNat_not, UInt32.toNat_sub_of_le _ _ hone, hm]
  exact and_not_low_eq v.toNat_lt hk

theorem toNat_pos_of_ne_zero {x : UInt32} (h : x ≠ 0) : 0 < x.toNat := by
  rcases Nat.eq_zero_or_pos x.toNat with h0 | h0
  · exact absurd (UInt32.toNat_inj.mp (by simpa using h0)) h
  · exact h0

theorem ne_zero_of_toNat_pos {x : UInt32} (h : 0 < x.toNat) : x ≠ 0 := by
  rintro rfl
  exact Nat.lt_irrefl 0 h

theorem toNat_pos_of_pos {x : UInt32} (h : 0 < x) : 0 < x.toNat := UInt32.lt_iff_toNat_lt.mp h

theorem toNat_sub_one {x : UInt32} (h : x ≠ 0) : (x - 1).toNat = x.toNat - 1 := by
  have hle : (1 : UInt32) ≤ x := UInt32.le_iff_toNat_le.mpr (toNat_pos_of_ne_zero h)
  rw [UInt32.toNat_sub_of_le _ _ hle]
  rfl

theorem toNat_sub_one_lt {x : UInt32} (h : x ≠ 0) : (x - 1).toNat < x.toNat := by
  have := toNat_pos_of_ne_zero h
  rw [toNat_sub_one h]
  omega

theorem toNat_toUInt32 {n : ℕ} (h : n < 2 ^ 32) : n.toUInt32.toNat = n := by
  rw [Nat.toUInt32, UInt32.toNat_ofNat_of_lt' h]

theorem toNat_one_shiftLeft {s : UInt32} (hs : s.toNat < 32) :
    ((1 : UInt64) <<< s.toUInt64).toUInt32.toNat = 2 ^ s.toNat := by
  have hlt : 2 ^ s.toNat < 2 ^ 32 := Nat.pow_lt_pow_right (by decide) hs
  have h64 : 2 ^ s.toNat < 2 ^ 64 := lt_trans hlt (by decide)
  simp only [UInt64.toNat_toUInt32, UInt64.toNat_shiftLeft, UInt32.toNat_toUInt64, UInt64.toNat_one,
    Nat.one_shiftLeft]
  rw [Nat.mod_eq_of_lt (by omega : s.toNat < 64), Nat.mod_eq_of_lt h64, Nat.mod_eq_of_lt hlt]

end Word32
