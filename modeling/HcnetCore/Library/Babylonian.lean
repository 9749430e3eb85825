import Mathlib

/-! # The integer Babylonian iteration

For a radicand `R`, the step `x ↦ ⌈(x + ⌈R / x⌉) / 2⌉` has `⌈√(R + 1)⌉ = Nat.sqrt R + 1` as its
fixed point, and above it the step decreases strictly and never goes below it. So from any start
at or above `Nat.sqrt R + 1` the iteration reaches it, and stays there.
-/

namespace Babylonian

set_option autoImplicit false

def ceilDiv (R x : ℕ) : ℕ := (R + x - 1) / x

def step (R x : ℕ) : ℕ := (x + ceilDiv R x + 1) / 2

variable {R x k : ℕ}

theorem ceilDiv_le_iff (hx : 0 < x) : ceilDiv R x ≤ k ↔ R ≤ k * x := by
  unfold ceilDiv
  rw [← Nat.lt_succ_iff, Nat.div_lt_iff_lt_mul hx, Nat.succ_mul]
  omega

theorem le_ceilDiv_iff (hx : 0 < x) : k ≤ ceilDiv R x ↔ k * x ≤ R + x - 1 :=
  Nat.le_div_iff_mul_le hx

theorem le_mul_ceilDiv (hx : 0 < x) : R ≤ ceilDiv R x * x :=
  (ceilDiv_le_iff hx).mp le_rfl

theorem ceilDiv_le_sqrt_succ (h : Nat.sqrt R + 1 ≤ x) : ceilDiv R x ≤ Nat.sqrt R + 1 := by
  have hR := Nat.lt_succ_sqrt R
  have hmul : (Nat.sqrt R + 1) * (Nat.sqrt R + 1) ≤ (Nat.sqrt R + 1) * x := Nat.mul_le_mul_left _ h
  rw [ceilDiv_le_iff (by omega)]
  exact le_of_lt (lt_of_lt_of_le hR hmul)

theorem step_sqrt_succ (R : ℕ) : step R (Nat.sqrt R + 1) = Nat.sqrt R + 1 := by
  have hlow := Nat.sqrt_le R
  have hc : Nat.sqrt R ≤ ceilDiv R (Nat.sqrt R + 1) := by
    rw [le_ceilDiv_iff (by omega), Nat.mul_succ]
    omega
  have hc' := ceilDiv_le_sqrt_succ (R := R) le_rfl
  unfold step
  omega

theorem step_lt (h : Nat.sqrt R + 1 < x) : step R x < x := by
  have hR := Nat.lt_succ_sqrt R
  have hc : ceilDiv R x ≤ x - 2 := by
    rw [ceilDiv_le_iff (by omega)]
    have hmul : Nat.sqrt R * (Nat.sqrt R + 2) ≤ (x - 2) * x :=
      Nat.mul_le_mul (by omega) (by omega)
    have hsq : R ≤ Nat.sqrt R * (Nat.sqrt R + 2) := by
      simp only [Nat.succ_eq_add_one, Nat.mul_add, Nat.add_mul] at hR ⊢
      omega
    omega
  unfold step
  omega

theorem sqrt_succ_le_step (h : Nat.sqrt R + 1 ≤ x) : Nat.sqrt R + 1 ≤ step R x := by
  have hlow := Nat.sqrt_le R
  have hc := le_mul_ceilDiv (R := R) (x := x) (by omega)
  unfold step
  by_contra hlt
  have hsum : x + ceilDiv R x ≤ 2 * Nat.sqrt R := by omega
  have hprod : ceilDiv R x * x < Nat.sqrt R * Nat.sqrt R := by
    nlinarith
  omega

theorem isLeast_ceil_sqrt (P : ℕ) :
    IsLeast {m | P ≤ m * m} (if P = 0 then 0 else Nat.sqrt (P - 1) + 1) := by
  split_ifs with hP
  · exact ⟨by simp [hP], fun m _ => Nat.zero_le m⟩
  · refine ⟨?_, fun m hm => ?_⟩
    · have := Nat.lt_succ_sqrt (P - 1)
      simp only [Set.mem_ofPred_eq, Nat.succ_eq_add_one] at this ⊢
      omega
    · have hlt : Nat.sqrt (P - 1) < m := Nat.sqrt_lt.mpr (by simp only [Set.mem_ofPred_eq] at hm; omega)
      omega

theorem sqrt_eq_of_isLeast {P c : ℕ} (hc : IsLeast {m | P ≤ m * m} c) :
    (if c * c ≤ P then c else c - 1) = Nat.sqrt P := by
  obtain ⟨hcP, hleast⟩ := hc
  simp only [Set.mem_ofPred_eq] at hcP
  split_ifs with h
  · exact Nat.eq_sqrt.mpr ⟨h, by nlinarith⟩
  · rcases Nat.eq_zero_or_pos c with h0 | hpos
    · simp [h0] at h
    · have hbelow : ¬ P ≤ (c - 1) * (c - 1) := fun hle => absurd (hleast hle) (by omega)
      refine Nat.eq_sqrt.mpr ⟨by omega, ?_⟩
      rw [Nat.sub_add_cancel hpos]
      omega

end Babylonian
