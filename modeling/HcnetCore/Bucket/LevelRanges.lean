import Mathlib

/-! # How many ledgers each bucket list level holds

The sizes of `BucketList`'s buckets as numbers. Level `i` spills every
`halfLedgers i = 2 ^ (2 * i + 1)` ledgers; its `curr` takes in one half of the level below at
each of that level's spills, and its `snap` holds one half of the level once the level has
filled. Until a level has filled, the levels up to it hold every ledger so far
(`ledgersBelow`), and the deepest level's `curr` holds what the others do not. Here the levels
are shown to split the ledgers `1..L` exactly: `ledgersBelow_succ` and `ledgersBelow_add_top`.
-/

namespace HcnetCore.Bucket.BucketList

set_option autoImplicit false

/-- The ledgers in half of `level`: `levelHalf level` as a number. -/
def halfLedgers (level : ℕ) : ℕ := 2 ^ (2 * level + 1)

/-- Once level `level - 1` is full, the levels below `level` hold `steadyBelow level` ledgers
besides those the level just below has taken in since it last spilled. -/
def steadyBelow : ℕ → ℕ
  | 0 => 0
  | 1 => 3
  | level + 2 => 4 * steadyBelow (level + 1) + 1

/-- How many ledgers the levels below `level` hold at ledger `L`: all of them until the level
just below is full, then `steadyBelow` and what that level's `curr` took in since it spilled. -/
def ledgersBelow (L : ℕ) : ℕ → ℕ
  | 0 => 0
  | level + 1 => if L < 2 * halfLedgers level then L else steadyBelow (level + 1) + L % halfLedgers level

def currLedgers (L : ℕ) : ℕ → ℕ
  | 0 => if L = 1 then 1 else 1 + L % 2
  | level + 1 =>
    if level + 1 < 10 ∧ halfLedgers (level + 1) ≤ L then halfLedgers level * (1 + L / halfLedgers level % 4)
    else L - ledgersBelow L (level + 1)

def snapLedgers (L level : ℕ) : ℕ :=
  if level = 10 then 0
  else if 2 * halfLedgers level ≤ L then halfLedgers level
  else L - (ledgersBelow L level + currLedgers L level)

theorem halfLedgers_pos (level : ℕ) : 0 < halfLedgers level := Nat.two_pow_pos _

theorem halfLedgers_le {level : ℕ} (hlevel : level ≤ 10) : halfLedgers level ≤ 2 ^ 21 :=
  Nat.pow_le_pow_right Nat.two_pos (by omega)

theorem halfLedgers_succ (level : ℕ) : halfLedgers (level + 1) = 4 * halfLedgers level := by
  rw [halfLedgers, halfLedgers, show 2 * (level + 1) + 1 = (2 * level + 1) + 2 by omega, pow_add]
  omega

theorem three_mul_steadyBelow (level : ℕ) : 3 * steadyBelow (level + 1) + 1 = 5 * halfLedgers level := by
  induction level with
  | zero => rfl
  | succ level ih =>
    rw [steadyBelow, halfLedgers_succ]
    omega

theorem steadyBelow_add_le (level : ℕ) : steadyBelow (level + 1) + halfLedgers level ≤ 3 * halfLedgers level := by
  have := three_mul_steadyBelow level
  omega

theorem steadyBelow_succ_succ (level : ℕ) :
    steadyBelow (level + 2) = steadyBelow (level + 1) + 5 * halfLedgers level := by
  have := three_mul_steadyBelow level
  rw [steadyBelow]
  omega

/-! ## Splitting a ledger by the level sizes -/

section Split

variable {h L : ℕ}

theorem mod_four_mul (h L : ℕ) : L % (4 * h) = L % h + h * (L / h % 4) := by
  rw [Nat.mul_comm, Nat.mod_mul]

theorem mul_add_mod_le {c : ℕ} (hh : 0 < h) (hL : c * h ≤ L) : c * h + L % h ≤ L := by
  have hdiv := Nat.mod_add_div L h
  have hq : h * c ≤ h * (L / h) := Nat.mul_le_mul_left h ((Nat.le_div_iff_mul_le hh).mpr hL)
  rw [Nat.mul_comm h c] at hq
  omega

theorem eq_add_mod (hlo : h ≤ L) (hhi : L < 2 * h) : L = h + L % h := by
  have hdiv := Nat.mod_add_div L h
  have hq : L / h = 1 := Nat.div_eq_of_lt_le (by omega) (by omega)
  rw [hq] at hdiv
  omega

end Split

/-! ## The levels tile the ledgers -/

section Tiling

variable {L : ℕ}

theorem ledgersBelow_le (L level : ℕ) : ledgersBelow L level ≤ L := by
  cases level with
  | zero => exact Nat.zero_le L
  | succ level =>
    rw [ledgersBelow]
    split_ifs with hL
    · exact le_rfl
    · have := mul_add_mod_le (halfLedgers_pos level) (Nat.le_of_not_lt hL)
      have := steadyBelow_add_le level
      omega

theorem ledgersBelow_of_le {level : ℕ} (hL : 2 * halfLedgers level ≤ L) :
    ledgersBelow L (level + 1) = steadyBelow (level + 1) + L % halfLedgers level := by
  rw [ledgersBelow, if_neg (Nat.not_lt.mpr hL)]

theorem ledgersBelow_add_currLedgers_le (hL : 1 ≤ L) (level : ℕ) :
    ledgersBelow L level + currLedgers L level ≤ L := by
  cases level with
  | zero =>
    simp only [ledgersBelow, currLedgers]
    split_ifs <;> omega
  | succ level =>
    rw [currLedgers]
    split_ifs with hspill
    · -- `curr` and the levels below it fit in the ledgers since this level last spilled
      have hh := halfLedgers_pos level
      have h4 := halfLedgers_succ level
      have hle : 2 * halfLedgers level ≤ L := by omega
      rw [ledgersBelow_of_le hle]
      have hsplit := mod_four_mul (halfLedgers level) L
      have hfour : 1 * (4 * halfLedgers level) + L % (4 * halfLedgers level) ≤ L :=
        mul_add_mod_le (Nat.mul_pos (by decide) hh) (by omega)
      have hsteady := steadyBelow_add_le level
      rw [Nat.mul_add, Nat.mul_one]
      omega
    · have := ledgersBelow_le L (level + 1)
      omega

theorem halfLedgers_zero : halfLedgers 0 = 2 := by decide

theorem ledgersBelow_succ (hL : 1 ≤ L) {level : ℕ} (hlevel : level < 10) :
    ledgersBelow L level + currLedgers L level + snapLedgers L level = ledgersBelow L (level + 1) := by
  cases level with
  | zero =>
    rw [snapLedgers, if_neg (by decide)]
    simp only [ledgersBelow, currLedgers, halfLedgers_zero, Nat.zero_add, steadyBelow]
    split_ifs <;> omega
  | succ level =>
    have hh := halfLedgers_pos level
    have h4 := halfLedgers_succ level
    rw [snapLedgers, if_neg (by omega)]
    split_ifs with hfull
    · -- a full `snap`: the steady part grows by this level's `snap` and the half below
      rw [currLedgers, if_pos ⟨hlevel, by omega⟩, ledgersBelow_of_le (by omega), ledgersBelow_of_le hfull, h4,
        steadyBelow_succ_succ, mod_four_mul, Nat.mul_add, Nat.mul_one]
      omega
    · -- before this level is full, the levels up to it hold every ledger
      have := ledgersBelow_add_currLedgers_le hL (level + 1)
      have hall : ledgersBelow L (level + 1 + 1) = L := if_pos (Nat.lt_of_not_le hfull)
      rw [hall]
      omega

theorem ledgersBelow_add_top (L : ℕ) : ledgersBelow L 10 + currLedgers L 10 + snapLedgers L 10 = L := by
  have := ledgersBelow_le L 10
  have hcurr : currLedgers L 10 = L - ledgersBelow L 10 := by
    rw [currLedgers, if_neg (by omega)]
  rw [hcurr, snapLedgers, if_pos rfl]
  omega

theorem snapLedgers_le (L level : ℕ) : snapLedgers L level ≤ halfLedgers level := by
  rw [snapLedgers]
  split_ifs with htop hfull
  · exact Nat.zero_le _
  · exact le_rfl
  · cases level with
    | zero =>
      simp only [ledgersBelow, currLedgers, halfLedgers_zero] at hfull ⊢
      split_ifs <;> omega
    | succ level =>
      have hh := halfLedgers_pos level
      have h4 := halfLedgers_succ level
      rw [currLedgers]
      split_ifs with hspill
      · -- half full: `snap` holds what is beyond `curr` and the levels below
        rw [ledgersBelow_of_le (by omega)]
        have hsplit := eq_add_mod (h := 4 * halfLedgers level) (L := L) (by omega) (by omega)
        have hmod := mod_four_mul (halfLedgers level) L
        rw [Nat.mul_add, Nat.mul_one]
        omega
      · have := ledgersBelow_le L (level + 1)
        omega

theorem currLedgers_pos_of_snapLedgers_pos {level : ℕ} (hlevel : level ≤ 10)
    (hsnap : 0 < snapLedgers L level) :
    0 < currLedgers L level := by
  cases level with
  | zero =>
    rw [currLedgers]
    split_ifs <;> omega
  | succ level =>
    have hh := halfLedgers_pos level
    rw [currLedgers]
    split_ifs with hspill
    · exact Nat.mul_pos hh (by omega)
    · -- without a spill of its own, this level's `snap` would be empty
      exfalso
      have := ledgersBelow_le L (level + 1)
      rw [snapLedgers, currLedgers, if_neg hspill] at hsnap
      split_ifs at hsnap with htop hfull
      · omega
      · exact hspill ⟨by omega, by rw [halfLedgers_succ] at hfull ⊢; omega⟩
      · omega

theorem snapLedgers_pos_of_currLedgers_pos {level : ℕ} (hlevel : level < 10)
    (hcurr : 0 < currLedgers L (level + 1)) : 0 < snapLedgers L level := by
  have hh := halfLedgers_pos level
  rw [snapLedgers, if_neg (by omega)]
  split_ifs with hfull
  · exact hh
  · -- before the level below is full, this level's `curr` is empty
    exfalso
    rw [currLedgers, if_neg (fun h => hfull (by rw [halfLedgers_succ] at h; omega)), ledgersBelow,
      if_pos (Nat.lt_of_not_le hfull)] at hcurr
    omega

theorem sum_levels_eq_ledgersBelow (hL : 1 ≤ L) :
    ∀ n ≤ 10, ((List.range n).map fun l => currLedgers L l + snapLedgers L l).sum = ledgersBelow L n := by
  intro n
  induction n with
  | zero => intro _; rfl
  | succ n ih =>
    intro hn
    rw [List.range_succ, List.map_append, List.sum_append, ih (by omega), List.map_singleton, List.sum_singleton,
      ← Nat.add_assoc]
    exact ledgersBelow_succ hL (by omega)

theorem sum_levels_eq (hL : 1 ≤ L) : ((List.range 11).map fun l => currLedgers L l + snapLedgers L l).sum = L := by
  rw [List.range_succ, List.map_append, List.sum_append, sum_levels_eq_ledgersBelow hL 10 le_rfl, List.map_singleton,
    List.sum_singleton, ← Nat.add_assoc]
  exact ledgersBelow_add_top L

end Tiling

/-! ## `curr` between the spills of the level below

Above the first level, `curr` is computed from its value at the previous multiple of the half
`h` of the level below (`previousRelevantLedger`). These are the steps of that recursion on
`h * (1 + L / h % 4)`, the form `currLedgers` gives it.
-/

section Steady

variable {h L : ℕ}

theorem pred_div_of_mod_eq_zero (hh : 0 < h) (hL : 0 < L) (hmod : L % h = 0) : (L - 1) / h = L / h - 1 := by
  have hdiv := Nat.mod_add_div L h
  apply Nat.div_eq_of_lt_le
  · rw [Nat.sub_one_mul, Nat.mul_comm]
    omega
  · rw [Nat.sub_add_cancel (Nat.div_pos (Nat.le_of_dvd hL (Nat.dvd_of_mod_eq_zero hmod)) hh), Nat.mul_comm]
    omega

theorem pred_div_of_mod_ne_zero (hh : 0 < h) (hmod : L % h ≠ 0) : (L - 1) / h = L / h := by
  have hdiv := Nat.mod_add_div L h
  have hlt := Nat.mod_lt L hh
  apply Nat.div_eq_of_lt_le
  · rw [Nat.mul_comm]
    omega
  · rw [Nat.add_one_mul, Nat.mul_comm]
    omega

theorem div_mul_le_of_dvd {a b : ℕ} (x : ℕ) (hd : a ∣ b) : x / b * b ≤ x / a * a := by
  have ha := Nat.mod_add_div x a
  have hb := Nat.mod_add_div x b
  have hmod : x % a ≤ x % b := by
    rw [← Nat.mod_mod_of_dvd x hd]
    exact Nat.mod_le _ _
  rw [Nat.mul_comm (x / b), Nat.mul_comm (x / a)]
  omega

theorem mod_eq_zero_of_mod_mul_eq_zero (c : ℕ) (hmod : L % (c * h) = 0) : L % h = 0 :=
  Nat.mod_eq_zero_of_dvd (dvd_trans (Dvd.intro_left c rfl) (Nat.dvd_of_mod_eq_zero hmod))

theorem div_mod_four_eq_zero (hh : 0 < h) (hreset : L % (4 * h) = 0) : L / h % 4 = 0 := by
  rw [mod_four_mul] at hreset
  have hprod : h * (L / h % 4) = 0 := by omega
  rcases Nat.mul_eq_zero.mp hprod with h0 | h0
  · omega
  · exact h0

theorem four_le_div (hh : 0 < h) (hL : 4 * h ≤ L) : 4 ≤ L / h :=
  (Nat.le_div_iff_mul_le hh).mpr hL

theorem steady_le (h x : ℕ) : h * (1 + x % 4) ≤ 4 * h := by
  rw [Nat.mul_comm 4]
  exact Nat.mul_le_mul_left h (by omega)

theorem steady_of_spill_below (hh : 0 < h) (hL : 4 * h ≤ L) (hreset : L % (4 * h) ≠ 0) (hmod : L % h = 0) :
    4 * h ≤ (L - 1) / h * h ∧ (L - 1) / h * h < L ∧
      h * (1 + (L - 1) / h * h / h % 4) + h = h * (1 + L / h % 4) := by
  have hq := four_le_div hh hL
  have hpred := pred_div_of_mod_eq_zero hh (by omega) hmod
  -- `L` is a multiple of `h` but not of `4 * h`, so `L / h` is not a multiple of four
  have hq4 : L / h % 4 ≠ 0 := by
    intro h0
    apply hreset
    rw [mod_four_mul, hmod, h0, Nat.mul_zero]
  rw [Nat.mul_div_cancel _ hh, hpred]
  refine ⟨?_, ?_, ?_⟩
  · exact Nat.mul_le_mul_right h (by omega)
  · calc (L / h - 1) * h < L / h * h := Nat.mul_lt_mul_of_pos_right (by omega) hh
      _ ≤ L := Nat.div_mul_le_self L h
  · rw [← Nat.mul_add_one]
    congr 1
    omega

theorem steady_of_between (hh : 0 < h) (hL : 4 * h ≤ L) (hmod : L % h ≠ 0) :
    4 * h ≤ (L - 1) / h * h ∧ (L - 1) / h * h < L ∧
      h * (1 + (L - 1) / h * h / h % 4) = h * (1 + L / h % 4) := by
  have hq := four_le_div hh hL
  have hdiv := Nat.mod_add_div L h
  rw [Nat.mul_div_cancel _ hh, pred_div_of_mod_ne_zero hh hmod]
  refine ⟨Nat.mul_le_mul_right h hq, ?_, rfl⟩
  rw [Nat.mul_comm]
  omega

end Steady

end HcnetCore.Bucket.BucketList
