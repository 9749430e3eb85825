import HcnetCore.Bucket.BucketList
import HcnetCore.Bucket.LevelRanges

/-! # The bucket list levels tile the ledger history

`BucketList`'s `UInt32` size functions compute the numbers of `LevelRanges` without wrapping
(`sizeOfCurr_toNat`, `sizeOfSnap_toNat`, `levelsBelowSize_toNat`), proved level by level from
the bottom, and at each level by strong induction on the ledger along `previousRelevantLedger`.
From the numbers follow the relations of `LedgerTiling`: the buckets of all levels hold the
ledgers `1..ledger` once each, in order, each `snap` at most half its level.
-/

namespace HcnetCore.Bucket.BucketList

set_option autoImplicit false

/-! ## Level sizes and rounding on `toNat` -/

theorem levelSize_toNat {level : UInt32} (h : level.toNat < 11) :
    (levelSize level).toNat = 2 ^ (2 * level.toNat + 2) := by
  have hshift : (2 * (level + 1)).toNat = 2 * level.toNat + 2 := by
    simp only [UInt32.toNat_mul, UInt32.toNat_add, UInt32.toNat_ofNat]
    omega
  rw [levelSize, Word32.toNat_one_shiftLeft (by omega), hshift]

theorem levelHalf_toNat {level : UInt32} (h : level.toNat < 11) :
    (levelHalf level).toNat = 2 ^ (2 * level.toNat + 1) := by
  rw [levelHalf, UInt32.toNat_shiftRight, levelSize_toNat h, pow_succ]
  simp [Nat.shiftRight_eq_div_pow]

theorem two_pow_levelSize (level : ℕ) : 2 ^ (2 * level + 2) = 2 * halfLedgers level := by
  rw [halfLedgers, pow_succ]
  omega

section RoundDown

variable (v : UInt32) {m : UInt32} {k : ℕ} (hm : m.toNat = 2 ^ k) (hk : k ≤ 32)
include hm hk

theorem roundDown_toNat : (roundDown v m).toNat = v.toNat / m.toNat * m.toNat := by
  rw [roundDown, Word32.uint32_and_not_eq v m hm hk, hm]

theorem roundDown_eq_self_iff : roundDown v m = v ↔ v.toNat % m.toNat = 0 := by
  have hdiv := Nat.mod_add_div v.toNat m.toNat
  rw [← UInt32.toNat_inj, roundDown_toNat v hm hk, Nat.mul_comm]
  omega

theorem roundDown_ne_zero_iff : roundDown v m ≠ 0 ↔ m.toNat ≤ v.toNat := by
  have hpos : 0 < m.toNat := hm ▸ Nat.two_pow_pos k
  rw [ne_eq, ← UInt32.toNat_inj, roundDown_toNat v hm hk, UInt32.toNat_zero, Nat.mul_eq_zero, not_or,
    Nat.div_eq_zero_iff]
  omega

end RoundDown

section Level

variable {level : UInt32} {j : ℕ}

theorem toNat_pred_level (hlevel : level.toNat = j + 1) : (level - 1).toNat = j := by
  rw [Word32.toNat_sub_one (fun h0 => by simp [h0] at hlevel), hlevel]
  rfl

theorem levelHalf_toNat_succ (hlevel : level.toNat = j + 1) (hj : j + 1 < 11) :
    (levelHalf level).toNat = 4 * halfLedgers j := by
  rw [levelHalf_toNat (by omega), hlevel, ← halfLedgers_succ]
  rfl

theorem levelSize_toNat_succ (hlevel : level.toNat = j + 1) (hj : j + 1 < 11) :
    (levelSize level).toNat = 8 * halfLedgers j := by
  rw [levelSize_toNat (by omega), hlevel, two_pow_levelSize, halfLedgers_succ]
  omega

theorem levelHalf_toNat_pred (hlevel : level.toNat = j + 1) (hj : j + 1 < 11) :
    (levelHalf (level - 1)).toNat = halfLedgers j := by
  rw [levelHalf_toNat (by rw [toNat_pred_level hlevel]; omega), toNat_pred_level hlevel]
  rfl

theorem levelSize_toNat_pred (hlevel : level.toNat = j + 1) (hj : j + 1 < 11) :
    (levelSize (level - 1)).toNat = 2 * halfLedgers j := by
  rw [levelSize_toNat (by rw [toNat_pred_level hlevel]; omega), toNat_pred_level hlevel, two_pow_levelSize]

theorem sizeDelta_toNat (hlevel : level.toNat = j + 1) (hj : j + 1 < 11) :
    ((1 : UInt64) <<< (2 * level - 1).toUInt64).toUInt32.toNat = halfLedgers j := by
  have hshift : (2 * level - 1).toNat = 2 * j + 1 := by
    have htwo : (2 * level).toNat = 2 * j + 2 := by
      simp only [UInt32.toNat_mul, UInt32.toNat_ofNat, hlevel]
      omega
    rw [Word32.toNat_sub_one (fun h0 => by simp [h0] at htwo), htwo]
    rfl
  rw [Word32.toNat_one_shiftLeft (by omega), hshift]
  rfl

theorem previousRelevantLedger_toNat {ledger : UInt32} (hlevel : level.toNat = j + 1) (hj : j + 1 < 11)
    (hL : ledger ≠ 0) :
    (previousRelevantLedger ledger level).toNat = (ledger.toNat - 1) / halfLedgers j * halfLedgers j := by
  have hround : ∀ (m : UInt32) (k : ℕ), m.toNat = 2 ^ k → k ≤ 32 →
      (roundDown (ledger - 1) m).toNat = (ledger.toNat - 1) / m.toNat * m.toNat := fun m k hm hk => by
    rw [roundDown_toNat _ hm hk, Word32.toNat_sub_one hL]
  have hpred := toNat_pred_level hlevel
  have hHalfPred := hround _ _ (levelHalf_toNat (show (level - 1).toNat < 11 by omega)) (by omega)
  have hSizePred := hround _ _ (levelSize_toNat (show (level - 1).toNat < 11 by omega)) (by omega)
  have hHalf := hround _ _ (levelHalf_toNat (show level.toNat < 11 by omega)) (by omega)
  have hSize := hround _ _ (levelSize_toNat (show level.toNat < 11 by omega)) (by omega)
  rw [levelHalf_toNat_pred hlevel hj] at hHalfPred
  rw [levelSize_toNat_pred hlevel hj] at hSizePred
  rw [levelHalf_toNat_succ hlevel hj] at hHalf
  rw [levelSize_toNat_succ hlevel hj] at hSize
  -- rounding to the finest of the four granularities rounds down the least
  have hdvd : ∀ c, halfLedgers j ∣ c * halfLedgers j := fun c => Dvd.intro_left c rfl
  simp only [previousRelevantLedger, UInt32.toNat_max, hHalfPred, hSizePred, hHalf, hSize]
  rw [Nat.max_eq_left (div_mul_le_of_dvd _ (hdvd 2)), Nat.max_eq_left (div_mul_le_of_dvd _ (hdvd 4)),
    Nat.max_eq_left (div_mul_le_of_dvd _ (hdvd 8))]

end Level

/-! ## `sizeOfCurr` from the first spill of its level on -/

theorem sizeOfCurr_toNat_of_spill {ledger level : UInt32} {j : ℕ} (hlevel : level.toNat = j + 1) (hj : j + 1 < 10)
    (hhalf : halfLedgers (j + 1) ≤ ledger.toNat) :
    (sizeOfCurr ledger level).toNat = halfLedgers j * (1 + ledger.toNat / halfLedgers j % 4) := by
  obtain ⟨L, hL⟩ : ∃ L, ledger.toNat = L := ⟨_, rfl⟩
  -- strong induction on the ledger: the recursion goes to `previousRelevantLedger`
  induction L using Nat.strong_induction_on generalizing ledger with
  | _ L ih =>
  have hh := halfLedgers_pos j
  rw [halfLedgers_succ, hL] at hhalf
  rw [hL]
  have hLne : ledger ≠ 0 := fun h0 => by simp [h0] at hL; omega
  have hne0 : level ≠ 0 := fun h0 => by simp [h0] at hlevel
  have hne10 : level ≠ kNumLevels - 1 := fun h10 => by rw [h10] at hlevel; simp [kNumLevels] at hlevel; omega
  have hkHalf : 2 * level.toNat + 1 ≤ 32 := by omega
  have hkSize : 2 * level.toNat + 2 ≤ 32 := by omega
  have hround : roundDown ledger (levelHalf level) ≠ 0 := by
    rw [roundDown_ne_zero_iff ledger (levelHalf_toNat (by omega)) hkHalf, levelHalf_toNat_succ hlevel (by omega), hL]
    exact hhalf
  rw [sizeOfCurr, if_neg hne0]
  dsimp only
  rw [dif_pos ⟨hne10, hround⟩]
  have hdelta := sizeDelta_toNat hlevel (by omega)
  have hHalfL := levelHalf_toNat_succ hlevel (by omega)
  have hSizeL := levelSize_toNat_succ hlevel (by omega)
  have hHalfPred := levelHalf_toNat_pred hlevel (by omega)
  have hSizePred := levelSize_toNat_pred hlevel (by omega)
  have hprev := previousRelevantLedger_toNat hlevel (by omega) hLne
  rw [hL] at hprev
  split_ifs with hreset hbelow
  · -- this level spills: `curr` starts over with the half coming from the level below
    rw [roundDown_eq_self_iff ledger (levelHalf_toNat (by omega)) hkHalf,
      roundDown_eq_self_iff ledger (levelSize_toNat (by omega)) hkSize, hHalfL, hSizeL, hL] at hreset
    have hmod : L % (4 * halfLedgers j) = 0 :=
      hreset.elim id fun h8 => mod_eq_zero_of_mod_mul_eq_zero 2 (by rw [← Nat.mul_assoc]; exact h8)
    rw [hdelta, div_mod_four_eq_zero hh hmod]
    omega
  all_goals
    rw [roundDown_eq_self_iff ledger (levelHalf_toNat (by omega)) hkHalf,
      roundDown_eq_self_iff ledger (levelSize_toNat (by omega)) hkSize, hHalfL, hSizeL, hL, not_or] at hreset
  all_goals
    have hpredLevel := toNat_pred_level hlevel
    have hkHalfPred : 2 * (level - 1).toNat + 1 ≤ 32 := by omega
    have hkSizePred : 2 * (level - 1).toNat + 2 ≤ 32 := by omega
  · -- the level below spills into this one: one half more than at the previous multiple
    rw [roundDown_eq_self_iff ledger (levelHalf_toNat (by omega)) hkHalfPred,
      roundDown_eq_self_iff ledger (levelSize_toNat (by omega)) hkSizePred, hHalfPred, hSizePred, hL] at hbelow
    have hmod : L % halfLedgers j = 0 := hbelow.elim id (mod_eq_zero_of_mod_mul_eq_zero 2)
    obtain ⟨hle, hlt, heq⟩ := steady_of_spill_below hh hhalf hreset.1 hmod
    have ihprev := ih _ hlt (by rw [hprev, halfLedgers_succ]; exact hle) hprev
    have hbound := steady_le (halfLedgers j) ((L - 1) / halfLedgers j * halfLedgers j / halfLedgers j)
    have hsmall : halfLedgers j ≤ 2 ^ 21 := halfLedgers_le (by omega)
    rw [hprev] at ihprev
    rw [UInt32.toNat_add, ihprev, hdelta, Nat.mod_eq_of_lt (by omega)]
    exact heq
  · -- between spills of the level below, `curr` is as it was at the previous multiple
    rw [roundDown_eq_self_iff ledger (levelHalf_toNat (by omega)) hkHalfPred,
      roundDown_eq_self_iff ledger (levelSize_toNat (by omega)) hkSizePred, hHalfPred, hSizePred, hL, not_or] at hbelow
    obtain ⟨hle, hlt, heq⟩ := steady_of_between hh hhalf hbelow.1
    have ihprev := ih _ hlt (by rw [hprev, halfLedgers_succ]; exact hle) hprev
    rw [hprev] at ihprev
    rw [ihprev]
    exact heq

/-! ## The model computes the numbers, without wrapping -/

section Refinement

variable {ledger : UInt32}

theorem sizeOfCurr_zero_toNat (ledger : UInt32) : (sizeOfCurr ledger 0).toNat = currLedgers ledger.toNat 0 := by
  rw [sizeOfCurr, if_pos rfl, currLedgers]
  by_cases h1 : ledger = 1
  · rw [if_pos h1, if_pos (by rw [h1]; rfl)]
    rfl
  · have h1' : ledger.toNat ≠ 1 := fun h => h1 (UInt32.toNat_inj.mp h)
    rw [if_neg h1, if_neg h1', UInt32.toNat_add, UInt32.toNat_mod]
    simp only [UInt32.toNat_one, UInt32.reduceToNat]
    omega

variable (hL : ledger ≠ 0) {level : UInt32} (hB : (levelsBelowSize ledger level).toNat = ledgersBelow ledger.toNat level.toNat)
include hL hB

omit hL in
theorem sizeOfCurr_toNat_of_below (hlevel : level.toNat ≤ 10) :
    (sizeOfCurr ledger level).toNat = currLedgers ledger.toNat level.toNat := by
  cases hn : level.toNat with
  | zero =>
    rw [UInt32.toNat_inj.mp (hn.trans UInt32.toNat_zero.symm)]
    exact sizeOfCurr_zero_toNat ledger
  | succ j =>
    rw [currLedgers]
    split_ifs with hspill
    · exact sizeOfCurr_toNat_of_spill hn hspill.1 hspill.2
    · -- below half a level, or at the deepest level: `curr` is what the levels below leave
      have hne0 : level ≠ 0 := fun h0 => by simp [h0] at hn
      have hnospill : ¬(level ≠ kNumLevels - 1 ∧ roundDown ledger (levelHalf level) ≠ 0) := by
        rintro ⟨h10, hround⟩
        rw [roundDown_ne_zero_iff ledger (levelHalf_toNat (by omega)) (by omega),
          levelHalf_toNat_succ hn (by omega)] at hround
        have h10' : level.toNat ≠ 10 := fun h => h10 (UInt32.toNat_inj.mp (by rw [h]; rfl))
        exact hspill ⟨by omega, by rw [halfLedgers_succ]; exact hround⟩
      have hle : levelsBelowSize ledger level ≤ ledger := by
        rw [UInt32.le_iff_toNat_le, hB]
        exact ledgersBelow_le _ _
      rw [sizeOfCurr, if_neg hne0]
      dsimp only
      rw [dif_neg hnospill, UInt32.toNat_sub_of_le _ _ hle, hB, hn]

theorem sizeOfSnap_toNat_of_below (hlevel : level.toNat ≤ 10) :
    (sizeOfSnap ledger level).toNat = snapLedgers ledger.toNat level.toNat := by
  have hlt : level.toNat < 11 := by omega
  by_cases htop : level = kNumLevels - 1
  · have h10 : level.toNat = 10 := by rw [htop]; rfl
    rw [sizeOfSnap, if_pos htop, snapLedgers, if_pos h10]
    rfl
  · have h10 : level.toNat ≠ 10 := fun h => htop (UInt32.toNat_inj.mp (by rw [h]; rfl))
    have hround : roundDown ledger (levelSize level) ≠ 0 ↔ 2 * halfLedgers level.toNat ≤ ledger.toNat := by
      rw [roundDown_ne_zero_iff ledger (levelSize_toNat hlt) (by omega), levelSize_toNat hlt, two_pow_levelSize]
    rw [sizeOfSnap, if_neg htop, snapLedgers, if_neg h10]
    by_cases hfull : 2 * halfLedgers level.toNat ≤ ledger.toNat
    · rw [if_pos (hround.mpr hfull), if_pos hfull, levelHalf_toNat hlt]
      rfl
    · -- `snap` holds what is beyond `curr` and the levels below
      have hsum := ledgersBelow_add_currLedgers_le (Word32.toNat_pos_of_ne_zero hL) level.toNat
      have hadd : (levelsBelowSize ledger level + sizeOfCurr ledger level).toNat =
          ledgersBelow ledger.toNat level.toNat + currLedgers ledger.toNat level.toNat := by
        have := ledger.toNat_lt
        rw [UInt32.toNat_add, hB, sizeOfCurr_toNat_of_below hB hlevel, Nat.mod_eq_of_lt (by omega)]
      rw [if_neg (fun h => hfull (hround.mp h)), if_neg hfull,
        UInt32.toNat_sub_of_le _ _ (UInt32.le_iff_toNat_le.mpr (by rw [hadd]; exact hsum)), hadd]

omit hB in
theorem levelsBelowSize_toNat : ∀ n ≤ 10, ∀ level : UInt32, level.toNat = n →
    (levelsBelowSize ledger level).toNat = ledgersBelow ledger.toNat n := by
  intro n
  induction n with
  | zero =>
    intro _ level hlevel
    rw [UInt32.toNat_inj.mp (hlevel.trans UInt32.toNat_zero.symm), levelsBelowSize, dif_pos rfl]
    rfl
  | succ n ih =>
    intro hn level hlevel
    have hne0 : level ≠ 0 := fun h0 => by simp [h0] at hlevel
    have hpred := toNat_pred_level hlevel
    -- the level below is known by induction, and its `curr` and `snap` from it
    have hB : (levelsBelowSize ledger (level - 1)).toNat = ledgersBelow ledger.toNat (level - 1).toNat := by
      rw [hpred]
      exact ih (by omega) (level - 1) hpred
    have hcurr := sizeOfCurr_toNat_of_below hB (by omega)
    have hsnap := sizeOfSnap_toNat_of_below hL hB (by omega)
    rw [hpred] at hB hcurr hsnap
    have hsum := ledgersBelow_succ (Word32.toNat_pos_of_ne_zero hL) (show n < 10 by omega)
    have hle := ledgersBelow_le ledger.toNat (n + 1)
    have hlt := ledger.toNat_lt
    rw [levelsBelowSize, dif_neg hne0, UInt32.toNat_add, UInt32.toNat_add, hB, hcurr, hsnap,
      Nat.mod_eq_of_lt (by omega), Nat.mod_eq_of_lt (by omega)]
    exact hsum

end Refinement

theorem sizeOfCurr_toNat {ledger : UInt32} (hL : ledger ≠ 0) {level : UInt32} (hlevel : level.toNat ≤ 10) :
    (sizeOfCurr ledger level).toNat = currLedgers ledger.toNat level.toNat :=
  sizeOfCurr_toNat_of_below (levelsBelowSize_toNat hL _ hlevel level rfl) hlevel

theorem sizeOfSnap_toNat {ledger : UInt32} (hL : ledger ≠ 0) {level : UInt32} (hlevel : level.toNat ≤ 10) :
    (sizeOfSnap ledger level).toNat = snapLedgers ledger.toNat level.toNat :=
  sizeOfSnap_toNat_of_below hL (levelsBelowSize_toNat hL _ hlevel level rfl) hlevel

/-! ## The loops over the levels -/

section Loops

variable {ledger : UInt32} (hL : ledger ≠ 0)
include hL

theorem map_sizes_toNat {n : ℕ} (hn : n ≤ 11) :
    ((List.range n).map fun l => (sizeOfCurr ledger l.toUInt32).toNat + (sizeOfSnap ledger l.toUInt32).toNat) =
      (List.range n).map fun l => currLedgers ledger.toNat l + snapLedgers ledger.toNat l := by
  refine List.map_congr_left fun l hl => ?_
  have hl10 : l ≤ 10 := by rw [List.mem_range] at hl; omega
  have hlevel : l.toUInt32.toNat = l := Word32.toNat_toUInt32 (by omega)
  rw [sizeOfCurr_toNat hL (by omega), sizeOfSnap_toNat hL (by omega), hlevel]

theorem foldl_levels_toNat : ∀ n ≤ 10,
    ((List.range n).foldl (fun count l => count - sizeOfCurr ledger l.toUInt32 - sizeOfSnap ledger l.toUInt32)
      ledger).toNat = ledger.toNat - ledgersBelow ledger.toNat n := by
  intro n
  induction n with
  | zero => intro _; rfl
  | succ n ih =>
    intro hn
    have hlevel : n.toUInt32.toNat = n := Word32.toNat_toUInt32 (by omega)
    have hcurr := sizeOfCurr_toNat hL (show n.toUInt32.toNat ≤ 10 by omega)
    have hsnap := sizeOfSnap_toNat hL (show n.toUInt32.toNat ≤ 10 by omega)
    rw [hlevel] at hcurr hsnap
    have hsum := ledgersBelow_succ (Word32.toNat_pos_of_ne_zero hL) (show n < 10 by omega)
    have hle := ledgersBelow_le ledger.toNat (n + 1)
    have hprev := ih (by omega)
    rw [List.range_succ, List.foldl_append, List.foldl_cons, List.foldl_nil]
    -- each subtraction stays within what the previous ones left
    have hc : sizeOfCurr ledger n.toUInt32 ≤ (List.range n).foldl
        (fun count l => count - sizeOfCurr ledger l.toUInt32 - sizeOfSnap ledger l.toUInt32) ledger := by
      rw [UInt32.le_iff_toNat_le, hprev, hcurr]
      omega
    have hs : sizeOfSnap ledger n.toUInt32 ≤ (List.range n).foldl
        (fun count l => count - sizeOfCurr ledger l.toUInt32 - sizeOfSnap ledger l.toUInt32) ledger -
          sizeOfCurr ledger n.toUInt32 := by
      rw [UInt32.le_iff_toNat_le, UInt32.toNat_sub_of_le _ _ hc, hprev, hcurr, hsnap]
      omega
    rw [UInt32.toNat_sub_of_le _ _ hs, UInt32.toNat_sub_of_le _ _ hc, hprev, hcurr, hsnap]
    omega

end Loops

/-! ## Oldest ledgers -/

section Oldest

variable {ledger level : UInt32} (hL : ledger ≠ 0)
include hL

theorem oldestLedgerInCurr_toNat (hlevel : level.toNat ≤ 10) (hcurr : sizeOfCurr ledger level ≠ 0) :
    (oldestLedgerInCurr ledger level).toNat =
      ledger.toNat - ledgersBelow ledger.toNat level.toNat - currLedgers ledger.toNat level.toNat + 1 := by
  have hfold := foldl_levels_toNat hL level.toNat hlevel
  have hc := sizeOfCurr_toNat hL hlevel
  have hsum := ledgersBelow_add_currLedgers_le (Word32.toNat_pos_of_ne_zero hL) level.toNat
  have hpos : 0 < currLedgers ledger.toNat level.toNat := hc ▸ Word32.toNat_pos_of_ne_zero hcurr
  have hlt := ledger.toNat_lt
  rw [oldestLedgerInCurr, if_neg hcurr]
  dsimp only
  rw [UInt32.toNat_add, UInt32.toNat_sub_of_le _ _ (UInt32.le_iff_toNat_le.mpr (by rw [hfold, hc]; omega)), hfold, hc,
    UInt32.toNat_one, Nat.mod_eq_of_lt (by omega)]

theorem oldestLedgerInSnap_toNat (hlevel : level.toNat ≤ 9) (hsnap : sizeOfSnap ledger level ≠ 0) :
    (oldestLedgerInSnap ledger level).toNat = ledger.toNat - ledgersBelow ledger.toNat (level.toNat + 1) + 1 := by
  have hfold := foldl_levels_toNat hL (level.toNat + 1) (by omega)
  have hs := sizeOfSnap_toNat hL (show level.toNat ≤ 10 by omega)
  have hsum := ledgersBelow_succ (Word32.toNat_pos_of_ne_zero hL) (show level.toNat < 10 by omega)
  have hpos : 0 < snapLedgers ledger.toNat level.toNat := hs ▸ Word32.toNat_pos_of_ne_zero hsnap
  have hlt := ledger.toNat_lt
  rw [oldestLedgerInSnap, if_neg hsnap]
  dsimp only
  rw [UInt32.toNat_add, hfold, UInt32.toNat_one, Nat.mod_eq_of_lt (by omega)]

end Oldest

/-! ## The levels tile the ledger history -/

/-- What `BucketList`'s size arithmetic guarantees at `ledger`: the recursion of `sizeOfCurr`
goes to earlier ledgers; its loop over the levels below adds up without wrapping and leaves
`ledger - blsize` (and `sizeOfSnap`'s `ledger - size`) without underflow; the levels hold
every ledger up to `ledger` once; each bucket's ledgers follow those of the bucket above it;
and a `snap` holds at most half its level. -/
structure LedgerTiling (ledger : UInt32) : Prop where
  recursion_decreases : ∀ level : UInt32, (previousRelevantLedger ledger level).toNat < ledger.toNat
  no_underflow : ∀ level < kNumLevels,
    (levelsBelowSize ledger level).toNat =
        ((List.range level.toNat).map fun l =>
          (sizeOfCurr ledger l.toUInt32).toNat + (sizeOfSnap ledger l.toUInt32).toNat).sum ∧
      (levelsBelowSize ledger level).toNat + (sizeOfCurr ledger level).toNat ≤ ledger.toNat
  sizes_sum : ((List.range kNumLevels.toNat).map fun l =>
    (sizeOfCurr ledger l.toUInt32).toNat + (sizeOfSnap ledger l.toUInt32).toNat).sum = ledger.toNat
  curr_follows_snap : ∀ level < kNumLevels, 0 < sizeOfSnap ledger level →
    (oldestLedgerInCurr ledger level).toNat =
      (oldestLedgerInSnap ledger level).toNat + (sizeOfSnap ledger level).toNat
  curr_precedes_level_below : ∀ level < kNumLevels, 0 < sizeOfCurr ledger level →
    (oldestLedgerInCurr ledger level).toNat + (sizeOfCurr ledger level).toNat - 1 =
      if level = 0 then ledger.toNat else (oldestLedgerInSnap ledger (level - 1)).toNat - 1
  snap_le_half : ∀ level < kNumLevels, sizeOfSnap ledger level ≤ levelHalf level

theorem ledgerTiling_of_ne_zero (ledger : UInt32) (hledger : ledger ≠ 0) : LedgerTiling ledger := by
  have hone := Word32.toNat_pos_of_ne_zero hledger
  have hlevels : ∀ level : UInt32, level < kNumLevels → level.toNat ≤ 10 := fun level h => by
    rw [UInt32.lt_iff_toNat_lt] at h
    exact Nat.le_of_lt_succ h
  refine ⟨fun level => previousRelevantLedger_lt level hledger, fun level hlevel => ?_, ?_,
    fun level hlevel hsnap => ?_, fun level hlevel hcurr => ?_, fun level hlevel => ?_⟩
  · have hl := hlevels level hlevel
    rw [levelsBelowSize_toNat hledger _ hl level rfl, map_sizes_toNat hledger (by omega),
      sum_levels_eq_ledgersBelow hone _ hl, sizeOfCurr_toNat hledger hl]
    exact ⟨rfl, ledgersBelow_add_currLedgers_le hone _⟩
  · rw [show kNumLevels.toNat = 11 from rfl, map_sizes_toNat hledger le_rfl]
    exact sum_levels_eq hone
  · -- a nonempty `snap` is below the deepest level, and under a nonempty `curr`
    have hl := hlevels level hlevel
    have hs := sizeOfSnap_toNat hledger hl
    have hc := sizeOfCurr_toNat hledger hl
    have hpos : 0 < snapLedgers ledger.toNat level.toNat := hs ▸ Word32.toNat_pos_of_pos hsnap
    have hl9 : level.toNat ≤ 9 := by
      by_contra h10
      rw [snapLedgers, if_pos (by omega)] at hpos
      exact Nat.lt_irrefl 0 hpos
    have hcpos := currLedgers_pos_of_snapLedgers_pos hl hpos
    have hsum := ledgersBelow_succ hone (show level.toNat < 10 by omega)
    have hle := ledgersBelow_le ledger.toNat (level.toNat + 1)
    rw [oldestLedgerInCurr_toNat hledger hl (Word32.ne_zero_of_toNat_pos (hc ▸ hcpos)),
      oldestLedgerInSnap_toNat hledger hl9 (Word32.ne_zero_of_toNat_pos (hs ▸ hpos)), hs]
    omega
  · have hl := hlevels level hlevel
    have hc := sizeOfCurr_toNat hledger hl
    have hpos : 0 < currLedgers ledger.toNat level.toNat := hc ▸ Word32.toNat_pos_of_pos hcurr
    have hsum := ledgersBelow_add_currLedgers_le hone level.toNat
    rw [oldestLedgerInCurr_toNat hledger hl (Word32.ne_zero_of_toNat_pos (hc ▸ hpos)), hc]
    split_ifs with h0
    · -- the first level's `curr` ends at `ledger` itself
      have hl0 : level.toNat = 0 := by rw [h0]; rfl
      rw [hl0] at hsum ⊢
      simp only [ledgersBelow] at hsum ⊢
      omega
    · -- above it, `curr` ends just before the `snap` of the level below begins
      obtain ⟨j, hj⟩ : ∃ j, level.toNat = j + 1 :=
        ⟨level.toNat - 1, by have := Word32.toNat_pos_of_ne_zero h0; omega⟩
      have hpred := toNat_pred_level hj
      have hsnapPos := snapLedgers_pos_of_currLedgers_pos (show j < 10 by omega) (hj ▸ hpos)
      have hs := sizeOfSnap_toNat hledger (show (level - 1).toNat ≤ 10 by omega)
      rw [hpred] at hs
      rw [oldestLedgerInSnap_toNat hledger (show (level - 1).toNat ≤ 9 by omega)
        (Word32.ne_zero_of_toNat_pos (hs ▸ hsnapPos)), hpred, ← hj]
      omega
  · have hl := hlevels level hlevel
    rw [UInt32.le_iff_toNat_le, sizeOfSnap_toNat hledger hl, levelHalf_toNat (by omega)]
    exact snapLedgers_le _ _

theorem ledgerTiling_one : (1 : UInt32) ≠ 0 ∧ LedgerTiling 1 := ⟨by decide, ledgerTiling_of_ne_zero 1 (by decide)⟩

end HcnetCore.Bucket.BucketList
