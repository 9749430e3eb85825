import HcnetCore.Transactions.ExchangeBounds

/-! # The 1% price error bound, `exchangeV10` and `adjustOffer`

`applyPriceErrorThresholds` never finds the rounding against the offer that stays, so its two
"favored" throws are unreachable. In `NORMAL` mode a crossing either meets the 1% bound or crosses
nothing. `adjustOffer` is the crossing with a buyer without limits, in which the sheep offer always
stays; an adjusted offer crosses to the same amounts again, so adjusting twice changes nothing, and
in a path payment an adjusted offer taken whole already meets the bound.
-/

namespace HcnetCore.Transactions

set_option autoImplicit false

open Util
open Scp (Rounding)
open Ledger (Price)

section Nat

variable {N D x y : ℕ}

/-- The bound `checkPriceErrorBound` tests, over naturals: `|100·n·x − 100·d·y| ≤ n·x`. -/
def PriceErrorWithin (N D x y : ℕ) : Prop :=
  100 * N * x ≤ 100 * D * y + N * x ∧ 100 * D * y ≤ 100 * N * x + N * x

instance (N D x y : ℕ) : Decidable (PriceErrorWithin N D x y) :=
  inferInstanceAs (Decidable (_ ∧ _))

theorem toNat_hundred_mul (M : ℕ) : (100 * (M : ℤ)).toNat = 100 * M := by omega

theorem checkPriceErrorBound_nat (N D x y : ℕ) (canFavorWheat : Bool) :
    checkPriceErrorBound ⟨N, D⟩ x y canFavorWheat =
      .ok (decide ((canFavorWheat = true ∧ 100 * N * x < 100 * D * y) ∨ PriceErrorWithin N D x y)) := by
  simp only [checkPriceErrorBound, bigMultiply_eq (a := 100 * (N : ℤ)) (by omega) (Int.natCast_nonneg _),
    bigMultiply_eq (a := 100 * (D : ℤ)) (by omega) (Int.natCast_nonneg _),
    bigMultiply_eq (Int.natCast_nonneg N) (Int.natCast_nonneg x), toNat_hundred_mul, Int.toNat_natCast,
    Except.ok_bind]
  split_ifs with hfav habs
  · exact congrArg Except.ok (decide_eq_true (Or.inl hfav)).symm
  all_goals
    refine congrArg Except.ok (decide_eq_decide.mpr ?_)
    unfold PriceErrorWithin
    constructor
    · intro h
      exact Or.inr (by omega)
    · rintro (h | h)
      · exact absurd h hfav
      · omega

/-- The rounding favours the offer that stays: `x` of wheat against `y` of sheep at `N / D`. -/
def Favors (N D : ℕ) (wheatStays : Bool) (x y : ℕ) : Prop :=
  if wheatStays then x * N ≤ y * D else y * D ≤ x * N

@[simp] theorem favors_true : Favors N D true x y ↔ x * N ≤ y * D := Iff.rfl

@[simp] theorem favors_false : Favors N D false x y ↔ y * D ≤ x * N := Iff.rfl

theorem favored_checks {wheatStays : Bool} (hfavors : Favors N D wheatStays x y) :
    ¬ (wheatStays = true ∧ y * D < x * N) ∧ ¬ ((!wheatStays) = true ∧ x * N < y * D) := by
  cases wheatStays with
  | true =>
    rw [favors_true] at hfavors
    exact ⟨fun h => absurd h.2 (by omega), fun h => absurd h.1 (by decide)⟩
  | false =>
    rw [favors_false] at hfavors
    exact ⟨fun h => absurd h.1 (by decide), fun h => absurd h.2 (by omega)⟩

theorem applyPriceErrorThresholds_normal {wheatStays : Bool} (hfavors : Favors N D wheatStays x y) :
    applyPriceErrorThresholds ⟨N, D⟩ x y wheatStays .normal =
      .ok (if 0 < x ∧ 0 < y ∧ PriceErrorWithin N D x y then ⟨x, y, wheatStays⟩ else ⟨0, 0, wheatStays⟩) := by
  obtain ⟨hsheep, hwheat⟩ := favored_checks hfavors
  unfold applyPriceErrorThresholds
  by_cases hpos : 0 < x ∧ 0 < y
  · rw [if_pos (by omega)]
    simp only [bigMultiply_eq (Int.natCast_nonneg _) (Int.natCast_nonneg _), Int.toNat_natCast,
      Except.ok_bind, gt_iff_lt]
    rw [if_neg hsheep, if_neg hwheat, if_pos trivial, checkPriceErrorBound_nat]
    simp only [Bool.false_eq_true, false_and, false_or, Except.ok_bind]
    by_cases hwithin : PriceErrorWithin N D x y
    · simp only [hwithin, decide_true, Bool.not_true, hpos, and_self, if_true]
      rfl
    · simp only [hwithin, decide_false, Bool.not_false, if_true, and_false, if_false]
      rfl
  · rw [if_neg (show ¬ (0 < x ∧ 0 < y ∧ PriceErrorWithin N D x y) from fun h => hpos ⟨h.1, h.2.1⟩),
      if_neg (by omega)]
    rfl

theorem applyPriceErrorThresholds_path {wheatStays : Bool} {round : RoundingType} (hround : round ≠ .normal)
    (hfavors : Favors N D wheatStays x y)
    (hwithin : wheatStays = false → 0 < x → 0 < y → PriceErrorWithin N D x y)
    (hsend : round = .pathPaymentStrictSend → 0 < y) :
    ∃ res, applyPriceErrorThresholds ⟨N, D⟩ x y wheatStays round = .ok res := by
  obtain ⟨hsheep, hwheat⟩ := favored_checks hfavors
  unfold applyPriceErrorThresholds
  by_cases hpos : 0 < x ∧ 0 < y
  · rw [if_pos (by omega)]
    simp only [bigMultiply_eq (Int.natCast_nonneg _) (Int.natCast_nonneg _), Int.toNat_natCast,
      Except.ok_bind, gt_iff_lt]
    rw [if_neg hsheep, if_neg hwheat, if_neg hround, checkPriceErrorBound_nat]
    -- the bound, or a price favouring wheat, holds whichever offer stays
    have hbound : (100 * N * x < 100 * D * y) ∨ PriceErrorWithin N D x y := by
      cases wheatStays with
      | true =>
        rw [favors_true] at hfavors
        unfold PriceErrorWithin
        simp only [Nat.mul_assoc, Nat.mul_comm N x, Nat.mul_comm D y]
        omega
      | false => exact Or.inr (hwithin rfl hpos.1 hpos.2)
    simp only [true_and, hbound, decide_true, Bool.not_true, Bool.false_eq_true, if_false, Except.ok_bind]
    exact ⟨_, rfl⟩
  · rw [if_neg (by omega)]
    cases round with
    | normal => exact absurd rfl hround
    | pathPaymentStrictSend =>
      have hy := hsend rfl
      simp only [Nat.cast_eq_zero, if_neg (Nat.pos_iff_ne_zero.mp hy)]
      exact ⟨_, rfl⟩
    | pathPaymentStrictReceive => exact ⟨_, rfl⟩

theorem favors_decide {P : Prop} [Decidable P] :
    Favors N D (decide P) x y ↔ if P then x * N ≤ y * D else y * D ≤ x * N := by
  by_cases hP : P <;> simp [Favors, hP]

/-! ### `adjustOffer` over naturals -/

/-- What `adjustOffer` keeps of an offer worth `wheatValue`: the wheat of its crossing with a buyer
without limits, or nothing when that crossing misses the 1% bound. -/
def adjustedAmount (N D wheatValue : ℕ) : ℕ :=
  if 0 < (sheepStaysAmounts N D wheatValue).1 ∧ 0 < (sheepStaysAmounts N D wheatValue).2 ∧
      PriceErrorWithin N D (sheepStaysAmounts N D wheatValue).1 (sheepStaysAmounts N D wheatValue).2
  then (sheepStaysAmounts N D wheatValue).1 else 0

variable {W R : ℕ}

theorem adjustOffer_nat (hN : 0 < N) (hD : 0 < D) (hW : W ≤ 2 ^ 63 - 1) (hR : R ≤ 2 ^ 63 - 1) :
    adjustOffer ⟨N, D⟩ W R = .ok (adjustedAmount N D (min (W * N) (R * D))) := by
  have hmax : INT64_MAX = ((2 ^ 63 - 1 : ℕ) : ℤ) := rfl
  -- against a buyer without limits the sheep offer stays
  have hstays : ¬ min ((2 ^ 63 - 1) * D) ((2 ^ 63 - 1) * N) < min (W * N) (R * D) := by
    have hWN : W * N ≤ (2 ^ 63 - 1) * N := Nat.mul_le_mul_right N hW
    have hRD : R * D ≤ (2 ^ 63 - 1) * D := Nat.mul_le_mul_right D hR
    omega
  obtain ⟨hcross, hxQ, hxW, hyR, hyS, hfavors, -⟩ :=
    @crossAmounts_sheepStays N D W (2 ^ 63 - 1) (2 ^ 63 - 1) R _ _ .normal hN hD le_rfl hR
      ⟨Nat.min_le_left _ _, Nat.min_le_right _ _⟩ ⟨Nat.min_le_left _ _, Nat.min_le_right _ _⟩ hstays
  rw [if_neg hstays] at hfavors
  unfold adjustOffer exchangeV10
  rw [hmax, exchangeV10WithoutPriceErrorThresholds_nat hcross ⟨hxQ, hxW⟩ ⟨hyR, hyS⟩]
  simp only [Except.ok_bind, decide_eq_false hstays]
  rw [applyPriceErrorThresholds_normal (favors_false.mpr hfavors)]
  unfold adjustedAmount
  split_ifs <;> rfl

theorem sheepStaysAmounts_zero (N D : ℕ) : sheepStaysAmounts N D 0 = (0, 0) := by
  unfold sheepStaysAmounts
  split_ifs
  · simp [Rounding.div]
  · simp only [Nat.zero_div, Nat.zero_mul, Rounding.div, Nat.zero_add, Prod.mk.injEq, and_true]
    exact Nat.div_eq_zero_iff.mpr (by omega)

theorem sheepStaysAmounts_fst_le (hN : 0 < N) : (sheepStaysAmounts N D (min (W * N) (R * D))).1 ≤ W := by
  have hvalue : min (W * N) (R * D) ≤ W * N := Nat.min_le_left _ _
  unfold sheepStaysAmounts
  split_ifs <;> dsimp only
  · exact Nat.div_le_of_le_mul (by rw [Nat.mul_comm N W]; exact hvalue)
  · exact Rounding.div_le_of_mul_le hN (le_trans (Nat.div_mul_le_self _ _) hvalue)

theorem sheepStaysAmounts_fixed (hN : 0 < N) (hD : 0 < D) :
    sheepStaysAmounts N D (min ((sheepStaysAmounts N D (min (W * N) (R * D))).1 * N) (R * D)) =
      sheepStaysAmounts N D (min (W * N) (R * D)) := by
  have hfst := sheepStaysAmounts_fst_le (D := D) (W := W) (R := R) hN
  unfold sheepStaysAmounts at hfst ⊢
  by_cases hDN : D < N
  · -- the offer was cut to `⌊wv / N⌋`, whose value is within both limits
    simp only [if_pos hDN]
    have hle : min (W * N) (R * D) / N * N ≤ R * D :=
      le_trans (Nat.div_mul_le_self _ _) (Nat.min_le_right _ _)
    rw [Nat.min_eq_left hle, Nat.mul_div_cancel _ hN]
  · simp only [if_neg hDN] at hfst ⊢
    -- the new value lies between `⌊wv / D⌋ · D` and `wv`, so dividing it by `D` gives `⌊wv / D⌋` again
    have hyx : min (W * N) (R * D) / D * D ≤ Rounding.roundUp.div (min (W * N) (R * D) / D * D) N * N :=
      Rounding.le_roundUp_div_mul hN
    have hyR : min (W * N) (R * D) / D * D ≤ R * D := le_trans (Nat.div_mul_le_self _ _) (Nat.min_le_right _ _)
    have hhigh : min (Rounding.roundUp.div (min (W * N) (R * D) / D * D) N * N) (R * D) ≤ min (W * N) (R * D) :=
      min_le_min (Nat.mul_le_mul_right N hfst) le_rfl
    have hy : min (Rounding.roundUp.div (min (W * N) (R * D) / D * D) N * N) (R * D) / D =
        min (W * N) (R * D) / D := by
      apply le_antisymm
      · exact Nat.div_le_div_right hhigh
      · exact (Nat.le_div_iff_mul_le hD).mpr (le_min hyx hyR)
    rw [hy]

theorem adjustedAmount_le (hN : 0 < N) : adjustedAmount N D (min (W * N) (R * D)) ≤ W := by
  unfold adjustedAmount
  split_ifs
  · exact sheepStaysAmounts_fst_le hN
  · exact Nat.zero_le W

theorem adjustedAmount_fixed (hN : 0 < N) (hD : 0 < D) :
    adjustedAmount N D (min (adjustedAmount N D (min (W * N) (R * D)) * N) (R * D)) =
      adjustedAmount N D (min (W * N) (R * D)) := by
  by_cases hkeep : 0 < (sheepStaysAmounts N D (min (W * N) (R * D))).1 ∧
      0 < (sheepStaysAmounts N D (min (W * N) (R * D))).2 ∧
      PriceErrorWithin N D (sheepStaysAmounts N D (min (W * N) (R * D))).1
        (sheepStaysAmounts N D (min (W * N) (R * D))).2
  · -- a kept offer crosses to the same amounts, which meet the bound again
    have hkept : adjustedAmount N D (min (W * N) (R * D)) = (sheepStaysAmounts N D (min (W * N) (R * D))).1 :=
      if_pos hkeep
    rw [hkept]
    unfold adjustedAmount
    rw [sheepStaysAmounts_fixed hN hD]
    exact if_pos hkeep
  · -- an offer zeroed by the threshold stays zero
    have hzero : adjustedAmount N D (min (W * N) (R * D)) = 0 := if_neg hkeep
    rw [hzero, Nat.zero_mul, Nat.zero_min]
    unfold adjustedAmount
    simp [sheepStaysAmounts_zero]

theorem adjustedAmount_pos {wheatValue : ℕ} (h : 0 < adjustedAmount N D wheatValue) :
    0 < (sheepStaysAmounts N D wheatValue).1 ∧ 0 < (sheepStaysAmounts N D wheatValue).2 ∧
      PriceErrorWithin N D (sheepStaysAmounts N D wheatValue).1 (sheepStaysAmounts N D wheatValue).2 := by
  unfold adjustedAmount at h
  split_ifs at h with hkeep
  · exact hkeep
  · exact absurd h (Nat.lt_irrefl 0)

theorem pos_of_adjustedAmount_pos (h : 0 < adjustedAmount N D (min (W * N) (R * D))) : 0 < R := by
  rcases Nat.eq_zero_or_pos R with hR | hR
  · rw [hR, Nat.zero_mul, Nat.min_zero] at h
    unfold adjustedAmount at h
    simp [sheepStaysAmounts_zero] at h
  · exact hR

variable {Q S : ℕ}

theorem exchangeV10_nat {x y : ℕ} {round : RoundingType}
    (hcross : crossAmounts ⟨N, D⟩ (min (W * N) (R * D)) (min (S * D) (Q * N)) S R round =
      .ok ((x : ℤ), (y : ℤ)))
    (hx : x ≤ Q ∧ x ≤ W) (hy : y ≤ R ∧ y ≤ S) :
    exchangeV10 ⟨N, D⟩ W Q S R round =
      applyPriceErrorThresholds ⟨N, D⟩ x y (decide (min (S * D) (Q * N) < min (W * N) (R * D))) round := by
  unfold exchangeV10
  rw [exchangeV10WithoutPriceErrorThresholds_nat hcross hx hy]
  rfl

end Nat

/-! ## The thresholds never throw -/

theorem exchangeV10_safe {price : Price} {maxWheatSend maxWheatReceive maxSheepSend maxSheepReceive : ℤ}
    (round : RoundingType) (hn : 1 ≤ price.n ∧ price.n ≤ INT32_MAX) (hd : 1 ≤ price.d ∧ price.d ≤ INT32_MAX)
    (hW : 0 ≤ maxWheatSend ∧ maxWheatSend ≤ INT64_MAX) (hQ : 0 ≤ maxWheatReceive ∧ maxWheatReceive ≤ INT64_MAX)
    (hS : 0 ≤ maxSheepSend ∧ maxSheepSend ≤ INT64_MAX) (hR : 0 ≤ maxSheepReceive ∧ maxSheepReceive ≤ INT64_MAX) :
    (round = .normal →
      ∃ res, exchangeV10 price maxWheatSend maxWheatReceive maxSheepSend maxSheepReceive round = .ok res ∧
        ((res.numWheatReceived = 0 ∧ res.numSheepSend = 0) ∨
          checkPriceErrorBound price res.numWheatReceived res.numSheepSend false = .ok true)) ∧
    (round ≠ .normal → 0 < maxWheatSend → adjustOffer price maxWheatSend maxSheepReceive = .ok maxWheatSend →
      0 < maxWheatReceive → 0 < maxSheepSend →
      ∃ res, exchangeV10 price maxWheatSend maxWheatReceive maxSheepSend maxSheepReceive round = .ok res) := by
  rcases price with ⟨n, d⟩
  dsimp only at hn hd ⊢
  obtain ⟨N, rfl, hN⟩ := exists_nat_of_int32 hn
  obtain ⟨D, rfl, hD⟩ := exists_nat_of_int32 hd
  obtain ⟨W, rfl, hW'⟩ := exists_nat_of_int64 hW
  obtain ⟨Q, rfl, hQ'⟩ := exists_nat_of_int64 hQ
  obtain ⟨S, rfl, -⟩ := exists_nat_of_int64 hS
  obtain ⟨R, rfl, hR'⟩ := exists_nat_of_int64 hR
  have hwv : min (W * N) (R * D) ≤ W * N ∧ min (W * N) (R * D) ≤ R * D := ⟨Nat.min_le_left _ _, Nat.min_le_right _ _⟩
  have hsv : min (S * D) (Q * N) ≤ S * D ∧ min (S * D) (Q * N) ≤ Q * N := ⟨Nat.min_le_left _ _, Nat.min_le_right _ _⟩
  constructor
  · -- normal: the crossing meets the bound or crosses nothing
    rintro rfl
    obtain ⟨x, y, hcross, hxQ, hxW, hyR, hyS, hfavors, -⟩ := crossAmounts_spec hN hD hQ' hR' hwv hsv
    rw [exchangeV10_nat hcross ⟨hxQ, hxW⟩ ⟨hyR, hyS⟩, applyPriceErrorThresholds_normal (favors_decide.mpr hfavors)]
    refine ⟨_, rfl, ?_⟩
    split_ifs with hkeep
    · right
      rw [checkPriceErrorBound_nat]
      simp [hkeep.2.2]
    · left
      exact ⟨rfl, rfl⟩
  · -- path payment: an adjusted offer taken whole meets the bound, and sheep is always sent
    intro hround hWpos hadjusted _ hSpos
    rw [adjustOffer_nat hN hD hW' hR', Except.ok.injEq, Nat.cast_inj] at hadjusted
    have hkeep := adjustedAmount_pos (hadjusted ▸ (show 0 < W by omega))
    by_cases hstays : min (S * D) (Q * N) < min (W * N) (R * D)
    · obtain ⟨x, y, hcross, ⟨hxQ, hxW, hyR, hyS, hfavors, -⟩, hsend⟩ :=
        @crossAmounts_wheatStays N D W Q S R _ _ round hN hD hQ' hR' hwv hsv hstays
      have hRpos := pos_of_adjustedAmount_pos (hadjusted ▸ (show 0 < W by omega))
      rw [exchangeV10_nat hcross ⟨hxQ, hxW⟩ ⟨hyR, hyS⟩]
      refine applyPriceErrorThresholds_path hround (favors_decide.mpr hfavors) (fun h => ?_) (fun hss => ?_)
      · simp [hstays] at h
      · rw [hsend hss]
        omega
    · obtain ⟨hcross, hxQ, hxW, hyR, hyS, hfavors, -⟩ :=
        @crossAmounts_sheepStays N D W Q S R _ _ round hN hD hQ' hR' hwv hsv hstays
      rw [exchangeV10_nat hcross ⟨hxQ, hxW⟩ ⟨hyR, hyS⟩]
      exact applyPriceErrorThresholds_path hround (favors_decide.mpr hfavors) (fun _ _ _ => hkeep.2.2)
        (fun _ => hkeep.2.1)

/-- A strict receive at price 3/2 against 3000 wheat, as in the source's tests: 3000 wheat is
already adjusted (it buys 4500 of the 5000 sheep), so the exchange returns. -/
theorem exchangeV10_safe_sample :
    ((1 : ℤ) ≤ 3 ∧ (3 : ℤ) ≤ INT32_MAX) ∧ ((1 : ℤ) ≤ 2 ∧ (2 : ℤ) ≤ INT32_MAX) ∧
      ((0 : ℤ) ≤ 3000 ∧ (3000 : ℤ) ≤ INT64_MAX) ∧ ((0 : ℤ) ≤ 5000 ∧ (5000 : ℤ) ≤ INT64_MAX) ∧
      ((0 : ℤ) ≤ 4501 ∧ (4501 : ℤ) ≤ INT64_MAX) ∧
      RoundingType.pathPaymentStrictReceive ≠ .normal ∧ adjustOffer ⟨3, 2⟩ 3000 5000 = .ok 3000 ∧
      ∃ res, exchangeV10 ⟨3, 2⟩ 3000 5000 4501 5000 .pathPaymentStrictReceive = .ok res := by
  have hround : RoundingType.pathPaymentStrictReceive ≠ .normal := by decide
  have hadjusted : adjustOffer ⟨3, 2⟩ 3000 5000 = .ok 3000 := by decide
  have hsafe := @exchangeV10_safe ⟨3, 2⟩ 3000 5000 4501 5000 .pathPaymentStrictReceive ⟨by decide, by decide⟩ ⟨by decide, by decide⟩
    ⟨by decide, by decide⟩ ⟨by decide, by decide⟩ ⟨by decide, by decide⟩ ⟨by decide, by decide⟩
  exact ⟨⟨by decide, by decide⟩, ⟨by decide, by decide⟩, ⟨by decide, by decide⟩, ⟨by decide, by decide⟩,
    ⟨by decide, by decide⟩, hround, hadjusted,
    hsafe.2 hround (by decide) hadjusted (by decide) (by decide)⟩

/-! ## `adjustOffer` is idempotent -/

theorem adjustOffer_idempotent {price : Price} {maxWheatSend maxSheepReceive : ℤ}
    (hn : 1 ≤ price.n ∧ price.n ≤ INT32_MAX) (hd : 1 ≤ price.d ∧ price.d ≤ INT32_MAX)
    (hW : 0 ≤ maxWheatSend ∧ maxWheatSend ≤ INT64_MAX) (hR : 0 ≤ maxSheepReceive ∧ maxSheepReceive ≤ INT64_MAX) :
    ∃ adjusted, adjustOffer price maxWheatSend maxSheepReceive = .ok adjusted ∧
      adjustOffer price adjusted maxSheepReceive = .ok adjusted ∧ adjusted ≤ maxWheatSend := by
  rcases price with ⟨n, d⟩
  dsimp only at hn hd
  obtain ⟨N, rfl, hN⟩ := exists_nat_of_int32 hn
  obtain ⟨D, rfl, hD⟩ := exists_nat_of_int32 hd
  obtain ⟨W, rfl, hW'⟩ := exists_nat_of_int64 hW
  obtain ⟨R, rfl, hR'⟩ := exists_nat_of_int64 hR
  have hle := adjustedAmount_le (D := D) (W := W) (R := R) hN
  refine ⟨_, adjustOffer_nat hN hD hW' hR', ?_, by exact_mod_cast hle⟩
  rw [adjustOffer_nat hN hD (by omega) hR', adjustedAmount_fixed hN hD]

/-- The offer of the source's comment: 150 wheat at price 2/3, with room for 5000 sheep. -/
theorem adjustOffer_idempotent_sample :
    ((1 : ℤ) ≤ 2 ∧ (2 : ℤ) ≤ INT32_MAX) ∧ ((1 : ℤ) ≤ 3 ∧ (3 : ℤ) ≤ INT32_MAX) ∧
      ((0 : ℤ) ≤ 150 ∧ (150 : ℤ) ≤ INT64_MAX) ∧ ((0 : ℤ) ≤ 5000 ∧ (5000 : ℤ) ≤ INT64_MAX) ∧
      ∃ adjusted, adjustOffer ⟨2, 3⟩ 150 5000 = .ok adjusted ∧ adjustOffer ⟨2, 3⟩ adjusted 5000 = .ok adjusted ∧
        adjusted ≤ 150 :=
  ⟨⟨by decide, by decide⟩, ⟨by decide, by decide⟩, ⟨by decide, by decide⟩, ⟨by decide, by decide⟩,
    adjustOffer_idempotent ⟨by decide, by decide⟩ ⟨by decide, by decide⟩ ⟨by decide, by decide⟩
      ⟨by decide, by decide⟩⟩

end HcnetCore.Transactions
