import HcnetCore.Transactions.OfferExchange

/-! # The crossing of two offers stays within its limits

For a positive price and limits that are non-negative `int64_t`s,
`exchangeV10WithoutPriceErrorThresholds` never throws: both amounts stay within all four limits,
and the rounding favours the offer that stays in the book. Every branch but one divides a value by
one side of the price and converts the amount at the price (`divideAndConvert`); its bounds are
proved once, over naturals, and each branch instantiates them with its own limits.
-/

namespace HcnetCore.Transactions

set_option autoImplicit false

open Util
open Scp (Rounding)
open Ledger (Price)

/-! ## Over naturals -/

section Nat

theorem calculateOfferValue_nat (a b c e : ℕ) :
    calculateOfferValue a b c e = .ok (min (c * a) (e * b)) := by
  simp only [calculateOfferValue, bigMultiply_eq (Int.natCast_nonneg _) (Int.natCast_nonneg _),
    Int.toNat_natCast, Except.ok_bind]
  rfl

theorem divideAndConvert_within {v F G A₁ A₂ B₁ B₂ : ℕ} {rounding : Rounding} (hF : 0 < F) (hG : 0 < G)
    (hA₁ : v ≤ A₁ * F) (hA₂ : v ≤ A₂ * F) (hB₁ : v ≤ B₁ * G) (hB₂ : v ≤ B₂ * G)
    (hA : A₁ ≤ 2 ^ 63 - 1) (hB : B₁ ≤ 2 ^ 63 - 1) :
    divideAndConvert v F G rounding = .ok ((v / F : ℕ), (rounding.div (v / F * F) G : ℕ)) ∧
      v / F ≤ A₁ ∧ v / F ≤ A₂ ∧ rounding.div (v / F * F) G ≤ B₁ ∧ rounding.div (v / F * F) G ≤ B₂ := by
  have hdiv : ∀ A, v ≤ A * F → v / F ≤ A := fun A hA => Nat.div_le_of_le_mul (by rwa [Nat.mul_comm])
  have hconv : ∀ B, v ≤ B * G → rounding.div (v / F * F) G ≤ B :=
    fun B hB => Rounding.div_le_of_mul_le hG (le_trans (Nat.div_mul_le_self v F) hB)
  have h₁ : v / F ≤ 2 ^ 63 - 1 := le_trans (hdiv A₁ hA₁) hA
  have h₂ : rounding.div (v / F * F) G ≤ 2 ^ 63 - 1 := le_trans (hconv B₁ hB₁) hB
  refine ⟨?_, hdiv A₁ hA₁, hdiv A₂ hA₂, hconv B₁ hB₁, hconv B₂ hB₂⟩
  simp only [divideAndConvert, bigDivideOrThrow128_roundDown hF h₁, Except.ok_bind, bigDivideOrThrow_eq hG h₂]
  rfl

theorem swap_map_ok (a b : ℤ) :
    (Prod.swap <$> (Except.ok (a, b) : Except String (ℤ × ℤ))) = .ok (b, a) := rfl

variable {N D W Q S R : ℕ}

/-- What the branches of the crossing give, over naturals: `x` of wheat and `y` of sheep, within
the four limits, rounded in favour of the offer that stays, and, outside strict send, both zero
or neither. -/
def Crossed (N D W Q S R : ℕ) (wheatStays : Prop) [Decidable wheatStays] (round : RoundingType)
    (x y : ℕ) : Prop :=
  x ≤ Q ∧ x ≤ W ∧ y ≤ R ∧ y ≤ S ∧
    (if wheatStays then x * N ≤ y * D else y * D ≤ x * N) ∧
    (round ≠ .pathPaymentStrictSend → (x = 0 ↔ y = 0))

/-- The amounts when the sheep offer stays: the wheat offer's value divided by the dearer side of
the price, the other amount converted at the price and rounded in the sheep seller's favour. -/
def sheepStaysAmounts (N D wheatValue : ℕ) : ℕ × ℕ :=
  if D < N then (wheatValue / N, Rounding.roundDown.div (wheatValue / N * N) D)
  else (Rounding.roundUp.div (wheatValue / D * D) N, wheatValue / D)

section Branches

variable {wheatValue sheepValue : ℕ} {round : RoundingType}
  (hN : 0 < N) (hD : 0 < D) (hQ : Q ≤ 2 ^ 63 - 1) (hR : R ≤ 2 ^ 63 - 1)
  (hwv : wheatValue ≤ W * N ∧ wheatValue ≤ R * D) (hsv : sheepValue ≤ S * D ∧ sheepValue ≤ Q * N)
include hN hD hQ hR hwv hsv

theorem crossAmounts_wheatStays (hstays : sheepValue < wheatValue) :
    ∃ x y : ℕ, crossAmounts ⟨N, D⟩ wheatValue sheepValue S R round = .ok ((x : ℤ), (y : ℤ)) ∧
      Crossed N D W Q S R (sheepValue < wheatValue) round x y ∧
      (round = .pathPaymentStrictSend → y = min S R) := by
  unfold crossAmounts Crossed
  simp only [if_pos (show wheatValue > sheepValue from hstays)]
  by_cases hss : round = .pathPaymentStrictSend
  · -- strict send: the sheep side is taken whole
    have hdiv : ∀ A, sheepValue ≤ A * N → sheepValue / N ≤ A :=
      fun A hA => Nat.div_le_of_le_mul (by rwa [Nat.mul_comm])
    have hx : sheepValue / N ≤ 2 ^ 63 - 1 := le_trans (hdiv Q hsv.2) hQ
    rw [if_pos hss, bigDivideOrThrow128_roundDown hN hx]
    refine ⟨sheepValue / N, min S R, by rw [Nat.cast_min]; rfl, ⟨hdiv Q hsv.2, hdiv W (by omega), by omega,
      by omega, ?_, fun hne => absurd hss hne⟩, fun _ => rfl⟩
    have hSD : sheepValue / N * N ≤ S * D := le_trans (Nat.div_mul_le_self _ _) hsv.1
    have hRD : sheepValue / N * N ≤ R * D := le_trans (Nat.div_mul_le_self _ _) (by omega)
    rcases Nat.le_total S R with hSR | hSR
    · rwa [Nat.min_eq_left hSR]
    · rwa [Nat.min_eq_right hSR]
  rw [if_neg hss]
  by_cases hwheat : (N : ℤ) > D ∨ round = .pathPaymentStrictReceive
  · -- wheat divided first, sheep rounded up
    obtain ⟨heq, hxQ, hxW, hyR, hyS⟩ := @divideAndConvert_within _ _ _ Q W R S .roundUp hN hD hsv.2 (by omega)
      (by omega) hsv.1 hQ hR
    rw [if_pos hwheat, heq]
    refine ⟨_, _, rfl, ⟨hxQ, hxW, hyR, hyS, Rounding.le_roundUp_div_mul hD, fun _ => ?_⟩, fun h => absurd h hss⟩
    rw [Rounding.roundUp_div_eq_zero_iff hD, Nat.mul_eq_zero]
    omega
  · -- sheep divided first, wheat rounded down
    have hND : N ≤ D := by omega
    obtain ⟨heq, hyR, hyS, hxQ, hxW⟩ := @divideAndConvert_within _ _ _ R S Q W .roundDown hD hN (by omega) hsv.1
      hsv.2 (by omega) hR hQ
    rw [if_neg hwheat, heq, swap_map_ok]
    refine ⟨_, _, rfl, ⟨hxQ, hxW, hyR, hyS, Rounding.roundDown_div_mul_le _ _, fun _ => ?_⟩, fun h => absurd h hss⟩
    rw [Rounding.roundDown_div_mul_eq_zero_iff hN hND]

theorem crossAmounts_sheepStays (hstays : ¬ sheepValue < wheatValue) :
    crossAmounts ⟨N, D⟩ wheatValue sheepValue S R round =
        .ok (((sheepStaysAmounts N D wheatValue).1 : ℤ), ((sheepStaysAmounts N D wheatValue).2 : ℤ)) ∧
      Crossed N D W Q S R (sheepValue < wheatValue) round (sheepStaysAmounts N D wheatValue).1
        (sheepStaysAmounts N D wheatValue).2 := by
  unfold crossAmounts Crossed sheepStaysAmounts
  simp only [if_neg (show ¬ wheatValue > sheepValue from hstays)]
  by_cases hwheat : D < N
  · -- wheat divided first, sheep rounded down
    obtain ⟨heq, hxQ, hxW, hyR, hyS⟩ := @divideAndConvert_within _ _ _ Q W R S .roundDown hN hD (by omega) hwv.1
      hwv.2 (by omega) hQ hR
    rw [if_pos (show (N : ℤ) > D by omega), heq, if_pos hwheat]
    refine ⟨rfl, hxQ, hxW, hyR, hyS, Rounding.roundDown_div_mul_le _ _, fun _ => ?_⟩
    rw [Rounding.roundDown_div_mul_eq_zero_iff hD hwheat.le]
  · -- sheep divided first, wheat rounded up
    obtain ⟨heq, hyR, hyS, hxQ, hxW⟩ := @divideAndConvert_within _ _ _ R S Q W .roundUp hD hN hwv.2 (by omega)
      (by omega) hwv.1 hR hQ
    rw [if_neg (show ¬ (N : ℤ) > D by omega), heq, swap_map_ok, if_neg hwheat]
    refine ⟨rfl, hxQ, hxW, hyR, hyS, Rounding.le_roundUp_div_mul hN, fun _ => ?_⟩
    rw [Rounding.roundUp_div_eq_zero_iff hN, Nat.mul_eq_zero]
    omega

theorem crossAmounts_spec :
    ∃ x y : ℕ, crossAmounts ⟨N, D⟩ wheatValue sheepValue S R round = .ok ((x : ℤ), (y : ℤ)) ∧
      Crossed N D W Q S R (sheepValue < wheatValue) round x y := by
  by_cases hstays : sheepValue < wheatValue
  · obtain ⟨x, y, hcross, hcrossed, -⟩ := crossAmounts_wheatStays hN hD hQ hR hwv hsv hstays
    exact ⟨x, y, hcross, hcrossed⟩
  · exact ⟨_, _, crossAmounts_sheepStays hN hD hQ hR hwv hsv hstays⟩

end Branches

theorem exchangeV10WithoutPriceErrorThresholds_nat {x y : ℕ} {round : RoundingType}
    (hcross : crossAmounts ⟨N, D⟩ (min (W * N) (R * D)) (min (S * D) (Q * N)) S R round =
      .ok ((x : ℤ), (y : ℤ)))
    (hx : x ≤ Q ∧ x ≤ W) (hy : y ≤ R ∧ y ≤ S) :
    exchangeV10WithoutPriceErrorThresholds ⟨N, D⟩ W Q S R round =
      .ok ⟨x, y, decide (min (S * D) (Q * N) < min (W * N) (R * D))⟩ := by
  simp only [exchangeV10WithoutPriceErrorThresholds, calculateOfferValue_nat, Except.ok_bind, hcross]
  rw [if_neg (by omega), if_neg (by omega)]
  rfl

end Nat

/-! ## Bounds and rounding direction -/

theorem exchangeV10WithoutPriceErrorThresholds_bounds {price : Price}
    {maxWheatSend maxWheatReceive maxSheepSend maxSheepReceive : ℤ} (round : RoundingType)
    (hn : 1 ≤ price.n ∧ price.n ≤ INT32_MAX) (hd : 1 ≤ price.d ∧ price.d ≤ INT32_MAX)
    (hW : 0 ≤ maxWheatSend ∧ maxWheatSend ≤ INT64_MAX) (hQ : 0 ≤ maxWheatReceive ∧ maxWheatReceive ≤ INT64_MAX)
    (hS : 0 ≤ maxSheepSend ∧ maxSheepSend ≤ INT64_MAX) (hR : 0 ≤ maxSheepReceive ∧ maxSheepReceive ≤ INT64_MAX) :
    ∃ res, exchangeV10WithoutPriceErrorThresholds price maxWheatSend maxWheatReceive maxSheepSend
        maxSheepReceive round = .ok res ∧
      (0 ≤ res.numWheatReceived ∧ res.numWheatReceived ≤ min maxWheatReceive maxWheatSend) ∧
      (0 ≤ res.numSheepSend ∧ res.numSheepSend ≤ min maxSheepReceive maxSheepSend) ∧
      (if res.wheatStays then res.numWheatReceived * price.n ≤ res.numSheepSend * price.d
        else res.numSheepSend * price.d ≤ res.numWheatReceived * price.n) ∧
      (round ≠ .pathPaymentStrictSend → (res.numWheatReceived = 0 ↔ res.numSheepSend = 0)) := by
  rcases price with ⟨n, d⟩
  dsimp only at hn hd ⊢
  -- every amount is a natural number below `2 ^ 63`
  obtain ⟨N, rfl, hN⟩ := exists_nat_of_int32 hn
  obtain ⟨D, rfl, hD⟩ := exists_nat_of_int32 hd
  obtain ⟨W, rfl, -⟩ := exists_nat_of_int64 hW
  obtain ⟨Q, rfl, hQ'⟩ := exists_nat_of_int64 hQ
  obtain ⟨S, rfl, -⟩ := exists_nat_of_int64 hS
  obtain ⟨R, rfl, hR'⟩ := exists_nat_of_int64 hR
  obtain ⟨x, y, hcross, hxQ, hxW, hyR, hyS, hfavors, hzero⟩ :=
    @crossAmounts_spec N D W Q S R (min (W * N) (R * D)) (min (S * D) (Q * N)) round hN hD hQ' hR' ⟨Nat.min_le_left _ _, Nat.min_le_right _ _⟩ ⟨Nat.min_le_left _ _, Nat.min_le_right _ _⟩
  refine ⟨_, exchangeV10WithoutPriceErrorThresholds_nat hcross ⟨hxQ, hxW⟩ ⟨hyR, hyS⟩, ?_, ?_, ?_, fun hround => ?_⟩
    <;> dsimp only
  · exact ⟨Int.natCast_nonneg x, by omega⟩
  · exact ⟨Int.natCast_nonneg y, by omega⟩
  · -- the rounding direction, cast from the naturals
    by_cases hstays : min (S * D) (Q * N) < min (W * N) (R * D)
    · simp only [hstays, if_true, decide_true] at hfavors ⊢
      exact_mod_cast hfavors
    · simp only [hstays, if_false, decide_false, Bool.false_eq_true] at hfavors ⊢
      exact_mod_cast hfavors
  · simp only [Nat.cast_eq_zero]
    exact hzero hround

/-- Price 3/2, 3000 wheat offered against 4501 sheep, as in the source's tests. -/
theorem exchangeV10WithoutPriceErrorThresholds_bounds_sample :
    ((1 : ℤ) ≤ 3 ∧ (3 : ℤ) ≤ INT32_MAX) ∧ ((1 : ℤ) ≤ 2 ∧ (2 : ℤ) ≤ INT32_MAX) ∧
      ((0 : ℤ) ≤ 3000 ∧ (3000 : ℤ) ≤ INT64_MAX) ∧ ((0 : ℤ) ≤ 5000 ∧ (5000 : ℤ) ≤ INT64_MAX) ∧
      ((0 : ℤ) ≤ 4501 ∧ (4501 : ℤ) ≤ INT64_MAX) ∧
      ∃ res, exchangeV10WithoutPriceErrorThresholds ⟨3, 2⟩ 3000 5000 4501 5000 .normal = .ok res ∧
        (0 ≤ res.numWheatReceived ∧ res.numWheatReceived ≤ min 5000 3000) ∧
        (0 ≤ res.numSheepSend ∧ res.numSheepSend ≤ min 5000 4501) ∧
        (if res.wheatStays then res.numWheatReceived * 3 ≤ res.numSheepSend * 2
          else res.numSheepSend * 2 ≤ res.numWheatReceived * 3) ∧
        (RoundingType.normal ≠ .pathPaymentStrictSend → (res.numWheatReceived = 0 ↔ res.numSheepSend = 0)) :=
  ⟨⟨by decide, by decide⟩, ⟨by decide, by decide⟩, ⟨by decide, by decide⟩, ⟨by decide, by decide⟩,
    ⟨by decide, by decide⟩,
    exchangeV10WithoutPriceErrorThresholds_bounds .normal ⟨by decide, by decide⟩ ⟨by decide, by decide⟩
      ⟨by decide, by decide⟩ ⟨by decide, by decide⟩ ⟨by decide, by decide⟩ ⟨by decide, by decide⟩⟩

end HcnetCore.Transactions
