import HcnetCore.Transactions.OfferExchange

/-! # Exchange with a constant-product liquidity pool

`exchangeWithPool` (transactions/OfferExchange): for a path payment that sends exactly an amount
(strict send) or receives exactly one (strict receive), the other amount by the constant-product
rule with the pool's fee, through `hugeDivide`. The result is the pair `(toPool, fromPool)` when the
call returns true.
-/

namespace HcnetCore.Transactions

set_option autoImplicit false

open Util
open Scp (Rounding)

def exchangeWithPool (reservesToPool maxSendToPool reservesFromPool maxReceiveFromPool feeBps : ℤ)
    (round : RoundingType) : Except String (Option (ℤ × ℤ)) := do
  let maxBps : ℤ := 10000
  if feeBps < 0 ∨ maxBps ≤ feeBps then throw "Liquidity pool fee out of range"
  if reservesToPool ≤ 0 ∨ reservesFromPool ≤ 0 then throw "non-positive reserve in exchangeWithPool"
  match round with
  | .pathPaymentStrictSend =>
    if maxReceiveFromPool ≠ INT64_MAX then throw "strict send with bounded receive?"
    let maxReceiveFromPool := reservesFromPool
    if maxSendToPool > INT64_MAX - reservesToPool then return none
    let toPool := maxSendToPool
    let denominator := (← bigMultiply maxBps reservesToPool) + (← bigMultiply (maxBps - feeBps) toPool)
    match ← hugeDivide (maxBps - feeBps) (← bigMultiply reservesFromPool toPool) denominator .roundDown with
    | some fromPool =>
      if fromPool > maxReceiveFromPool then throw "received too much from pool"
      if fromPool < 0 then throw "fromPool is negative"
      pure (if fromPool ≠ 0 then some (toPool, fromPool) else none)
    | none => pure none
  | .pathPaymentStrictReceive =>
    if maxSendToPool ≠ INT64_MAX then throw "strict receive with bounded send?"
    let maxSendToPool := INT64_MAX - reservesToPool
    if maxReceiveFromPool ≥ reservesFromPool then return none
    let fromPool := maxReceiveFromPool
    match ← hugeDivide maxBps (← bigMultiply reservesToPool fromPool)
        (← bigMultiply (reservesFromPool - fromPool) (maxBps - feeBps)) .roundUp with
    | some toPool =>
      if toPool < 0 then throw "toPool is negative"
      pure (if toPool ≤ maxSendToPool then some (toPool, fromPool) else none)
    | none => pure none
  | .normal => throw "Invalid rounding type"

/-- What a successful exchange gives: a positive amount received, below the reserve it comes from;
an amount sent that the other reserve can take; and a fee-adjusted constant product that does not
decrease. -/
def PoolTradeSound (reservesToPool reservesFromPool feeBps toPool fromPool : ℤ) : Prop :=
  0 < fromPool ∧ fromPool < reservesFromPool ∧ 0 ≤ toPool ∧ toPool ≤ INT64_MAX - reservesToPool ∧
    10000 * reservesToPool * reservesFromPool ≤
      (10000 * reservesToPool + (10000 - feeBps) * toPool) * (reservesFromPool - fromPool)

/-! ## Strict send -/

section StrictSend

theorem strictSend_div_lt {φ R T P : ℕ} (hR : 0 < R) (hP : 0 < P) :
    φ * (R * T) / (10000 * P + φ * T) < R := by
  have hpos : 0 < P * R := Nat.mul_pos hP hR
  rw [Nat.div_lt_iff_lt_mul (by omega)]
  nlinarith

theorem strictSend_hugeDivide_nat {φ R T P : ℕ} (hφ : 0 < φ) (hR : 0 < R ∧ R ≤ 2 ^ 63 - 1) (hP : 0 < P)
    (hfit : P + T ≤ 2 ^ 63 - 1) (hφmax : φ ≤ 10000) :
    hugeDivide φ (R * T) (10000 * P + φ * T) .roundDown =
      .ok (some (φ * (R * T) / (10000 * P + φ * T) : ℕ)) := by
  have hφT : φ * T ≤ 10000 * T := Nat.mul_le_mul_right T hφmax
  have hTC : T ≤ 10000 * P + φ * T := by
    have : T ≤ φ * T := Nat.le_mul_of_pos_left T hφ
    omega
  -- `B / C ≤ R` and the floor is below `R`: both fit `int64_t` because the reserve does
  have hQ : R * T / (10000 * P + φ * T) ≤ R :=
    Nat.div_le_of_le_mul (by rw [Nat.mul_comm R T]; exact Nat.mul_le_mul_right R hTC)
  have hres := strictSend_div_lt (φ := φ) (T := T) hR.1 hP
  rw [hugeDivide_eq (Int.natCast_nonneg φ) (by omega) (by simp only [INT32_MAX_toNat, INT64_MAX_toNat]; omega),
    Int.toNat_natCast, if_neg (by simp only [INT64_MAX_toNat]; omega),
    if_pos (by simp only [Rounding.div, INT64_MAX_toNat]; omega)]
  rfl

theorem exchangeWithPool_strictSend_nat {φ R T P : ℕ} (hφ : 0 < φ ∧ φ ≤ 10000) (hR : 0 < R ∧ R ≤ 2 ^ 63 - 1)
    (hP : 0 < P) :
    exchangeWithPool P T R INT64_MAX (10000 - φ) .pathPaymentStrictSend =
      .ok (if P + T ≤ 2 ^ 63 - 1 then
        (if φ * (R * T) / (10000 * P + φ * T) ≠ 0 then some ((T : ℤ), ((φ * (R * T) / (10000 * P + φ * T) : ℕ) : ℤ))
          else none)
      else none) := by
  have hmax : INT64_MAX = 2 ^ 63 - 1 := rfl
  unfold exchangeWithPool
  rw [if_neg (by omega), if_neg (by omega)]
  simp only [ne_eq, not_true_eq_false, if_false, gt_iff_lt, sub_sub_cancel]
  by_cases hfit : P + T ≤ 2 ^ 63 - 1
  · have hres := strictSend_div_lt (φ := φ) (T := T) hR.1 hP
    rw [if_neg (by omega), if_pos hfit, bigMultiply_eq (by omega) (by omega),
      bigMultiply_eq (by omega) (Int.natCast_nonneg T), bigMultiply_eq (by omega) (Int.natCast_nonneg T)]
    have h10000 : Int.toNat 10000 = 10000 := rfl
    simp only [Except.ok_bind, Int.toNat_natCast, h10000,
      strictSend_hugeDivide_nat hφ.1 hR hP hfit hφ.2]
    rw [if_neg (by omega), if_neg (not_lt.mpr (Int.natCast_nonneg _))]
    simp only [Nat.cast_eq_zero]
    rfl
  · rw [if_pos (by omega), if_neg hfit]
    rfl

end StrictSend

/-! ## Strict receive -/

section StrictReceive

theorem exchangeWithPool_strictReceive_nat {φ R F P : ℕ} (hφ : 0 < φ ∧ φ ≤ 10000) (hR : 0 < R ∧ R ≤ 2 ^ 63 - 1)
    (hP : 0 < P) (hF : 0 < F) :
    exchangeWithPool P INT64_MAX R F (10000 - φ) .pathPaymentStrictReceive =
      .ok (if R ≤ F then none
        else if 2 ^ 63 - 1 < P * F / ((R - F) * φ) then none
        else if Rounding.roundUp.div (10000 * (P * F)) ((R - F) * φ) ≤ 2 ^ 63 - 1 then
          (if (Rounding.roundUp.div (10000 * (P * F)) ((R - F) * φ) : ℤ) ≤ INT64_MAX - P then
            some ((Rounding.roundUp.div (10000 * (P * F)) ((R - F) * φ) : ℤ), (F : ℤ)) else none)
        else none) := by
  unfold exchangeWithPool
  rw [if_neg (by omega), if_neg (by omega)]
  simp only [ne_eq, not_true_eq_false, if_false, ge_iff_le, sub_sub_cancel, Nat.cast_le]
  by_cases hFR : R ≤ F
  · rw [if_pos hFR, if_pos hFR]
    rfl
  · have hRF : ((R : ℤ) - F).toNat = R - F := by omega
    have h10000 : Int.toNat 10000 = 10000 := rfl
    have hC : 0 < (R - F) * φ := Nat.mul_pos (by omega) hφ.1
    have hCmax : (R - F) * φ ≤ (2 ^ 63 - 1) * 10000 := Nat.mul_le_mul (by omega) hφ.2
    rw [if_neg hFR, if_neg hFR, bigMultiply_eq (by omega) (by omega), bigMultiply_eq (by omega) (by omega)]
    simp only [Except.ok_bind, Int.toNat_natCast, hRF]
    rw [hugeDivide_eq (by omega) hC (by simp only [INT32_MAX_toNat, INT64_MAX_toNat]; omega)]
    simp only [INT64_MAX_toNat, h10000]
    -- the two ways `hugeDivide` gives up, then the amount it found
    split_ifs with hQ hfits hsend
    · rfl
    · simp only [Except.ok_bind]
      rw [if_neg (not_lt.mpr (Int.natCast_nonneg _)), if_pos hsend]
      rfl
    · simp only [Except.ok_bind]
      rw [if_neg (not_lt.mpr (Int.natCast_nonneg _)), if_neg hsend]
      rfl
    · rfl

end StrictReceive

/-! ## Safety -/

section Safety

theorem strictSend_sound {φ R T P : ℕ} (hR : 0 < R) (hP : 0 < P) (hfit : P + T ≤ 2 ^ 63 - 1)
    (hne : φ * (R * T) / (10000 * P + φ * T) ≠ 0) :
    PoolTradeSound P R (10000 - φ) T (φ * (R * T) / (10000 * P + φ * T) : ℕ) := by
  set fromPool := φ * (R * T) / (10000 * P + φ * T)
  have hlt : fromPool < R := strictSend_div_lt hR hP
  have hfloor : fromPool * (10000 * P + φ * T) ≤ φ * (R * T) := Nat.div_mul_le_self _ _
  have hfloorZ : ((fromPool * (10000 * P + φ * T) : ℕ) : ℤ) ≤ ((φ * (R * T) : ℕ) : ℤ) := Nat.cast_le.mpr hfloor
  push_cast at hfloorZ
  refine ⟨Int.natCast_pos.mpr (Nat.pos_of_ne_zero hne), Int.ofNat_lt.mpr hlt, Int.natCast_nonneg T,
    by unfold INT64_MAX; omega, ?_⟩
  rw [sub_sub_cancel]
  linarith

theorem strictReceive_sound {φ R F P : ℕ} (hφ : 0 < φ) (hF : 0 < F) (hFR : F < R)
    (hsend : (Rounding.roundUp.div (10000 * (P * F)) ((R - F) * φ) : ℤ) ≤ INT64_MAX - P) :
    PoolTradeSound P R (10000 - φ) (Rounding.roundUp.div (10000 * (P * F)) ((R - F) * φ) : ℕ) F := by
  set toPool := Rounding.roundUp.div (10000 * (P * F)) ((R - F) * φ)
  have hceil : 10000 * (P * F) ≤ toPool * ((R - F) * φ) :=
    Babylonian.le_mul_ceilDiv (Nat.mul_pos (by omega) hφ)
  have hceilZ : ((10000 * (P * F) : ℕ) : ℤ) ≤ ((toPool * ((R - F) * φ) : ℕ) : ℤ) := Nat.cast_le.mpr hceil
  push_cast [Nat.cast_sub hFR.le] at hceilZ
  refine ⟨by omega, by omega, by omega, hsend, ?_⟩
  rw [sub_sub_cancel]
  linarith

theorem exchangeWithPool_safe {reservesToPool maxSendToPool reservesFromPool maxReceiveFromPool feeBps : ℤ}
    {round : RoundingType} (hfee : 0 ≤ feeBps ∧ feeBps < 10000) (hrT : 0 < reservesToPool)
    (hrF : 0 < reservesFromPool ∧ reservesFromPool ≤ INT64_MAX)
    (hmode : (round = .pathPaymentStrictSend ∧ maxReceiveFromPool = INT64_MAX ∧ 0 ≤ maxSendToPool) ∨
      (round = .pathPaymentStrictReceive ∧ maxSendToPool = INT64_MAX ∧ 0 < maxReceiveFromPool)) :
    (∃ r, exchangeWithPool reservesToPool maxSendToPool reservesFromPool maxReceiveFromPool feeBps round = .ok r ∧
      ∀ toPool fromPool, r = some (toPool, fromPool) →
        PoolTradeSound reservesToPool reservesFromPool feeBps toPool fromPool) ∧
    (round = .pathPaymentStrictSend → maxSendToPool ≤ INT64_MAX - reservesToPool →
      ∃ fromPool, hugeDivide (10000 - feeBps) (reservesFromPool.toNat * maxSendToPool.toNat)
        (10000 * reservesToPool.toNat + (10000 - feeBps).toNat * maxSendToPool.toNat) .roundDown =
          .ok (some fromPool)) := by
  obtain ⟨φ, hφ⟩ := Int.eq_ofNat_of_zero_le (show 0 ≤ 10000 - feeBps by omega)
  obtain rfl : feeBps = 10000 - φ := by omega
  lift reservesToPool to ℕ using hrT.le with P
  lift reservesFromPool to ℕ using hrF.1.le with R
  have hφ' : 0 < φ ∧ φ ≤ 10000 := by omega
  have hR : 0 < R ∧ R ≤ 2 ^ 63 - 1 := by unfold INT64_MAX at hrF; omega
  rcases hmode with ⟨rfl, rfl, ht⟩ | ⟨rfl, rfl, hf⟩
  · lift maxSendToPool to ℕ using ht with T
    refine ⟨⟨_, exchangeWithPool_strictSend_nat hφ' hR (by omega), ?_⟩, fun _ hfit => ?_⟩
    · rintro toPool fromPool hsome
      split_ifs at hsome with hfit hne
      cases hsome
      exact strictSend_sound hR.1 (by omega) hfit hne
    · have hfit' : P + T ≤ 2 ^ 63 - 1 := by unfold INT64_MAX at hfit; omega
      simp only [sub_sub_cancel, Int.toNat_natCast]
      exact ⟨_, strictSend_hugeDivide_nat hφ'.1 hR (by omega) hfit' hφ'.2⟩
  · lift maxReceiveFromPool to ℕ using hf.le with F
    refine ⟨⟨_, exchangeWithPool_strictReceive_nat hφ' hR (by omega) (by omega), ?_⟩,
      fun hsend => absurd hsend (by decide)⟩
    rintro toPool fromPool hsome
    split_ifs at hsome with hFR hQ hfits hsend
    cases hsome
    exact strictReceive_sound hφ'.1 (by omega) (by omega) hsend

/-- Sending 100 into a pool of 1000 and 1000 with a 0.3% fee. -/
theorem exchangeWithPool_safe_strictSend :
    ((0 : ℤ) ≤ 30 ∧ (30 : ℤ) < 10000) ∧ (0 : ℤ) < 1000 ∧ ((0 : ℤ) < 1000 ∧ (1000 : ℤ) ≤ INT64_MAX) ∧
      ((∃ r, exchangeWithPool 1000 100 1000 INT64_MAX 30 .pathPaymentStrictSend = .ok r ∧
        ∀ toPool fromPool, r = some (toPool, fromPool) → PoolTradeSound 1000 1000 30 toPool fromPool) ∧
      (RoundingType.pathPaymentStrictSend = .pathPaymentStrictSend → (100 : ℤ) ≤ INT64_MAX - 1000 →
        ∃ fromPool, hugeDivide (10000 - 30) ((1000 : ℤ).toNat * (100 : ℤ).toNat)
          (10000 * (1000 : ℤ).toNat + (10000 - 30 : ℤ).toNat * (100 : ℤ).toNat) .roundDown = .ok (some fromPool))) :=
  ⟨⟨by decide, by decide⟩, by decide, ⟨by decide, by decide⟩,
    exchangeWithPool_safe ⟨by decide, by decide⟩ (by decide) ⟨by decide, by decide⟩ (Or.inl ⟨rfl, rfl, by decide⟩)⟩

end Safety

end HcnetCore.Transactions
