import HcnetCore.Scp.LocalNode
import HcnetCore.Library.Babylonian
import HcnetCore.Library.ExceptInvariant
import Mathlib

/-! # 128-bit arithmetic of util/numeric

The divisions `bigDivide`, `bigDivide128` and `hugeDivide`, the product `bigMultiply`, and the
integer square root `bigSquareRoot` with its Babylonian loop. `int64_t` and `int32_t` values are
integers, `uint64_t` values of `bigSquareRoot` are `UInt64`, and `uint128_t` values are naturals:
every 128-bit computation here is guarded or bounded so that it does not wrap.
`releaseAssertOrThrow` throws `std::runtime_error` with the asserted expression; the model returns
that text as the error.
-/

namespace HcnetCore

set_option autoImplicit false

open Scp (Rounding bigDivideUnsigned UINT64_MAX)

def INT32_MAX : ℤ := 2 ^ 31 - 1

def INT64_MAX : ℤ := 2 ^ 63 - 1

def UINT128_MAX : ℕ := 2 ^ 128 - 1

@[simp] theorem INT32_MAX_toNat : INT32_MAX.toNat = 2 ^ 31 - 1 := rfl

@[simp] theorem INT64_MAX_toNat : INT64_MAX.toNat = 2 ^ 63 - 1 := rfl

theorem exists_nat_of_int64 {x : ℤ} (h : 0 ≤ x ∧ x ≤ INT64_MAX) : ∃ X : ℕ, x = X ∧ X ≤ 2 ^ 63 - 1 := by
  obtain ⟨X, rfl⟩ := Int.eq_ofNat_of_zero_le h.1
  exact ⟨X, rfl, by unfold INT64_MAX at h; omega⟩

theorem exists_nat_of_int32 {x : ℤ} (h : 1 ≤ x ∧ x ≤ INT32_MAX) : ∃ X : ℕ, x = X ∧ 0 < X := by
  obtain ⟨X, rfl⟩ := Int.eq_ofNat_of_zero_le (show 0 ≤ x by omega)
  exact ⟨X, rfl, by omega⟩

def Scp.Rounding.div : Rounding → ℕ → ℕ → ℕ
  | .roundDown, n, d => n / d
  | .roundUp, n, d => (n + d - 1) / d

theorem Scp.Rounding.div_le_of_mul_le {rounding : Rounding} {n d k : ℕ} (hd : 0 < d) (h : n ≤ k * d) :
    rounding.div n d ≤ k := by
  cases rounding with
  | roundDown => exact (Nat.div_le_iff_le_mul_add_pred hd).mpr (by rw [Nat.mul_comm] at h; omega)
  | roundUp => exact (Babylonian.ceilDiv_le_iff hd).mpr h

theorem Scp.Rounding.div_mul_split (rounding : Rounding) {A B C : ℕ} (hC : 0 < C) :
    rounding.div (A * B) C = A * (B / C) + rounding.div (A * (B % C)) C := by
  have hsplit : A * B = A * (B % C) + A * (B / C) * C := by
    have h := Nat.div_add_mod B C
    calc A * B = A * (C * (B / C) + B % C) := by rw [h]
      _ = A * (B % C) + A * (B / C) * C := by rw [Nat.mul_add, Nat.mul_comm C, Nat.mul_assoc]; omega
  cases rounding with
  | roundDown =>
    simp only [Rounding.div]
    rw [hsplit, Nat.add_mul_div_right _ _ hC]
    omega
  | roundUp =>
    simp only [Rounding.div]
    have hmove : A * (B % C) + A * (B / C) * C + C - 1 = A * (B % C) + C - 1 + A * (B / C) * C := by omega
    rw [hsplit, hmove, Nat.add_mul_div_right _ _ hC]
    omega

theorem Scp.Rounding.roundDown_div_mul_le (n d : ℕ) : Rounding.roundDown.div n d * d ≤ n :=
  Nat.div_mul_le_self n d

theorem Scp.Rounding.le_roundUp_div_mul {n d : ℕ} (hd : 0 < d) : n ≤ Rounding.roundUp.div n d * d :=
  Babylonian.le_mul_ceilDiv hd

theorem Scp.Rounding.roundUp_div_eq_zero_iff {n d : ℕ} (hd : 0 < d) : Rounding.roundUp.div n d = 0 ↔ n = 0 := by
  constructor
  · intro h
    have hle := Rounding.le_roundUp_div_mul (n := n) hd
    rw [h, Nat.zero_mul] at hle
    omega
  · rintro rfl
    exact Nat.div_eq_of_lt (by omega)

theorem Scp.Rounding.roundDown_div_mul_eq_zero_iff {x F G : ℕ} (hG : 0 < G) (hGF : G ≤ F) :
    Rounding.roundDown.div (x * F) G = 0 ↔ x = 0 := by
  constructor
  · intro h
    by_contra hx
    have hle : G ≤ x * F := le_trans hGF (Nat.le_mul_of_pos_left F (Nat.pos_of_ne_zero hx))
    have hpos : 0 < (x * F) / G := Nat.div_pos hle hG
    exact absurd h (Nat.pos_iff_ne_zero.mp hpos)
  · rintro rfl
    simp [Rounding.div]

theorem bigDivideUnsigned_eq {A B C : ℕ} {rounding : Rounding} (hC : 0 < C) :
    bigDivideUnsigned A B C rounding =
      .ok (rounding.div (A * B) C % 2 ^ 64, decide (rounding.div (A * B) C ≤ UINT64_MAX)) := by
  cases rounding <;> simp [bigDivideUnsigned, Nat.pos_iff_ne_zero.mp hC, Rounding.div] <;> rfl

namespace Util

def releaseAssertOrThrow (check : Prop) [Decidable check] (expr : String) : Except String Unit :=
  if check then pure () else throw expr

@[simp] theorem releaseAssertOrThrow_of_true {check : Prop} [Decidable check] {expr : String} (h : check) :
    releaseAssertOrThrow check expr = pure () :=
  if_pos h

/-- `bigDivide`: `A * B / C` of non-negative `int64_t`s in 128 bits; the result when the call
returns true, that is when it fits `int64_t`. -/
def bigDivide (A B C : ℤ) (rounding : Rounding) : Except String (Option ℤ) := do
  releaseAssertOrThrow (A ≥ 0 ∧ B ≥ 0 ∧ C > 0) "(A >= 0) && (B >= 0) && (C > 0)"
  let (r2, res) ← bigDivideUnsigned A.toNat B.toNat C.toNat rounding
  pure (if res ∧ (r2 : ℤ) ≤ INT64_MAX then some (r2 : ℤ) else none)

def bigDivideOrThrow (A B C : ℤ) (rounding : Rounding) : Except String ℤ := do
  match ← bigDivide A B C rounding with
  | some res => pure res
  | none => throw "overflow while performing bigDivide"

/-- `bigDivideUnsigned128`: `a / B` of a `uint128_t` by a `uint64_t`, rounded as asked; the result
when the call returns true. Rounding up gives up first where `a + B - 1` would wrap. -/
def bigDivideUnsigned128 (a B : ℕ) (rounding : Rounding) : Except String (Option ℕ) := do
  releaseAssertOrThrow (B ≠ 0) "B != 0"
  if rounding = .roundUp ∧ a > UINT128_MAX - (B - 1) then pure none
  else
    let x := match rounding with
      | .roundDown => a / B
      | .roundUp => (a + B - 1) / B
    pure (if x ≤ UINT64_MAX then some x else none)

def bigDivide128 (a : ℕ) (B : ℤ) (rounding : Rounding) : Except String (Option ℤ) := do
  releaseAssertOrThrow (B > 0) "B > 0"
  match ← bigDivideUnsigned128 a B.toNat rounding with
  | some r2 => pure (if (r2 : ℤ) ≤ INT64_MAX then some (r2 : ℤ) else none)
  | none => pure none

def bigDivideOrThrow128 (a : ℕ) (B : ℤ) (rounding : Rounding) : Except String ℤ := do
  match ← bigDivide128 a B rounding with
  | some res => pure res
  | none => throw "overflow while performing bigDivide"

def bigMultiplyUnsigned (a b : ℕ) : ℕ := a * b

def bigMultiply (a b : ℤ) : Except String ℕ := do
  releaseAssertOrThrow (a ≥ 0 ∧ b ≥ 0) "(a >= 0) && (b >= 0)"
  pure (bigMultiplyUnsigned a.toNat b.toNat)

/-- `hugeDivide`: `a * B / C` for an `int32_t` `a` and `uint128_t`s `B` and `C`, through
`B = Q * C + R`; the result when it fits `int64_t`. -/
def hugeDivide (a : ℤ) (B C : ℕ) (rounding : Rounding) : Except String (Option ℤ) := do
  releaseAssertOrThrow (a ≥ 0) "a >= 0"
  releaseAssertOrThrow (C ≠ 0) "C != 0ul"
  releaseAssertOrThrow (C ≤ INT32_MAX.toNat * INT64_MAX.toNat) "C <= i32_max * i64_max"
  let Q := B / C
  let R := B % C
  if Q > INT64_MAX.toNat then pure none
  else
    let A := a.toNat
    let res := match rounding with
      | .roundDown => A * Q + A * R / C
      | .roundUp => A * Q + (A * R + C - 1) / C
    pure (if res ≤ INT64_MAX.toNat then some (res : ℤ) else none)

/-! ## `bigSquareRoot` -/

/-- `uint128_bits`: the number of bits of `x`, `128` less its leading zeros; none for `0`. -/
def uint128_bits (x : ℕ) : ℕ := Nat.size x

/-- The `while (x != prev)` loop of `bigSquareRootCeil` on `R`. `x` is a `uint64_t` that goes down
every round but the last, so `2 ^ 64` rounds are more than it runs; running out throws. -/
def bigSquareRootCeilLoop (R : ℕ) : ℕ → UInt64 → UInt64 → Except String UInt64
  | 0, _, _ => throw "while (x != prev)"
  | fuel + 1, x, prev =>
    if x = prev then pure x
    else do
      let y ← match ← bigDivideUnsigned128 R x.toNat .roundUp with
        | some y => pure (UInt64.ofNat y)
        | none => throw "Overflow during bigSquareRoot"
      -- the sum is formed in 128 bits where it would wrap in 64
      let next : UInt64 :=
        if UInt64.ofNat UINT64_MAX - x ≤ y then UInt64.ofNat ((1 + x.toNat + y.toNat) / 2)
        else (x + y + 1) / 2
      bigSquareRootCeilLoop R fuel next x

/-- `bigSquareRootCeil`: `⌈√(a * b)⌉`, by the loop on `R = a * b - 1` from a seed of more bits than
its square root has. -/
def bigSquareRootCeil (a b : UInt64) : Except String UInt64 :=
  if a = 0 ∨ b = 0 then pure 0
  else
    let R := bigMultiplyUnsigned a.toNat b.toNat - 1
    let numBits := uint128_bits R / 2 + 1
    let x : UInt64 := if numBits ≥ 64 then UInt64.ofNat UINT64_MAX else 1 <<< UInt64.ofNat numBits
    bigSquareRootCeilLoop R (2 ^ 64) x 0

/-- `bigSquareRoot`: the `x` with `x * x ≤ a * b < (x + 1) * (x + 1)`. -/
def bigSquareRoot (a b : UInt64) : Except String UInt64 := do
  let sqrtCeil ← bigSquareRootCeil a b
  if bigMultiplyUnsigned sqrtCeil.toNat sqrtCeil.toNat ≤ bigMultiplyUnsigned a.toNat b.toNat then pure sqrtCeil
  else pure (sqrtCeil - 1)

/-! ## The divisions past their checks

Each division returns the rounded quotient as soon as it fits `int64_t`; the crossing of offers and
the pool exchange use these instead of unfolding the 128-bit code. -/

section Divisions

theorem bigDivideOrThrow_eq {A B C : ℕ} {rounding : Rounding} (hC : 0 < C)
    (h : rounding.div (A * B) C ≤ 2 ^ 63 - 1) :
    bigDivideOrThrow A B C rounding = .ok (rounding.div (A * B) C : ℕ) := by
  have hfit : rounding.div (A * B) C % 2 ^ 64 = rounding.div (A * B) C := Nat.mod_eq_of_lt (by omega)
  have hres : decide (rounding.div (A * B) C ≤ UINT64_MAX) = true :=
    decide_eq_true (by simp only [UINT64_MAX]; omega)
  simp only [bigDivideOrThrow, bigDivide, releaseAssertOrThrow_of_true
      (⟨Int.natCast_nonneg A, Int.natCast_nonneg B, Int.natCast_pos.mpr hC⟩ : (A : ℤ) ≥ 0 ∧ (B : ℤ) ≥ 0 ∧ (C : ℤ) > 0),
    Int.toNat_natCast, bigDivideUnsigned_eq hC, hfit, hres, pure_bind, Except.ok_bind]
  rw [if_pos ⟨trivial, by unfold INT64_MAX; omega⟩]
  rfl

theorem bigDivideOrThrow128_roundDown {a B : ℕ} (hB : 0 < B) (h : a / B ≤ 2 ^ 63 - 1) :
    bigDivideOrThrow128 a B .roundDown = .ok (a / B : ℕ) := by
  simp only [bigDivideOrThrow128, bigDivide128, bigDivideUnsigned128,
    releaseAssertOrThrow_of_true (Int.natCast_pos.mpr hB : (B : ℤ) > 0), Int.toNat_natCast,
    releaseAssertOrThrow_of_true (Nat.pos_iff_ne_zero.mp hB), pure_bind]
  rw [if_neg (by simp), if_pos (by simp only [UINT64_MAX]; omega)]
  simp only [pure_bind]
  rw [if_pos (by unfold INT64_MAX; omega)]
  rfl

theorem bigMultiply_eq {a b : ℤ} (ha : 0 ≤ a) (hb : 0 ≤ b) : bigMultiply a b = .ok (a.toNat * b.toNat) := by
  simp only [bigMultiply, releaseAssertOrThrow_of_true (And.intro ha hb), pure_bind, bigMultiplyUnsigned]
  rfl

theorem hugeDivide_eq {a : ℤ} {B C : ℕ} {rounding : Rounding} (ha : 0 ≤ a) (hC : 0 < C)
    (hCmax : C ≤ INT32_MAX.toNat * INT64_MAX.toNat) :
    hugeDivide a B C rounding =
      .ok (if INT64_MAX.toNat < B / C then none
        else if rounding.div (a.toNat * B) C ≤ INT64_MAX.toNat then some (rounding.div (a.toNat * B) C : ℤ)
        else none) := by
  have hres : (match rounding with
      | .roundDown => a.toNat * (B / C) + a.toNat * (B % C) / C
      | .roundUp => a.toNat * (B / C) + (a.toNat * (B % C) + C - 1) / C) = rounding.div (a.toNat * B) C := by
    rw [Rounding.div_mul_split rounding hC]
    cases rounding <;> rfl
  simp only [hugeDivide, releaseAssertOrThrow_of_true ha, releaseAssertOrThrow_of_true (Nat.pos_iff_ne_zero.mp hC),
    releaseAssertOrThrow_of_true hCmax, pure_bind, hres]
  split_ifs <;> rfl

end Divisions

/-! ## `hugeDivide` in 128-bit words

The code computes `hugeDivide` in `uint128_t`, where every product, sum and difference wraps at
`2 ^ 128`. Under the asserts and the early exit on `Q`, none of them wraps: the bounds of the
code's comment. The word-level code therefore computes what `hugeDivide` computes over the
naturals, and that is the rounded `a * B / C` whenever it fits `int64_t`. -/

section HugeDivideWords

/-- `hugeDivide` as the code computes it: `B`, `C` and every intermediate value are `uint128_t`
words, and `a` enters through `(uint32_t)a`. -/
def hugeDivideWords (a : ℤ) (B C : BitVec 128) (rounding : Rounding) : Except String (Option ℤ) := do
  let i32_max : BitVec 128 := BitVec.ofNat 128 INT32_MAX.toNat
  let i64_max : BitVec 128 := BitVec.ofNat 128 INT64_MAX.toNat
  releaseAssertOrThrow (a ≥ 0) "a >= 0"
  releaseAssertOrThrow (C ≠ 0) "C != 0ul"
  releaseAssertOrThrow (C ≤ i32_max * i64_max) "C <= i32_max * i64_max"
  let Q := B / C
  let R := B % C
  if Q > i64_max then pure none
  else
    let A : BitVec 128 := BitVec.ofNat 128 a.toNat
    let res := match rounding with
      | .roundDown => A * Q + A * R / C
      | .roundUp => A * Q + (A * R + C - 1) / C
    pure (if res ≤ i64_max then some (res.toNat : ℤ) else none)

theorem releaseAssertOrThrow_of_false {check : Prop} [Decidable check] {expr : String} (h : ¬check) :
    releaseAssertOrThrow check expr = throw expr :=
  if_neg h

theorem releaseAssertOrThrow_congr {p q : Prop} [Decidable p] [Decidable q] {expr : String} (h : p ↔ q) :
    releaseAssertOrThrow p expr = releaseAssertOrThrow q expr := by
  unfold releaseAssertOrThrow
  by_cases hp : p
  · rw [if_pos hp, if_pos (h.mp hp)]
  · rw [if_neg hp, if_neg (mt h.mpr hp)]

theorem bigMultiply_eq_ok_iff {a b : ℤ} {r : ℕ} : bigMultiply a b = .ok r ↔ 0 ≤ a ∧ 0 ≤ b ∧ r = a.toNat * b.toNat := by
  unfold bigMultiply bigMultiplyUnsigned
  by_cases h : a ≥ 0 ∧ b ≥ 0
  · rw [releaseAssertOrThrow_of_true h]
    refine ⟨fun hr => ⟨h.1, h.2, ?_⟩, fun ⟨_, _, hr⟩ => by rw [hr]; rfl⟩
    cases hr
    rfl
  · rw [releaseAssertOrThrow_of_false h]
    simp only [ge_iff_le, not_and_or, not_le] at h
    constructor
    · intro hr
      cases hr
    · rintro ⟨ha, hb, -⟩
      rcases h with h | h <;> omega

theorem hugeDivide_no_wrap {A B C : ℕ} (hA : A ≤ 2 ^ 31 - 1) (hC : 0 < C) (hCmax : C ≤ (2 ^ 31 - 1) * (2 ^ 63 - 1))
    (hQ : B / C ≤ 2 ^ 63 - 1) :
    A * (B / C) < 2 ^ 128 ∧ A * (B % C) < 2 ^ 128 ∧ A * (B % C) + C < 2 ^ 128 ∧ A * (B % C) + C - 1 < 2 ^ 128 ∧
      A * (B / C) + A * (B % C) / C < 2 ^ 128 ∧ A * (B / C) + (A * (B % C) + C - 1) / C < 2 ^ 128 := by
  have hR : B % C < C := Nat.mod_lt B hC
  -- `A * Q ≤ INT32_MAX * INT64_MAX` and `A * R < INT32_MAX * (INT32_MAX * INT64_MAX)`
  have hAQ : A * (B / C) ≤ (2 ^ 31 - 1) * (2 ^ 63 - 1) := Nat.mul_le_mul hA hQ
  have hAR : A * (B % C) ≤ (2 ^ 31 - 1) * ((2 ^ 31 - 1) * (2 ^ 63 - 1)) := Nat.mul_le_mul hA (by omega)
  have hdivDown : A * (B % C) / C ≤ A * (B % C) := Nat.div_le_self _ _
  have hdivUp : (A * (B % C) + C - 1) / C ≤ A * (B % C) + C - 1 := Nat.div_le_self _ _
  omega

theorem hugeDivideWords_res_toNat {A Q R C : BitVec 128} (rounding : Rounding) (hC : 0 < C.toNat)
    (hAQ : A.toNat * Q.toNat < 2 ^ 128) (hAR : A.toNat * R.toNat + C.toNat < 2 ^ 128)
    (hsum : A.toNat * Q.toNat + rounding.div (A.toNat * R.toNat) C.toNat < 2 ^ 128) :
    (match rounding with
      | .roundDown => A * Q + A * R / C
      | .roundUp => A * Q + (A * R + C - 1) / C).toNat =
      A.toNat * Q.toNat + rounding.div (A.toNat * R.toNat) C.toNat := by
  have hmulQ : (A * Q).toNat = A.toNat * Q.toNat := by
    rw [BitVec.toNat_mul, Nat.mod_eq_of_lt hAQ]
  have hmulR : (A * R).toNat = A.toNat * R.toNat := by
    rw [BitVec.toNat_mul, Nat.mod_eq_of_lt (by omega)]
  cases rounding with
  | roundDown =>
    simp only [Rounding.div] at hsum ⊢
    rw [BitVec.toNat_add, BitVec.toNat_udiv, hmulQ, hmulR, Nat.mod_eq_of_lt hsum]
  | roundUp =>
    simp only [Rounding.div] at hsum ⊢
    -- `C - 1` does not wrap since `C` is not zero, nor does `A * R + C - 1`
    have hpred : (A * R + C - 1).toNat = A.toNat * R.toNat + C.toNat - 1 := by
      have hsumAR : (A * R + C).toNat = A.toNat * R.toNat + C.toNat := by
        rw [BitVec.toNat_add, hmulR, Nat.mod_eq_of_lt (by omega)]
      have hone : (1 : BitVec 128).toNat = 1 := rfl
      rw [BitVec.toNat_sub, hsumAR, hone]
      omega
    rw [BitVec.toNat_add, BitVec.toNat_udiv, hmulQ, hpred, Nat.mod_eq_of_lt hsum]

theorem hugeDivideWords_eq (a : ℤ) (ha : a ≤ INT32_MAX) (B C : BitVec 128) (rounding : Rounding) :
    hugeDivideWords a B C rounding = hugeDivide a B.toNat C.toNat rounding := by
  have hi32 : (BitVec.ofNat 128 INT32_MAX.toNat).toNat = 2 ^ 31 - 1 := by
    rw [BitVec.toNat_ofNat, INT32_MAX_toNat]
    exact Nat.mod_eq_of_lt (by omega)
  have hi64 : (BitVec.ofNat 128 INT64_MAX.toNat).toNat = 2 ^ 63 - 1 := by
    rw [BitVec.toNat_ofNat, INT64_MAX_toNat]
    exact Nat.mod_eq_of_lt (by omega)
  have hmax : (BitVec.ofNat 128 INT32_MAX.toNat * BitVec.ofNat 128 INT64_MAX.toNat).toNat =
      INT32_MAX.toNat * INT64_MAX.toNat := by
    rw [BitVec.toNat_mul, hi32, hi64, INT32_MAX_toNat, INT64_MAX_toNat]
    decide
  have hzero : C ≠ 0 ↔ C.toNat ≠ 0 := by
    rw [Ne, Ne, ← BitVec.toNat_inj]
    exact Iff.rfl
  have hbound : C ≤ BitVec.ofNat 128 INT32_MAX.toNat * BitVec.ofNat 128 INT64_MAX.toNat ↔
      C.toNat ≤ INT32_MAX.toNat * INT64_MAX.toNat := by
    rw [BitVec.le_def, hmax]
  unfold hugeDivideWords hugeDivide
  dsimp only
  rw [releaseAssertOrThrow_congr hzero, releaseAssertOrThrow_congr hbound]
  -- each failed assert throws the same text on both sides
  by_cases hnonneg : a ≥ 0
  · by_cases hC : C.toNat ≠ 0
    · by_cases hCmax : C.toNat ≤ INT32_MAX.toNat * INT64_MAX.toNat
      · simp only [releaseAssertOrThrow_of_true hnonneg, releaseAssertOrThrow_of_true hC,
          releaseAssertOrThrow_of_true hCmax, pure_bind]
        have hQ : B / C > BitVec.ofNat 128 INT64_MAX.toNat ↔ B.toNat / C.toNat > INT64_MAX.toNat := by
          rw [gt_iff_lt, gt_iff_lt, BitVec.lt_def, BitVec.toNat_udiv, hi64, INT64_MAX_toNat]
        by_cases hexit : B.toNat / C.toNat > INT64_MAX.toNat
        · rw [if_pos (hQ.mpr hexit), if_pos hexit]
        · rw [if_neg (mt hQ.mp hexit), if_neg hexit]
          have hcode : (match rounding with
              | .roundDown => a.toNat * (B.toNat / C.toNat) + a.toNat * (B.toNat % C.toNat) / C.toNat
              | .roundUp => a.toNat * (B.toNat / C.toNat) + (a.toNat * (B.toNat % C.toNat) + C.toNat - 1) / C.toNat) =
              a.toNat * (B.toNat / C.toNat) + rounding.div (a.toNat * (B.toNat % C.toNat)) C.toNat := by
            cases rounding <;> rfl
          have hA : (BitVec.ofNat 128 a.toNat).toNat = a.toNat := by
            rw [BitVec.toNat_ofNat]
            unfold INT32_MAX at ha
            omega
          have hbounds := hugeDivide_no_wrap (A := a.toNat) (B := B.toNat) (C := C.toNat)
            (by unfold INT32_MAX at ha; omega) (by omega) (by simpa using hCmax) (by simpa using hexit)
          have hsum : a.toNat * (B.toNat / C.toNat) + rounding.div (a.toNat * (B.toNat % C.toNat)) C.toNat < 2 ^ 128 := by
            cases rounding
            · exact hbounds.2.2.2.2.1
            · exact hbounds.2.2.2.2.2
          have hval := hugeDivideWords_res_toNat (A := BitVec.ofNat 128 a.toNat) (Q := B / C) (R := B % C) (C := C)
            rounding (by omega)
          rw [hA, BitVec.toNat_udiv, BitVec.toNat_umod] at hval
          simp only [BitVec.le_def, hval hbounds.1 hbounds.2.2.1 hsum, hi64, hcode]
          rw [INT64_MAX_toNat]
      · simp only [releaseAssertOrThrow_of_true hnonneg, releaseAssertOrThrow_of_true hC,
          releaseAssertOrThrow_of_false hCmax, pure_bind, Except.throw_bind]
    · simp only [releaseAssertOrThrow_of_true hnonneg, releaseAssertOrThrow_of_false hC, pure_bind,
        Except.throw_bind]
  · simp only [releaseAssertOrThrow_of_false hnonneg, Except.throw_bind]

theorem div_le_rounding_div_mul (rounding : Rounding) {A : ℕ} (hA : 1 ≤ A) (B C : ℕ) :
    B / C ≤ rounding.div (A * B) C := by
  have hB : B ≤ A * B := Nat.le_mul_of_pos_left B hA
  cases rounding with
  | roundDown => exact Nat.div_le_div_right hB
  | roundUp =>
    calc B / C ≤ A * B / C := Nat.div_le_div_right hB
      _ ≤ (A * B + C - 1) / C := by
        rcases Nat.eq_zero_or_pos C with rfl | hC
        · simp
        · exact Nat.div_le_div_right (by omega)

theorem rounding_div_zero (rounding : Rounding) {C : ℕ} (hC : 0 < C) : rounding.div 0 C = 0 := by
  cases rounding with
  | roundDown => exact Nat.zero_div C
  | roundUp => exact (Rounding.roundUp_div_eq_zero_iff hC).mpr rfl

/-- `hugeDivide` is exact rounded division without overflow, over every `int32_t` `a ≥ 0`, every
`uint128_t` `B` and every `0 < C ≤ INT32_MAX * INT64_MAX`: past the early exit no intermediate
value wraps; for `a ≥ 1` the call returns true exactly when the rounded `a * B / C` fits `int64_t`,
with that quotient, and for `a = 0` exactly when `B / C` fits, with `0`. -/
theorem hugeDivide_exact (a : ℤ) (B C : BitVec 128) (rounding : Rounding)
    (ha : 0 ≤ a ∧ a ≤ INT32_MAX) (hC : 0 < C.toNat ∧ C.toNat ≤ INT32_MAX.toNat * INT64_MAX.toNat) :
    (B.toNat / C.toNat ≤ INT64_MAX.toNat →
      a.toNat * (B.toNat / C.toNat) < 2 ^ 128 ∧ a.toNat * (B.toNat % C.toNat) < 2 ^ 128 ∧
        a.toNat * (B.toNat % C.toNat) + C.toNat < 2 ^ 128 ∧
        a.toNat * (B.toNat % C.toNat) + C.toNat - 1 < 2 ^ 128 ∧
        a.toNat * (B.toNat / C.toNat) + a.toNat * (B.toNat % C.toNat) / C.toNat < 2 ^ 128 ∧
        a.toNat * (B.toNat / C.toNat) + (a.toNat * (B.toNat % C.toNat) + C.toNat - 1) / C.toNat < 2 ^ 128) ∧
    (1 ≤ a → hugeDivideWords a B C rounding =
      .ok (if rounding.div (a.toNat * B.toNat) C.toNat ≤ INT64_MAX.toNat
        then some (rounding.div (a.toNat * B.toNat) C.toNat : ℤ) else none)) ∧
    (a = 0 → hugeDivideWords a B C rounding =
      .ok (if B.toNat / C.toNat ≤ INT64_MAX.toNat then some 0 else none)) := by
  have hexact := hugeDivideWords_eq a ha.2 B C rounding
  rw [hugeDivide_eq ha.1 hC.1 hC.2] at hexact
  refine ⟨fun hQ => hugeDivide_no_wrap (by unfold INT32_MAX at ha; omega) hC.1 (by simpa using hC.2)
    (by simpa using hQ), ?_, ?_⟩
  · intro hpos
    rw [hexact]
    by_cases hQ : INT64_MAX.toNat < B.toNat / C.toNat
    · -- the early exit: the rounded quotient is at least `Q`, so it does not fit either
      have hlarge := lt_of_lt_of_le hQ (div_le_rounding_div_mul rounding (A := a.toNat) (by omega) B.toNat C.toNat)
      rw [if_pos hQ, if_neg (not_le.mpr hlarge)]
    · rw [if_neg hQ]
  · rintro rfl
    rw [hexact, Int.toNat_zero, Nat.zero_mul, rounding_div_zero rounding hC.1]
    by_cases hQ : INT64_MAX.toNat < B.toNat / C.toNat
    · rw [if_pos hQ, if_neg (not_le.mpr hQ)]
    · rw [if_neg hQ, if_pos (Nat.zero_le _), if_pos (not_lt.mp hQ)]
      rfl

theorem hugeDivide_exact_roundUp :
    (0 ≤ (3 : ℤ) ∧ (3 : ℤ) ≤ INT32_MAX) ∧
      (0 < (4#128).toNat ∧ (4#128).toNat ≤ INT32_MAX.toNat * INT64_MAX.toNat) ∧
      hugeDivideWords 3 10#128 4#128 .roundUp = .ok (some 8) := by
  have ha : 0 ≤ (3 : ℤ) ∧ (3 : ℤ) ≤ INT32_MAX := ⟨by decide, by unfold INT32_MAX; omega⟩
  have hC : 0 < (4#128).toNat ∧ (4#128).toNat ≤ INT32_MAX.toNat * INT64_MAX.toNat := by
    rw [INT32_MAX_toNat, INT64_MAX_toNat]
    decide
  refine ⟨ha, hC, ?_⟩
  rw [(hugeDivide_exact 3 10#128 4#128 .roundUp ha hC).2.1 (by decide)]
  rfl

end HugeDivideWords

/-! ## The square root is exact -/

section BigSquareRoot

variable {R : ℕ}

theorem bigDivideUnsigned128_roundUp {a B : ℕ} (hB : 0 < B) (ha : a + B ≤ UINT128_MAX + 1)
    (hfit : Babylonian.ceilDiv a B ≤ UINT64_MAX) :
    bigDivideUnsigned128 a B .roundUp = .ok (some (Babylonian.ceilDiv a B)) := by
  unfold Babylonian.ceilDiv at hfit ⊢
  simp only [bigDivideUnsigned128, releaseAssertOrThrow_of_true (Nat.pos_iff_ne_zero.mp hB), pure_bind, true_and]
  rw [if_neg (by omega), if_pos hfit]
  rfl

theorem bigSquareRootCeilLoop_succ {fuel : ℕ} {x prev : UInt64} (hR : R + 2 ^ 64 ≤ UINT128_MAX + 1)
    (hx : Nat.sqrt R + 1 ≤ x.toNat) (hne : x ≠ prev) :
    bigSquareRootCeilLoop R (fuel + 1) x prev =
      bigSquareRootCeilLoop R fuel (UInt64.ofNat (Babylonian.step R x.toNat)) x := by
  have hxlt := x.toNat_lt
  have hy := Babylonian.ceilDiv_le_sqrt_succ hx
  have hdiv := bigDivideUnsigned128_roundUp (a := R) (B := x.toNat) (by omega) (by omega)
    (by unfold UINT64_MAX; omega)
  have hyNat : (UInt64.ofNat (Babylonian.ceilDiv R x.toNat)).toNat = Babylonian.ceilDiv R x.toNat :=
    UInt64.toNat_ofNat_of_lt' (by simp only [UInt64.size]; omega)
  rw [bigSquareRootCeilLoop, if_neg hne, hdiv]
  show bigSquareRootCeilLoop R fuel _ x = _
  refine congrArg (fun next => bigSquareRootCeilLoop R fuel next x) ?_
  have hstep : Babylonian.step R x.toNat < 2 ^ 64 := by
    unfold Babylonian.step
    omega
  split_ifs with hbranch
  · -- `x + y + 1` would wrap: the halving is done in 128 bits
    rw [hyNat, Babylonian.step, show 1 + x.toNat + Babylonian.ceilDiv R x.toNat =
      x.toNat + Babylonian.ceilDiv R x.toNat + 1 by omega]
  · -- no wrap: the 64-bit sum is the exact one
    have hmax : (UInt64.ofNat UINT64_MAX).toNat = 2 ^ 64 - 1 := UInt64.toNat_ofNat_of_lt' (by decide)
    rw [UInt64.le_iff_toNat_le, UInt64.toNat_sub_of_le _ _ (by
      rw [UInt64.le_iff_toNat_le, hmax]; omega), hmax, hyNat] at hbranch
    apply UInt64.toNat_inj.mp
    rw [UInt64.toNat_div, UInt64.toNat_add, UInt64.toNat_add, hyNat, UInt64.toNat_one,
      UInt64.toNat_ofNat_of_lt' (by simp only [UInt64.size]; omega), Babylonian.step,
      Nat.mod_eq_of_lt (by omega), Nat.mod_eq_of_lt (by omega)]
    rfl

theorem bigSquareRootCeilLoop_eq (hR : R + 2 ^ 64 ≤ UINT128_MAX + 1) (fuel : ℕ) :
    ∀ x prev : UInt64, Nat.sqrt R + 1 ≤ x.toNat → x ≠ prev → x.toNat - (Nat.sqrt R + 1) + 2 ≤ fuel →
      bigSquareRootCeilLoop R fuel x prev = .ok (UInt64.ofNat (Nat.sqrt R + 1)) := by
  induction fuel with
  | zero => intro x prev _ _ hfuel; omega
  | succ fuel ih =>
    intro x prev hx hne hfuel
    have hxlt := x.toNat_lt
    have hlow := Babylonian.sqrt_succ_le_step hx
    have hstepLe : Babylonian.step R x.toNat ≤ x.toNat := by
      rcases Nat.lt_or_ge (Nat.sqrt R + 1) x.toNat with hgt | hle
      · exact le_of_lt (Babylonian.step_lt hgt)
      · have hxeq : x.toNat = Nat.sqrt R + 1 := by omega
        rw [hxeq, Babylonian.step_sqrt_succ]
    have hnext : (UInt64.ofNat (Babylonian.step R x.toNat)).toNat = Babylonian.step R x.toNat :=
      UInt64.toNat_ofNat_of_lt' (by simp only [UInt64.size]; omega)
    rw [bigSquareRootCeilLoop_succ hR hx hne]
    by_cases hsame : UInt64.ofNat (Babylonian.step R x.toNat) = x
    · -- the step stays put: `x` is the fixed point, and the next round sees `x = prev`
      have hxeq : x.toNat = Nat.sqrt R + 1 := by
        by_contra hxne
        have hlt := Babylonian.step_lt (R := R) (x := x.toNat) (by omega)
        rw [← hnext, hsame] at hlt
        omega
      obtain ⟨fuel', rfl⟩ : ∃ fuel', fuel = fuel' + 1 := ⟨fuel - 1, by omega⟩
      rw [hsame, bigSquareRootCeilLoop, if_pos rfl, ← hxeq, UInt64.ofNat_toNat]
      rfl
    · -- the step goes down
      have hlt : Babylonian.step R x.toNat < x.toNat := by
        rcases Nat.lt_or_ge (Babylonian.step R x.toNat) x.toNat with h | h
        · exact h
        · exact absurd (UInt64.toNat_inj.mp (by rw [hnext]; omega)) hsame
      exact ih _ _ (by rw [hnext]; exact hlow) hsame (by rw [hnext]; omega)

theorem sqrt_succ_le_seed (hR : R < (2 ^ 64 - 1) * (2 ^ 64 - 1)) :
    Nat.sqrt R + 1 ≤ (if uint128_bits R / 2 + 1 ≥ 64 then UInt64.ofNat UINT64_MAX
      else (1 : UInt64) <<< UInt64.ofNat (uint128_bits R / 2 + 1)).toNat := by
  have hsqrt : Nat.sqrt R < 2 ^ 64 - 1 := Nat.sqrt_lt.mpr hR
  split_ifs with hbits
  · rw [UInt64.toNat_ofNat_of_lt' (by decide)]
    unfold UINT64_MAX
    omega
  · have hbits' : uint128_bits R / 2 + 1 < 64 := by omega
    have hpow : ((1 : UInt64) <<< UInt64.ofNat (uint128_bits R / 2 + 1)).toNat = 2 ^ (uint128_bits R / 2 + 1) := by
      rw [UInt64.toNat_shiftLeft, UInt64.toNat_one, UInt64.toNat_ofNat_of_lt' (by simp only [UInt64.size]; omega),
        Nat.mod_eq_of_lt hbits', Nat.one_shiftLeft]
      exact Nat.mod_eq_of_lt (Nat.pow_lt_pow_right (by decide) hbits')
    rw [hpow, Nat.succ_le_iff, Nat.sqrt_lt']
    calc R < 2 ^ uint128_bits R := Nat.lt_size_self R
      _ ≤ 2 ^ (2 * (uint128_bits R / 2 + 1)) := Nat.pow_le_pow_right (by decide) (by omega)
      _ = (2 ^ (uint128_bits R / 2 + 1)) ^ 2 := by rw [← Nat.pow_mul, Nat.mul_comm]

theorem bigSquareRootCeil_eq (a b : UInt64) :
    bigSquareRootCeil a b =
      .ok (if a.toNat * b.toNat = 0 then 0 else UInt64.ofNat (Nat.sqrt (a.toNat * b.toNat - 1) + 1)) := by
  have hprod : a.toNat * b.toNat ≤ (2 ^ 64 - 1) * (2 ^ 64 - 1) :=
    Nat.mul_le_mul (by have := a.toNat_lt; omega) (by have := b.toNat_lt; omega)
  unfold bigSquareRootCeil
  by_cases hzero : a = 0 ∨ b = 0
  · have hmul : a.toNat * b.toNat = 0 := by
      rcases hzero with rfl | rfl <;> simp
    rw [if_pos hzero, if_pos hmul]
    rfl
  · have ha : a.toNat ≠ 0 := fun h => hzero (.inl (UInt64.toNat_inj.mp (by simpa using h)))
    have hb : b.toNat ≠ 0 := fun h => hzero (.inr (UInt64.toNat_inj.mp (by simpa using h)))
    have hpos : 0 < a.toNat * b.toNat := Nat.mul_pos (Nat.pos_of_ne_zero ha) (Nat.pos_of_ne_zero hb)
    have hR : a.toNat * b.toNat - 1 < (2 ^ 64 - 1) * (2 ^ 64 - 1) := by omega
    have hseed := sqrt_succ_le_seed hR
    have hseedLt := UInt64.toNat_lt (if uint128_bits (a.toNat * b.toNat - 1) / 2 + 1 ≥ 64 then
      UInt64.ofNat UINT64_MAX else 1 <<< UInt64.ofNat (uint128_bits (a.toNat * b.toNat - 1) / 2 + 1))
    rw [if_neg hzero, if_neg (by omega)]
    apply bigSquareRootCeilLoop_eq (by unfold UINT128_MAX; omega) _ _ _ hseed
    · intro hseed0
      rw [hseed0] at hseed
      simp at hseed
    · omega

/-- `bigSquareRoot` is exact over all of `uint64_t`: the loop of `bigSquareRootCeil` ends, without
a zero divisor and without its overflow throw, at `⌈√(a * b)⌉`, and the result is `⌊√(a * b)⌋`. -/
theorem bigSquareRoot_spec (a b : UInt64) :
    (∃ c, bigSquareRootCeil a b = .ok c ∧ IsLeast {m | a.toNat * b.toNat ≤ m * m} c.toNat) ∧
      ∃ x, bigSquareRoot a b = .ok x ∧ x.toNat * x.toNat ≤ a.toNat * b.toNat ∧
        a.toNat * b.toNat < (x.toNat + 1) * (x.toNat + 1) := by
  set P := a.toNat * b.toNat with hP
  have hprod : P ≤ (2 ^ 64 - 1) * (2 ^ 64 - 1) :=
    Nat.mul_le_mul (by have := a.toNat_lt; omega) (by have := b.toNat_lt; omega)
  set c : UInt64 := if P = 0 then 0 else UInt64.ofNat (Nat.sqrt (P - 1) + 1) with hc
  have hcNat : c.toNat = if P = 0 then 0 else Nat.sqrt (P - 1) + 1 := by
    rw [hc]
    split_ifs
    · rfl
    · have hsqrt : Nat.sqrt (P - 1) < 2 ^ 64 - 1 := Nat.sqrt_lt.mpr (by omega)
      exact UInt64.toNat_ofNat_of_lt' (by simp only [UInt64.size]; omega)
  have hleast : IsLeast {m | P ≤ m * m} c.toNat := hcNat ▸ Babylonian.isLeast_ceil_sqrt P
  have hceil : bigSquareRootCeil a b = .ok c := bigSquareRootCeil_eq a b
  refine ⟨⟨c, hceil, hleast⟩, ?_⟩
  have hsqrt := Babylonian.sqrt_eq_of_isLeast hleast
  have hroot : bigSquareRoot a b = .ok (if c.toNat * c.toNat ≤ P then c else c - 1) := by
    by_cases h : c.toNat * c.toNat ≤ P <;> simp only [bigSquareRoot, hceil, bigMultiplyUnsigned, ← hP, h,
      Except.ok_bind, if_true, if_false] <;> rfl
  refine ⟨_, hroot, ?_⟩
  have hxNat : (if c.toNat * c.toNat ≤ P then c else c - 1).toNat = Nat.sqrt P := by
    rw [← hsqrt]
    split_ifs with h
    · rfl
    · have hpos : 0 < c.toNat := by
        rcases Nat.eq_zero_or_pos c.toNat with h0 | h0
        · rw [h0] at h
          simp at h
        · exact h0
      exact UInt64.toNat_sub_of_le _ _ (by rw [UInt64.le_iff_toNat_le, UInt64.toNat_one]; omega)
  rw [hxNat]
  exact ⟨Nat.sqrt_le P, Nat.lt_succ_sqrt P⟩

end BigSquareRoot

end Util

end HcnetCore
