import HcnetCore.Util.Numeric
import HcnetCore.Ledger.Entry

/-! # Crossing offers: exchangeV10 and adjustOffer

The part of transactions/OfferExchange that computes how much of an offer crosses: the values of
the two sides (`calculateOfferValue`), the exchange with its rounding (`exchangeV10WithoutPriceErrorThresholds`),
the 1% price error bound (`checkPriceErrorBound`, `applyPriceErrorThresholds`), and `adjustOffer`.
Amounts are `int64_t`s and prices `int32_t` pairs, both as integers; `std::runtime_error`s are
errors with their text.
-/

namespace HcnetCore.Transactions

set_option autoImplicit false

inductive RoundingType where
  | normal
  | pathPaymentStrictSend
  | pathPaymentStrictReceive
deriving DecidableEq, Repr

open Util
open Scp (Rounding)
open Ledger (Price)

/-- `calculateOfferValue`: the smaller of what an offer can send and what it can receive, both
scaled by the price to one unit. -/
def calculateOfferValue (priceN priceD maxSend maxReceive : ℤ) : Except String ℕ := do
  let sendValue ← bigMultiply maxSend priceN
  let receiveValue ← bigMultiply maxReceive priceD
  pure (min sendValue receiveValue)

structure ExchangeResultV10 where
  numWheatReceived : ℤ
  numSheepSend : ℤ
  wheatStays : Bool
deriving DecidableEq, Repr

/-- The two divisions each branch of `exchangeV10WithoutPriceErrorThresholds` but one makes: the
amount on the side of `first` is `value / first` rounded down, and the other amount is that one
converted at `first / second`, rounded as the branch asks. -/
def divideAndConvert (value : ℕ) (first second : ℤ) (rounding : Rounding) : Except String (ℤ × ℤ) := do
  let amount ← bigDivideOrThrow128 value first .roundDown
  let converted ← bigDivideOrThrow amount first second rounding
  pure (amount, converted)

/-- The branches of `exchangeV10WithoutPriceErrorThresholds` that choose the amounts crossed,
`(wheatReceive, sheepSend)`, from the two offers' values. -/
def crossAmounts (price : Price) (wheatValue sheepValue : ℕ) (maxSheepSend maxSheepReceive : ℤ)
    (round : RoundingType) : Except String (ℤ × ℤ) :=
  if wheatValue > sheepValue then
    if round = .pathPaymentStrictSend then do
      let wheatReceive ← bigDivideOrThrow128 sheepValue price.n .roundDown
      pure (wheatReceive, min maxSheepSend maxSheepReceive)
    -- wheat is more valuable, or strict receive
    else if price.n > price.d ∨ round = .pathPaymentStrictReceive then
      divideAndConvert sheepValue price.n price.d .roundUp
    -- sheep is more valuable: sheep is divided first
    else Prod.swap <$> divideAndConvert sheepValue price.d price.n .roundDown
  else if price.n > price.d then divideAndConvert wheatValue price.n price.d .roundDown
  else Prod.swap <$> divideAndConvert wheatValue price.d price.n .roundUp

def exchangeV10WithoutPriceErrorThresholds (price : Price)
    (maxWheatSend maxWheatReceive maxSheepSend maxSheepReceive : ℤ) (round : RoundingType) :
    Except String ExchangeResultV10 := do
  let wheatValue ← calculateOfferValue price.n price.d maxWheatSend maxSheepReceive
  let sheepValue ← calculateOfferValue price.d price.n maxSheepSend maxWheatReceive
  let wheatStays := decide (wheatValue > sheepValue)
  let (wheatReceive, sheepSend) ← crossAmounts price wheatValue sheepValue maxSheepSend maxSheepReceive round
  if wheatReceive < 0 ∨ wheatReceive > min maxWheatReceive maxWheatSend then
    throw "wheatReceive out of bounds"
  if sheepSend < 0 ∨ sheepSend > min maxSheepReceive maxSheepSend then
    throw "sheepSend out of bounds"
  pure ⟨wheatReceive, sheepSend, wheatStays⟩

/-- `checkPriceErrorBound`: the effective price `sheepSend / wheatReceive` is within 1% of the
price, or, when `canFavorWheat`, above it by any amount. -/
def checkPriceErrorBound (price : Price) (wheatReceive sheepSend : ℤ) (canFavorWheat : Bool) :
    Except String Bool := do
  let errN := 100 * price.n
  let errD := 100 * price.d
  let lhs ← bigMultiply errN wheatReceive
  let rhs ← bigMultiply errD sheepSend
  if canFavorWheat ∧ rhs > lhs then return true
  let absDiff := if lhs > rhs then lhs - rhs else rhs - lhs
  let cap ← bigMultiply price.n wheatReceive
  pure (decide (absDiff ≤ cap))

def applyPriceErrorThresholds (price : Price) (wheatReceive sheepSend : ℤ) (wheatStays : Bool)
    (round : RoundingType) : Except String ExchangeResultV10 := do
  if wheatReceive > 0 ∧ sheepSend > 0 then
    let wheatReceiveValue ← bigMultiply wheatReceive price.n
    let sheepSendValue ← bigMultiply sheepSend price.d
    if wheatStays ∧ sheepSendValue < wheatReceiveValue then throw "favored sheep when wheat stays"
    if !wheatStays ∧ sheepSendValue > wheatReceiveValue then throw "favored wheat when sheep stays"
    if round = .normal then
      -- no trade when a seller would get a price more than 1% worse
      if !(← checkPriceErrorBound price wheatReceive sheepSend false) then return ⟨0, 0, wheatStays⟩
      pure ⟨wheatReceive, sheepSend, wheatStays⟩
    else
      if !(← checkPriceErrorBound price wheatReceive sheepSend true) then throw "exceeded price error bound"
      pure ⟨wheatReceive, sheepSend, wheatStays⟩
  else
    match round with
    | .pathPaymentStrictSend =>
      if sheepSend = 0 then throw "invalid amount of sheep sent"
      pure ⟨wheatReceive, sheepSend, wheatStays⟩
    | _ => pure ⟨0, 0, wheatStays⟩

def exchangeV10 (price : Price) (maxWheatSend maxWheatReceive maxSheepSend maxSheepReceive : ℤ)
    (round : RoundingType) : Except String ExchangeResultV10 := do
  let beforeThresholds ← exchangeV10WithoutPriceErrorThresholds price maxWheatSend maxWheatReceive
    maxSheepSend maxSheepReceive round
  applyPriceErrorThresholds price beforeThresholds.numWheatReceived beforeThresholds.numSheepSend
    beforeThresholds.wheatStays round

/-- `adjustOffer`: what of an offer a buyer with no limits would take. -/
def adjustOffer (price : Price) (maxWheatSend maxSheepReceive : ℤ) : Except String ℤ := do
  let res ← exchangeV10 price maxWheatSend INT64_MAX INT64_MAX maxSheepReceive .normal
  pure res.numWheatReceived

end HcnetCore.Transactions
