import HcnetCore.Herder.SurgePricing

/-! # The limiter of the transaction queue, herder/TxQueueLimiter

`TxQueueLimiter` holds the transactions of the queue, each as a stack of its own
(`SingleTxStack`), in a lowest-priority `SurgePricingPriorityQueue`. It keeps the stack of each
transaction (`mStackForTx`), the source accounts that have a transaction (`mEnforceSingleAccounts`)
and, for each lane, the bid of the last transaction evicted on that lane's account
(`mLaneEvictedInclusionFee`). `canAddTx` refuses a transaction that does not beat the bids evicted
from its lane and from the generic lane, and otherwise asks the queue which stacks to evict;
`evictTransactions` evicts them through its caller until the transaction fits.

The model starts at the first `reset`: before it `mTxs` is null and only `canAddTx` looks at it,
to reset. What `reset` reads of the ledger and the configuration (the lane configuration it builds
for the ledger version, a `DexLimitingLaneConfig` or a `SorobanGenericLaneConfig`, and the seed it
draws) and the `maxScaledLedgerResources` of the ledger manager are arguments. A transaction is
identified by its frame, as the map and the queue identify it by its pointer. The optional
`mEnforceSingleAccounts` is engaged by the constructor and never disengaged, so it is a set here.
The limiter's lane configurations read a transaction's resources with `getResources(false)`, as its
stacks do, so the resources of a stack are those the lane configuration gives its transaction.
-/

namespace HcnetCore.Herder

open Overlay (releaseAssert)

set_option autoImplicit false

variable {A : Type} {L n : ℕ}

deriving instance DecidableEq for TxFrame

def SingleTxStack (getResources : TxFrame A → Resource n) (tx : TxFrame A) : TxStack A n :=
  ⟨tx, [], fun _ => getResources tx⟩

/-- `updateGenericLaneLimit`, which both lane configurations implement as `mLaneLimits[0] = limit`. -/
def SurgePricingLaneConfig.updateGenericLaneLimit [NeZero L] (cfg : SurgePricingLaneConfig A L n)
    (limit : Resource n) : SurgePricingLaneConfig A L n :=
  { cfg with getLaneLimits := Function.update cfg.getLaneLimits GENERIC_LANE limit }

/-- The state of `TxQueueLimiter` from its first `reset` on: `mStackForTx`, `mTxs`,
`mLaneEvictedInclusionFee` and `mEnforceSingleAccounts`. The lane configuration is the queue's. -/
structure TxQueueLimiter (A : Type) (L n : ℕ) [DecidableEq A] where
  stackForTx : AList fun _ : TxFrame A => TxStack A n
  txs : SurgePricingPriorityQueue A L n
  laneEvictedInclusionFee : Fin L → ℤ × ℕ
  enforceSingleAccounts : Finset A

namespace TxQueueLimiter

variable [DecidableEq A] [NeZero L] (l : TxQueueLimiter A L n)

/-- The `computeBetterFee` of the limiter: the least fee that beats an evicted bid whose rate is
not below `tx`'s, and zero when no bid was evicted or `tx` beats it already. -/
def computeBetterFee (evictedBid : ℤ × ℕ) (tx : TxFrame A) : Except String ℤ := do
  -- the comparison runs only past the first test of the `&&`
  if evictedBid.2 ≠ 0 then
    if (← feeRate3WayCompare evictedBid.1 evictedBid.2 tx.inclusionFee tx.numOperations) ≠ .lt then
      Herder.computeBetterFee tx evictedBid.1 evictedBid.2
    else pure 0
  else pure 0

def addTransaction (tx : TxFrame A) : Except String (TxQueueLimiter A L n) := do
  if tx.sourceID ∈ l.enforceSingleAccounts then
    throw "invalid state (duplicate account) while adding tx in TxQueueLimiter"
  let txStack := SingleTxStack l.txs.laneConfig.getTxResources tx
  let txs ← l.txs.add txStack
  pure { l with
    enforceSingleAccounts := insert tx.sourceID l.enforceSingleAccounts
    stackForTx := l.stackForTx.insert tx txStack
    txs := txs }

def removeTransaction (tx : TxFrame A) : Except String (TxQueueLimiter A L n) := do
  match l.stackForTx.lookup tx with
  | none => throw "invalid state (missing tx) while removing tx in TxQueueLimiter"
  | some txStack =>
    let txs ← l.txs.erase txStack
    if tx.sourceID ∈ l.enforceSingleAccounts then
      pure { l with
        txs := txs
        stackForTx := l.stackForTx.erase tx
        enforceSingleAccounts := l.enforceSingleAccounts.erase tx.sourceID }
    else throw "invalid state (missing account) while removing tx in TxQueueLimiter"

/-- `canAddTx`, once the queue exists: `newTx` must beat the bids evicted from its lane and from
the generic lane, and then the queue, under the generic limit brought up to date, is asked whether
it fits once some stacks are evicted, the resources of `oldTx` being a discount. -/
def canAddTx (newTx : TxFrame A) (oldTx : Option (TxFrame A)) (txsToEvict : List (TxStack A n × Bool))
    (maxScaledLedgerResources : Resource n) :
    Except String (TxQueueLimiter A L n × (Bool × ℤ) × List (TxStack A n × Bool)) := do
  let cfg := l.txs.laneConfig
  let laneFee ← computeBetterFee (l.laneEvictedInclusionFee (cfg.getLane newTx)) newTx
  let genericFee ← computeBetterFee (l.laneEvictedInclusionFee GENERIC_LANE) newTx
  let minInclusionFeeToBeatEvicted := max laneFee genericFee
  if minInclusionFeeToBeatEvicted > 0 then
    pure (l, (false, minInclusionFeeToBeatEvicted + (newTx.fullFee - newTx.inclusionFee)), txsToEvict)
  else
    let oldTxDiscount := oldTx.map cfg.getTxResources
    let l := { l with txs := { l.txs with laneConfig := cfg.updateGenericLaneLimit maxScaledLedgerResources } }
    let (res, txsToEvict) ← l.txs.canFitWithEviction newTx oldTxDiscount txsToEvict
    pure (l, res, txsToEvict)

section Eviction

/- `evictTransactions` calls back its caller, which evicts a transaction from the whole transaction
queue, the limiter included: the loop runs in the caller's world `σ`, whose limiter it reads and
writes through `limiter` and `setLimiter`. -/
variable {σ : Type} (limiter : σ → TxQueueLimiter A L n) (setLimiter : σ → TxQueueLimiter A L n → σ)
  (evict : TxFrame A → σ → Except String σ)

/-- The loop of `evictTransactions`: each listed stack's top transaction is recorded as the bid
evicted from its lane, when it was evicted for the lane's limit, or from the generic lane, and is
evicted; the loop stops once the transaction to fit fits the total limit and its lane's. -/
def evictLoop (resourcesToFit : Resource n) (txToFitLane : Fin L) (maxLimits : Resource n) :
    σ → List (TxStack A n × Bool) → Except String σ
  | w, [] => pure w
  | w, (evictedStack, evictedDueToLaneLimit) :: rest => do
    let l := limiter w
    let tx := evictedStack.top
    let lane := if evictedDueToLaneLimit then l.txs.laneConfig.getLane tx else GENERIC_LANE
    let w := setLimiter w { l with
      laneEvictedInclusionFee := Function.update l.laneEvictedInclusionFee lane (tx.inclusionFee, tx.numOperations) }
    let w ← evict tx w
    let l := limiter w
    let total ← l.txs.totalResources
    if Resource.le (← total.add resourcesToFit) maxLimits then
      if txToFitLane = GENERIC_LANE then pure w
      else if Resource.le (← (l.txs.laneResources txToFitLane).add resourcesToFit)
          (l.txs.laneConfig.getLaneLimits txToFitLane) then pure w
      else evictLoop resourcesToFit txToFitLane maxLimits w rest
    else evictLoop resourcesToFit txToFitLane maxLimits w rest

def evictTransactions (w : σ) (txsToEvict : List (TxStack A n × Bool)) (txToFit : TxFrame A)
    (maxLimits : Resource n) : Except String σ := do
  let l := limiter w
  let resourcesToFit := l.txs.laneConfig.getTxResources txToFit
  let txToFitLane := l.txs.laneConfig.getLane txToFit
  let w ← evictLoop limiter setLimiter evict resourcesToFit txToFitLane maxLimits w txsToEvict
  let total ← (limiter w).txs.totalResources
  releaseAssert (Resource.le (← total.add resourcesToFit) maxLimits = true)
    "mTxs->totalResources() + resourcesToFit <= maxLimits"
  pure w

end Eviction

def resetEvictionState : TxQueueLimiter A L n :=
  { l with laneEvictedInclusionFee := fun _ => (0, 0) }

end TxQueueLimiter

variable [DecidableEq A] [NeZero L]

/-- `reset`, with the lane configuration it builds and the seed it draws: a new lowest-priority
queue, no transactions, no accounts, and no bid evicted. -/
def TxQueueLimiter.reset (laneConfig : SurgePricingLaneConfig A L n) (seed : ℕ) : TxQueueLimiter A L n where
  stackForTx := ∅
  txs := SurgePricingPriorityQueue.create false laneConfig seed
  laneEvictedInclusionFee := fun _ => (0, 0)
  enforceSingleAccounts := ∅

end HcnetCore.Herder
