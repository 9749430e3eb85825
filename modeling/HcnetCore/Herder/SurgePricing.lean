import HcnetCore.Util.TxResource
import HcnetCore.Library.SortedList
import HcnetCore.Library.MultiwayMerge

/-! # The surge-pricing priority queue of herder/SurgePricingUtils

`SurgePricingPriorityQueue` keeps transaction stacks in one `std::set` per lane, ordered by the
fee rate of their top transaction (highest first for the highest-priority queue, lowest first
for the lowest-priority one), with ties broken by the address of the transaction mixed with a
seed. It counts the resources of each lane's stacks, pops the best transactions within the lane
limits (`popTopTxs`), and finds the cheapest stacks to evict for a new transaction
(`canFitWithEviction`).

A transaction frame is what the queue reads of it. A stack is never empty while the queue holds
it: it is its top transaction and those below, with the `getResources` of its implementation.
A set is a list in the set's order, a set iterator the stack it points to and those after it,
and the queue's `Iterator` a list of such cursors, one per lane, over which
`MultiwayMerge` finds the best. The comparator's `feeRate3WayCompare` takes the cross products
that `bigMultiply` computes, and `bigMultiply` throws on a negative fee bid; the exception passes
through the searches of the sets and of the iterator. A set searches its list in order, where
the `std::set` walks down its tree, so where a negative bid is met the two may throw at different
comparisons; `TransactionQueue` admits no negative bid. The loops of `popTopTxs` and
`canFitWithEviction` run on fuel that their callers make large enough for every round the loops
can make.
-/

namespace HcnetCore.Herder

open Overlay (releaseAssert)
open Scp (Rounding)

set_option autoImplicit false

variable {A : Type} {L n : ℕ}

inductive EnvelopeType
  | ENVELOPE_TYPE_TX_V0
  | ENVELOPE_TYPE_TX
  | ENVELOPE_TYPE_TX_FEE_BUMP
  deriving DecidableEq, Repr

/-- What the modelled code reads of a `TransactionFrameBase`. The queue reads
`getInclusionFee()`, `getFullFee()`, `getNumOperations()`, `getSourceID()`, and the address of
the frame, which breaks ties; the transaction queue reads the rest: `getFeeSourceID()`,
`getSeqNum()`, `getMinSeqNum()`, `getMinSeqAge()`, `getMinSeqLedgerGap()`, the type of the
envelope, `getFullHash()` and, for a fee bump, `getInnerFullHash()`, the types of the operations of
the envelope's transaction (of the inner one for a fee bump), and `XDRProvidesValidFee()`. Hashes
are numbers. -/
structure TxFrame (A : Type) where
  inclusionFee : ℤ
  fullFee : ℤ
  numOperations : ℕ
  sourceID : A
  address : ℕ
  feeSourceID : A
  seqNum : ℤ
  minSeqNum : Option ℤ
  minSeqAge : ℕ
  minSeqLedgerGap : ℕ
  envelopeType : EnvelopeType
  fullHash : ℕ
  innerFullHash : ℕ
  operationTypes : List ℕ
  XDRProvidesValidFee : Bool

/-- `feeRate3WayCompare`: `lFeeBid / lNbOps` against `rFeeBid / rNbOps`, through the products
`lFeeBid * rNbOps` and `rFeeBid * lNbOps` that `bigMultiply` takes in 128 bits. -/
def feeRate3WayCompare (lFeeBid : ℤ) (lNbOps : ℕ) (rFeeBid : ℤ) (rNbOps : ℕ) : Except String Ordering := do
  let v1 ← Util.bigMultiply lFeeBid rNbOps
  let v2 ← Util.bigMultiply rFeeBid lNbOps
  pure (compare v1 v2)

def computeBetterFee (tx : TxFrame A) (refFeeBid : ℤ) (refNbOps : ℕ) : Except String ℤ := do
  let m := INT64_MAX
  let v ← Util.bigDivide refFeeBid tx.numOperations refNbOps .roundDown
  pure (match v with
    | some v => if v < m then v + 1 else m
    | none => m)

/-- A `TxStack` the queue holds: its top transaction, those below it, and the `getResources` of
its implementation, as a function of its transactions. -/
structure TxStack (A : Type) (n : ℕ) where
  top : TxFrame A
  rest : List (TxFrame A)
  resourcesOf : List (TxFrame A) → Resource n

namespace TxStack

def txs (s : TxStack A n) : List (TxFrame A) := s.top :: s.rest

def getResources (s : TxStack A n) : Resource n := s.resourcesOf s.txs

def popTopTx (s : TxStack A n) : Option (TxStack A n) :=
  match s.rest with
  | [] => none
  | tx :: rest => some ⟨tx, rest, s.resourcesOf⟩

end TxStack

structure SurgePricingLaneConfig (A : Type) (L n : ℕ) where
  getLane : TxFrame A → Fin L
  getLaneLimits : Fin L → Resource n
  getTxResources : TxFrame A → Resource n

def GENERIC_LANE [NeZero L] : Fin L := 0

structure TxStackComparator where
  isGreater : Bool
  seed : ℕ

namespace TxStackComparator

def txLessThan (c : TxStackComparator) (tx1 tx2 : TxFrame A) (breakTiesWithHash : Bool) : Except String Bool := do
  let cmp3 ← feeRate3WayCompare tx1.inclusionFee tx1.numOperations tx2.inclusionFee tx2.numOperations
  if cmp3 ≠ .eq ∨ !breakTiesWithHash then pure (decide (cmp3 = .lt))
  else pure (decide (tx1.address ^^^ c.seed < tx2.address ^^^ c.seed))

def txStackLessThan (c : TxStackComparator) (s1 s2 : TxStack A n) : Except String Bool :=
  c.txLessThan s1.top s2.top true

def compare (c : TxStackComparator) (s1 s2 : TxStack A n) : Except String Bool := do
  pure ((← c.txStackLessThan s1 s2) ^^ c.isGreater)

def compareFeeOnly (c : TxStackComparator) (tx1 tx2 : TxFrame A) : Except String Bool := do
  let isLess := (← feeRate3WayCompare tx1.inclusionFee tx1.numOperations tx2.inclusionFee tx2.numOperations) = .lt
  pure (decide isLess ^^ c.isGreater)

end TxStackComparator

abbrev LaneIter (A : Type) (L n : ℕ) := MultiwayMerge.Cursor (Fin L) (TxStack A n)

inductive VisitTxStackResult where
  | txSkipped
  | txProcessed
  | txStackSkipped
deriving DecidableEq, Repr

/-- The state of `SurgePricingPriorityQueue`: the comparator, the lane configuration,
`mLaneCurrentCount` and `mTxStackSets`. -/
structure SurgePricingPriorityQueue (A : Type) (L n : ℕ) where
  comparator : TxStackComparator
  laneConfig : SurgePricingLaneConfig A L n
  laneCurrentCount : Fin L → Resource n
  txStackSets : Fin L → List (TxStack A n)

/-- How the search of `popTopTxs` for a stack to visit ends: a stack that did not fit was
erased (`gapSkipped`), nothing more can be popped, or the iterator points at a stack that fits. -/
inductive TopSearch (A : Type) (L n : ℕ) where
  | gapSkipped (q : SurgePricingPriorityQueue A L n) (hadTxNotFittingLane : Fin L → Bool)
  | stop
  | found (currIt : List (LaneIter A L n))

/-- What `popTopTxs` carries through its loop: the queue, the state of the visitor, what is left
under each lane's limit, and the lanes in which a transaction did not fit. -/
structure PopState (A : Type) (L n : ℕ) (σ : Type) where
  queue : SurgePricingPriorityQueue A L n
  visitorState : σ
  laneLeftUntilLimit : Fin L → Resource n
  hadTxNotFittingLane : Fin L → Bool

namespace Iterator

variable (c : TxStackComparator)

def getMutableInnerIter (iters : List (LaneIter A L n)) : Except String (ℕ × LaneIter A L n) := do
  match ← MultiwayMerge.bestM c.compare iters with
  | some best => pure best
  | none => throw "!isEnd()"

def dropLane (iters : List (LaneIter A L n)) : Except String (List (LaneIter A L n)) := do
  let (i, _) ← getMutableInnerIter c iters
  pure (iters.eraseIdx i)

def advance (iters : List (LaneIter A L n)) : Except String (List (LaneIter A L n)) := do
  let (i, it) ← getMutableInnerIter c iters
  pure (MultiwayMerge.advanceAt iters i it)

end Iterator

def takeLaneResources [NeZero L] (laneLeftUntilLimit : Fin L → Resource n) (lane : Fin L) (res : Resource n) :
    Except String (Fin L → Resource n) := do
  let generic ← (laneLeftUntilLimit GENERIC_LANE).sub res
  let laneLeftUntilLimit := Function.update laneLeftUntilLimit GENERIC_LANE generic
  if lane ≠ GENERIC_LANE then
    let own ← (laneLeftUntilLimit lane).sub res
    pure (Function.update laneLeftUntilLimit lane own)
  else pure laneLeftUntilLimit

namespace SurgePricingPriorityQueue

variable (q : SurgePricingPriorityQueue A L n)

def create [NeZero L] (isHighestPriority : Bool) (laneConfig : SurgePricingLaneConfig A L n)
    (comparisonSeed : ℕ) : SurgePricingPriorityQueue A L n where
  comparator := ⟨isHighestPriority, comparisonSeed⟩
  laneConfig := laneConfig
  laneCurrentCount := fun _ => Resource.makeEmpty
  txStackSets := fun _ => []

def laneLimits : Fin L → Resource n := q.laneConfig.getLaneLimits

def add (txStack : TxStack A n) : Except String (SurgePricingPriorityQueue A L n) := do
  let lane := q.laneConfig.getLane txStack.top
  let (set, inserted) ← SortedList.insertByM q.comparator.compare txStack (q.txStackSets lane)
  let q := { q with txStackSets := Function.update q.txStackSets lane set }
  if inserted then
    let count ← (q.laneCurrentCount lane).add txStack.getResources
    pure { q with laneCurrentCount := Function.update q.laneCurrentCount lane count }
  else pure q

def eraseAt (lane : Fin L) (txStack : TxStack A n) (pos : ℕ) : Except String (SurgePricingPriorityQueue A L n) := do
  let res := txStack.getResources
  releaseAssert (Resource.le res (q.laneCurrentCount lane) = true) "res <= mLaneCurrentCount[lane]"
  let count ← (q.laneCurrentCount lane).sub res
  pure { q with
    laneCurrentCount := Function.update q.laneCurrentCount lane count
    txStackSets := Function.update q.txStackSets lane ((q.txStackSets lane).eraseIdx pos) }

def erase (txStack : TxStack A n) : Except String (SurgePricingPriorityQueue A L n) := do
  let lane := q.laneConfig.getLane txStack.top
  match ← SortedList.findByM q.comparator.compare txStack (q.txStackSets lane) with
  | some (pos, it) => q.eraseAt lane it pos
  | none => pure q

def totalResources : Except String (Resource n) :=
  (List.finRange L).foldlM (fun res lane => res.add (q.laneCurrentCount lane)) Resource.makeEmpty

def laneResources (lane : Fin L) : Resource n := q.laneCurrentCount lane

def getTop : List (LaneIter A L n) :=
  (List.finRange L).filterMap fun lane =>
    match q.txStackSets lane with
    | [] => none
    | s :: following => some ⟨lane, s, following⟩

def iterPos (it : LaneIter A L n) : ℕ := (q.txStackSets it.lane).length - it.elems.length

def eraseIter (iters : List (LaneIter A L n)) : Except String (SurgePricingPriorityQueue A L n) := do
  let (_, it) ← Iterator.getMutableInnerIter q.comparator iters
  q.eraseAt it.lane it.current (q.iterPos it)

def popTopTx (iters : List (LaneIter A L n)) : Except String (SurgePricingPriorityQueue A L n) := do
  let (_, it) ← Iterator.getMutableInnerIter q.comparator iters
  let q ← q.eraseIter iters
  match it.current.popTopTx with
  | none => pure q
  | some txStack => q.add txStack

def allStacks : List (TxStack A n) := (List.finRange L).flatMap q.txStackSets

def txCount : ℕ := (q.allStacks.map fun s => s.txs.length).sum

section Pop

variable [NeZero L]

/-- The inner loop of `popTopTxs`: while the best transaction does not fit what is left, it is
erased as a gap, its lane is dropped when only its own lane's limit is reached and gaps are not
allowed, or the search stops. -/
def findTop (allowGaps : Bool) (laneLeftUntilLimit : Fin L → Resource n) (hadTxNotFittingLane : Fin L → Bool) :
    ℕ → List (LaneIter A L n) → Except String (TopSearch A L n)
  | 0, _ => throw "out of fuel"
  | _ + 1, [] => pure .stop
  | fuel + 1, currIt@(_ :: _) => do
    let (_, it) ← Iterator.getMutableInnerIter q.comparator currIt
    let currTx := it.current.top
    let curr := q.laneConfig.getTxResources currTx
    let lane := q.laneConfig.getLane currTx
    if Resource.anyGreater curr (laneLeftUntilLimit lane) ||
        Resource.anyGreater curr (laneLeftUntilLimit GENERIC_LANE) then
      if allowGaps then do
        let q ← q.eraseIter currIt
        let hadTxNotFittingLane :=
          if Resource.anyGreater curr (laneLeftUntilLimit lane) then
            Function.update hadTxNotFittingLane lane true
          else Function.update hadTxNotFittingLane GENERIC_LANE true
        pure (.gapSkipped q hadTxNotFittingLane)
      else if lane ≠ GENERIC_LANE ∧ Resource.anyGreater curr (laneLeftUntilLimit lane) then do
        findTop allowGaps laneLeftUntilLimit hadTxNotFittingLane fuel (← Iterator.dropLane q.comparator currIt)
      else pure .stop
    else pure (.found currIt)

/-- The outer loop of `popTopTxs`: the best stack that fits is visited, what it takes leaves the
limits if the visitor processed it, and it is erased or loses its top transaction. -/
def popTopTxsLoop {σ : Type} (allowGaps : Bool) (visitor : σ → TxStack A n → σ × VisitTxStackResult) :
    ℕ → PopState A L n σ → Except String (PopState A L n σ)
  | 0, _ => throw "out of fuel"
  | fuel + 1, st => do
    let q := st.queue
    let currIt := q.getTop
    match ← q.findTop allowGaps st.laneLeftUntilLimit st.hadTxNotFittingLane (currIt.length + 1) currIt with
    | .gapSkipped q hadTxNotFittingLane =>
      popTopTxsLoop allowGaps visitor fuel { st with queue := q, hadTxNotFittingLane }
    | .stop => pure st
    | .found currIt => do
      let (_, it) ← Iterator.getMutableInnerIter q.comparator currIt
      let txStack := it.current
      let (visitorState, visitRes) := visitor st.visitorState txStack
      let res := q.laneConfig.getTxResources txStack.top
      let lane := q.laneConfig.getLane txStack.top
      let laneLeftUntilLimit ←
        (if visitRes = .txProcessed then takeLaneResources st.laneLeftUntilLimit lane res
          else pure st.laneLeftUntilLimit)
      let q ← (if visitRes = .txStackSkipped then q.eraseIter currIt else q.popTopTx currIt)
      popTopTxsLoop allowGaps visitor fuel { st with queue := q, visitorState, laneLeftUntilLimit }

def popTopTxs {σ : Type} (allowGaps : Bool) (visitor : σ → TxStack A n → σ × VisitTxStackResult)
    (visitorState : σ) : Except String (PopState A L n σ) :=
  popTopTxsLoop allowGaps visitor (q.txCount + 1) ⟨q, visitorState, q.laneLimits, fun _ => false⟩

def visitTopTxs {σ : Type} (txStacks : List (TxStack A n)) (visitor : σ → TxStack A n → σ × VisitTxStackResult)
    (visitorState : σ) : Except String (SurgePricingPriorityQueue A L n × σ × (Fin L → Resource n)) := do
  let q ← txStacks.foldlM (fun queue txStack => queue.add txStack) q
  let st ← q.popTopTxs false visitor visitorState
  pure (st.queue, st.visitorState, st.laneLeftUntilLimit)

/-- `getMostTopTxsWithinLimits`: a highest-priority queue of the stacks, popped with gaps by a
visitor that takes every top transaction; the transactions taken, and the lanes in which one did
not fit. -/
def getMostTopTxsWithinLimits (txStacks : List (TxStack A n)) (laneConfig : SurgePricingLaneConfig A L n)
    (comparisonSeed : ℕ) : Except String (List (TxFrame A) × (Fin L → Bool)) := do
  let queue ← txStacks.foldlM (fun queue txStack => queue.add txStack) (create true laneConfig comparisonSeed)
  let visitor := fun (txs : List (TxFrame A)) (txStack : TxStack A n) =>
    (txs ++ [txStack.top], VisitTxStackResult.txProcessed)
  let st ← queue.popTopTxs true visitor []
  pure (st.visitorState, st.hadTxNotFittingLane)

end Pop

section Eviction

variable [NeZero L] [DecidableEq A]

def skipLanes (lane : Fin L) (neededTotal neededLane : Resource n) :
    ℕ → List (LaneIter A L n) → Bool → Except String (List (LaneIter A L n) × Bool)
  | 0, _, _ => throw "out of fuel"
  | _ + 1, [], evictedDueToLaneLimit => pure ([], evictedDueToLaneLimit)
  | fuel + 1, iter@(_ :: _), evictedDueToLaneLimit => do
    let (_, it) ← Iterator.getMutableInnerIter q.comparator iter
    let evictLane := q.laneConfig.getLane it.current.top
    if lane = GENERIC_LANE ∨ lane = evictLane ∨ Resource.anyGreater neededTotal neededLane then
      pure (iter, evictedDueToLaneLimit)
    else
      skipLanes lane neededTotal neededLane fuel (← Iterator.dropLane q.comparator iter) true

/-- The outer loop of `canFitWithEviction`: the cheapest stack that can make room is listed for
eviction, unless it pays at least `tx`'s fee rate or shares its source account, until nothing
more is needed. -/
def evictLoop (tx : TxFrame A) (lane : Fin L) :
    ℕ → List (LaneIter A L n) → Resource n → Resource n → List (TxStack A n × Bool) →
      Except String ((Bool × ℤ) × List (TxStack A n × Bool))
  | 0, _, _, _, _ => throw "out of fuel"
  | fuel + 1, iter, neededTotal, neededLane, txStacksToEvict =>
    if Resource.anyPositive neededTotal || Resource.anyPositive neededLane then do
      let (iter, evictedDueToLaneLimit) ← q.skipLanes lane neededTotal neededLane (iter.length + 1) iter false
      releaseAssert (iter ≠ []) "!iter.isEnd()"
      let (_, it) ← Iterator.getMutableInnerIter q.comparator iter
      let evictTxStack := it.current
      let evictTx := evictTxStack.top
      let evict := evictTxStack.getResources
      let evictLane := q.laneConfig.getLane evictTx
      releaseAssert (evict = q.laneConfig.getTxResources evictTx) "evict == mLaneConfig->getTxResources(evictTx)"
      if !(← q.comparator.compareFeeOnly evictTx tx) then do
        let minFee ← computeBetterFee tx evictTx.inclusionFee evictTx.numOperations
        pure ((false, minFee + (tx.fullFee - tx.inclusionFee)), txStacksToEvict)
      else if tx.sourceID = evictTx.sourceID then pure ((false, 0), txStacksToEvict)
      else do
        let txStacksToEvict := txStacksToEvict ++ [(evictTxStack, evictedDueToLaneLimit)]
        let neededTotal := Resource.subtractNonNegative neededTotal evict
        -- only an eviction from `tx`'s lane, or any for a generic transaction, helps its lane
        let neededLane :=
          if lane = GENERIC_LANE ∨ lane = evictLane then Resource.subtractNonNegative neededLane evict
          else neededLane
        if !Resource.anyPositive neededTotal && !Resource.anyPositive neededLane then
          pure ((true, 0), txStacksToEvict)
        else
          evictLoop tx lane fuel (← Iterator.advance q.comparator iter) neededTotal neededLane txStacksToEvict
    -- the loop's condition failing is the `releaseAssert(false)` after it
    else throw "false"

/-- `canFitWithEviction`: whether `tx`, less the discount, fits the limits once the stacks listed
in `txStacksToEvict` are evicted, or else the fee it would need (zero when no fee would do). -/
def canFitWithEviction (tx : TxFrame A) (txDiscount : Option (Resource n))
    (txStacksToEvict : List (TxStack A n × Bool)) : Except String ((Bool × ℤ) × List (TxStack A n × Bool)) := do
  releaseAssert (q.comparator.isGreater = false) "!mComparator.isGreater()"
  let lane := q.laneConfig.getLane tx
  let txNewResources := match txDiscount with
    | some discount => Resource.subtractNonNegative (q.laneConfig.getTxResources tx) discount
    | none => q.laneConfig.getTxResources tx
  if Resource.anyGreater txNewResources (q.laneLimits GENERIC_LANE) ||
      Resource.anyGreater txNewResources (q.laneLimits lane) then
    pure ((false, 0), txStacksToEvict)
  else do
    let total ← q.totalResources
    if !total.canAdd txNewResources || !(q.laneCurrentCount lane).canAdd txNewResources then
      pure ((false, 0), txStacksToEvict)
    else do
      let newTotalResources ← total.add txNewResources
      let newLaneResources ← (q.laneCurrentCount lane).add txNewResources
      releaseAssert (Resource.le (q.laneCurrentCount lane) total = true) "mLaneCurrentCount[lane] <= total"
      releaseAssert (Resource.le (q.laneLimits lane) (q.laneLimits GENERIC_LANE) = true)
        "mLaneLimits[lane] <= mLaneLimits[GENERIC_LANE]"
      if Resource.le newTotalResources (q.laneLimits GENERIC_LANE) &&
          Resource.le newLaneResources (q.laneLimits lane) then
        pure ((true, 0), txStacksToEvict)
      else do
        let neededTotal := Resource.subtractNonNegative newTotalResources (q.laneLimits GENERIC_LANE)
        let neededLane := Resource.subtractNonNegative newLaneResources (q.laneLimits lane)
        releaseAssert (Resource.anyPositive neededTotal || Resource.anyPositive neededLane)
          "neededTotal.anyPositive() || neededLane.anyPositive()"
        q.evictLoop tx lane (q.allStacks.length + 1) q.getTop neededTotal neededLane txStacksToEvict

end Eviction

end SurgePricingPriorityQueue

end HcnetCore.Herder
