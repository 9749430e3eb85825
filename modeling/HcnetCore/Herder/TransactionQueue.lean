import HcnetCore.Herder.TxQueueLimiter

/-! # The transaction queue, herder/TransactionQueue

`TransactionQueue` keeps the transactions received and not yet applied, at most one for each
source account, in `mAccountStates`: for each account that is the source or the fee source of a
queued transaction, the fees it owes for them (`mTotalFees`), the operations of its queued
transactions, the number of ledgers closed since one of them was applied (`mAge`), and its
queued transactions by sequence number. A queued transaction is also known by its hash
(`mKnownTxHashes`) and held by the limiter, which decides whether a new one fits and which ones
it evicts. `ban` drops transactions and keeps their hashes for `banDepth` ledgers
(`mBannedTransactions`, the newest ledger first); `shift`, at each ledger close, ages the accounts
and bans the transactions of those that reach `pendingDepth`.

What `tryAdd` reads of the ledger and the application is an argument (`LedgerView`), and the
queue starts with its limiter reset. An unordered map is an association list, and `shift`
visits the accounts in its order; no result depends on that order, since dropping the
transactions of one account only erases the states of accounts that have no transaction.
Broadcasting (`broadcast`, `rebroadcast`, `broadcastSome`, `mBroadcasted`, `mBroadcastQueueOps`,
the arbitrage damping and the broadcast seed), the insertion times and the metrics are left out:
`tryAdd` only starts the broadcast timer.
-/

namespace HcnetCore.Herder

open Overlay (releaseAssert)
open Scp (Rounding)

set_option autoImplicit false

variable {A : Type} {L n : ℕ}

inductive AddResult
  | ADD_STATUS_PENDING
  | ADD_STATUS_DUPLICATE
  | ADD_STATUS_ERROR
  | ADD_STATUS_TRY_AGAIN_LATER
  | ADD_STATUS_FILTERED
  deriving DecidableEq, Repr

inductive TransactionResultCode
  | txMALFORMED
  | txBAD_SEQ
  | txINSUFFICIENT_FEE
  | txINSUFFICIENT_BALANCE
  deriving DecidableEq, Repr

structure TxResult where
  code : TransactionResultCode
  feeCharged : Option ℤ
  deriving DecidableEq, Repr

def FEE_MULTIPLIER : ℕ := 10

/-- `AccountState` without `mBroadcastQueueOps`; a queued transaction is its frame. -/
structure AccountState (A : Type) where
  totalFees : ℤ := 0
  queueSizeOps : ℕ := 0
  age : ℕ := 0
  transactions : List (TxFrame A) := []

structure TransactionQueue (A : Type) (L n : ℕ) [DecidableEq A] where
  pendingDepth : ℕ
  accountStates : AList fun _ : A => AccountState A
  bannedTransactions : List (Finset ℕ)
  txQueueLimiter : TxQueueLimiter A L n
  knownTxHashes : AList fun _ : ℕ => TxFrame A
  filteredTypes : Finset ℕ

/-- What `tryAdd` reads of the ledger and the application: `checkValid` against the sequence
number it is given (zero to load it from the account), the available balance of the loaded fee
source, and `maxScaledLedgerResources` of the limiter. -/
structure LedgerView (A : Type) (n : ℕ) where
  checkValid : TxFrame A → ℤ → Bool
  getAvailableBalance : A → ℤ
  maxScaledLedgerResources : Resource n

def canReplaceByFee (tx oldTx : TxFrame A) : Except String (Option ℤ) := do
  let newFee := tx.inclusionFee
  let newNumOps := max 1 tx.numOperations
  let oldFee := oldTx.inclusionFee
  let oldNumOps := max 1 oldTx.numOperations
  let oldTotalFee ← Util.bigMultiply oldFee newNumOps
  let minFeeN := oldTotalFee * FEE_MULTIPLIER
  let res ← if newFee ≥ 0 then do
      let newTotalFee ← Util.bigMultiply newFee oldNumOps
      pure (decide (newTotalFee ≥ minFeeN))
    else pure false
  if res then pure none
  else
    match ← Util.bigDivide128 minFeeN oldNumOps .roundUp with
    | none => pure (some INT64_MAX)
    | some minFee => pure (some (minFee + (tx.fullFee - tx.inclusionFee)))

/-- `findBySeq`: whether a transaction of number `seq`, with `minSeqNum`, may go into an
account's queued `transactions`, and the position and the transaction of that number there, if
any. Its callers pass a list that is not empty. -/
def findBySeq (seq : ℤ) (minSeqNum : Option ℤ) (transactions : List (TxFrame A)) :
    Bool × Option (ℕ × TxFrame A) :=
  match transactions.head?, transactions.getLast? with
  | some first, some last =>
    if seq < first.seqNum then (false, none)
    else if seq > last.seqNum then
      (match minSeqNum with
        | some minSeq => decide (minSeq ≤ last.seqNum)
        | none => decide (seq = last.seqNum + 1), none)
    else
      -- `lower_bound`: the first transaction whose number is not below `seq`
      let i := transactions.findIdx fun t => !decide (t.seqNum < seq)
      match transactions[i]? with
      | some t => if t.seqNum ≠ seq then (false, none) else (true, some (i, t))
      | none => (true, none)
  | _, _ => (false, none)

def isDuplicateTx (oldTx newTx : TxFrame A) : Bool :=
  if oldTx.envelopeType = newTx.envelopeType then decide (oldTx.fullHash = newTx.fullHash)
  else if oldTx.envelopeType = .ENVELOPE_TYPE_TX_FEE_BUMP then decide (oldTx.innerFullHash = newTx.fullHash)
  else false

def findTx (tx : TxFrame A) (transactions : List (TxFrame A)) (txIter : Option (ℕ × TxFrame A)) :
    Option (ℕ × TxFrame A) :=
  match (findBySeq tx.seqNum tx.minSeqNum transactions).2 with
  | some (i, t) => if t.fullHash = tx.fullHash then some (i, t) else txIter
  | none => txIter

namespace TransactionQueue

variable [DecidableEq A] (q : TransactionQueue A L n)

def accountState (acct : A) : AccountState A := (q.accountStates.lookup acct).getD {}

def setAccountState (acct : A) (st : AccountState A) : TransactionQueue A L n :=
  { q with accountStates := q.accountStates.insert acct st }

def eraseAccountState (acct : A) : TransactionQueue A L n :=
  { q with accountStates := q.accountStates.erase acct }

def banHashes (hashes : List ℕ) : TransactionQueue A L n :=
  { q with bannedTransactions := match q.bannedTransactions with
      | front :: rest => (front ∪ hashes.toFinset) :: rest
      | [] => [] }

def isBanned (hash : ℕ) : Bool := q.bannedTransactions.any fun banned => decide (hash ∈ banned)

def getTx (hash : ℕ) : Option (TxFrame A) := q.knownTxHashes.lookup hash

def sourceAccountPending (accountID : A) : Bool := decide (accountID ∈ q.accountStates)

def isFiltered (tx : TxFrame A) : Bool :=
  if q.filteredTypes = ∅ then false else tx.operationTypes.any fun type => decide (type ∈ q.filteredTypes)

def releaseFeeMaybeEraseAccountState (tx : TxFrame A) : Except String (TransactionQueue A L n) :=
  match q.accountStates.lookup tx.feeSourceID with
  | some st =>
    if tx.fullFee ≤ st.totalFees then
      let st := { st with totalFees := st.totalFees - tx.fullFee }
      if st.transactions = [] ∧ st.totalFees = 0 then pure (q.eraseAccountState tx.feeSourceID)
      else pure (q.setAccountState tx.feeSourceID st)
    else throw "iter != mAccountStates.end() && iter->second.mTotalFees >= tx->getFullFee()"
  | none => throw "iter != mAccountStates.end() && iter->second.mTotalFees >= tx->getFullFee()"

def prepareDropTransaction (acct : A) (tx : TxFrame A) : Except String (TransactionQueue A L n) := do
  let st := q.accountState acct
  let q := q.setAccountState acct { st with queueSizeOps := st.queueSizeOps - tx.numOperations }
  let txQueueLimiter ← q.txQueueLimiter.removeTransaction tx
  let q := { q with txQueueLimiter, knownTxHashes := q.knownTxHashes.erase tx.fullHash }
  q.releaseFeeMaybeEraseAccountState tx

/-- The end of `dropTransactions` and of `shift` for the account `acct`: it keeps `transactions`
of its queued transactions, and when it keeps none it goes if it owes nothing and is young again
otherwise. -/
def keepTransactions (acct : A) (transactions : List (TxFrame A)) : TransactionQueue A L n :=
  let st := { q.accountState acct with transactions }
  if transactions = [] then
    if st.totalFees = 0 then q.eraseAccountState acct else q.setAccountState acct { st with age := 0 }
  else q.setAccountState acct st

def dropTransactions (acct : A) (b e : ℕ) : Except String (TransactionQueue A L n) := do
  let dropped := ((q.accountState acct).transactions.take e).drop b
  let q ← dropped.foldlM (fun q tx => q.prepareDropTransaction acct tx) q
  let transactions := (q.accountState acct).transactions
  pure (q.keepTransactions acct (transactions.take b ++ transactions.drop e))

/-- The part of `ban` for one source account and its listed transactions: the first of its
queued transactions that is listed, matched by number and hash, and all after it, are banned and
dropped. -/
def banAccount (acct : A) (txs : List (TxFrame A)) : Except String (TransactionQueue A L n) :=
  match q.accountStates.lookup acct with
  | none => pure q
  | some st =>
    if st.transactions = [] then pure q
    else
      let transactions := st.transactions
      let txIter := txs.foldl (fun txIter tx =>
        match txIter with
        | none => findTx tx transactions txIter
        | some (_, t) => if tx.seqNum < t.seqNum then findTx tx transactions txIter else txIter) none
      let first := (txIter.map Prod.fst).getD transactions.length
      let q := q.banHashes ((transactions.drop first).map TxFrame.fullHash)
      q.dropTransactions acct first transactions.length

def ban (banTxs : List (TxFrame A)) : Except String (TransactionQueue A L n) :=
  let q := q.banHashes (banTxs.map TxFrame.fullHash)
  (banTxs.map TxFrame.sourceID).dedup.foldlM
    (fun q acct => q.banAccount acct (banTxs.filter fun tx => tx.sourceID = acct)) q

variable [NeZero L]

/-- `canAdd`: whether `tx` may be queued, and if so the transaction of its account it replaces
and the stacks to evict for it; the queue it leaves, in which the limiter may have brought its
generic limit up to date, or have banned `tx` when it does not fit. -/
def canAdd (view : LedgerView A n) (tx : TxFrame A) :
    Except String (TransactionQueue A L n × AddResult × Option TxResult × Option (ℕ × TxFrame A) ×
      List (TxStack A n × Bool)) := do
  if q.isBanned tx.fullHash then return (q, .ADD_STATUS_TRY_AGAIN_LATER, none, none, [])
  if q.isFiltered tx then return (q, .ADD_STATUS_FILTERED, none, none, [])
  let mut newFullFee := tx.fullFee
  if newFullFee < 0 ∨ tx.inclusionFee < 0 then
    return (q, .ADD_STATUS_ERROR, some ⟨.txMALFORMED, none⟩, none, [])
  let mut seqNum : ℤ := 0
  let mut oldTx : Option (TxFrame A) := none
  let mut txToReplace : Option (ℕ × TxFrame A) := none
  if let some st := q.accountStates.lookup tx.sourceID then
    let transactions := st.transactions
    if transactions.length > 1 then
      throw "TransactionQueue::canAdd invalid state: more than one transaction per source account"
    if transactions ≠ [] then
      if tx.envelopeType ≠ .ENVELOPE_TYPE_TX_FEE_BUMP then
        if let (true, some (_, old)) := findBySeq tx.seqNum tx.minSeqNum transactions then
          if isDuplicateTx old tx then return (q, .ADD_STATUS_DUPLICATE, none, none, [])
        -- a transaction is queued already for the account
        return (q, .ADD_STATUS_TRY_AGAIN_LATER, none, none, [])
      else
        let (found, it) := findBySeq tx.seqNum tx.minSeqNum transactions
        if !found then return (q, .ADD_STATUS_ERROR, some ⟨.txBAD_SEQ, none⟩, none, [])
        txToReplace := it
        if let some (_, old) := it then
          if isDuplicateTx old tx then return (q, .ADD_STATUS_DUPLICATE, none, none, [])
          if let some minFee ← canReplaceByFee tx old then
            return (q, .ADD_STATUS_ERROR, some ⟨.txINSUFFICIENT_FEE, some minFee⟩, none, [])
          oldTx := some old
          if old.feeSourceID = tx.feeSourceID then newFullFee := newFullFee - old.fullFee
        if (it.map Prod.fst) ≠ some 0 ∧ (tx.minSeqAge ≠ 0 ∨ tx.minSeqLedgerGap ≠ 0) then
          return (q, .ADD_STATUS_TRY_AGAIN_LATER, none, none, [])
        match it with
        | none =>
          -- a new fee bump with nothing to replace: the source account limit
          if transactions ≠ [] then return (q, .ADD_STATUS_TRY_AGAIN_LATER, none, none, [])
          seqNum := (transactions.getLast?.map TxFrame.seqNum).getD 0
        | some (0, _) => pure ()
        | some (i + 1, _) => seqNum := (transactions[i]?.map TxFrame.seqNum).getD 0
  let (txQueueLimiter, (canAddRes, minFee), txsToEvict) ←
    q.txQueueLimiter.canAddTx tx oldTx [] view.maxScaledLedgerResources
  let q := { q with txQueueLimiter }
  if !canAddRes then
    let q ← q.ban [tx]
    if minFee ≠ 0 then return (q, .ADD_STATUS_ERROR, some ⟨.txINSUFFICIENT_FEE, some minFee⟩, none, [])
    return (q, .ADD_STATUS_TRY_AGAIN_LATER, none, none, [])
  if !view.checkValid tx seqNum then return (q, .ADD_STATUS_ERROR, none, none, [])
  -- the fee source may differ from the source account
  let totalFees := ((q.accountStates.lookup tx.feeSourceID).map AccountState.totalFees).getD 0
  if view.getAvailableBalance tx.feeSourceID - newFullFee < totalFees then
    return (q, .ADD_STATUS_ERROR, some ⟨.txINSUFFICIENT_BALANCE, none⟩, none, [])
  return (q, .ADD_STATUS_PENDING, none, txToReplace, txsToEvict)

/-- `tryAdd`: `tx` is queued when `canAdd` lets it, in place of the transaction it replaces; the
stacks the limiter listed are evicted by banning their transactions; `tx` then goes into the
limiter and the known hashes. -/
def tryAdd (view : LedgerView A n) (tx : TxFrame A) :
    Except String (TransactionQueue A L n × AddResult × Option TxResult) := do
  if !tx.XDRProvidesValidFee then return (q, .ADD_STATUS_ERROR, some ⟨.txMALFORMED, none⟩)
  let (q, res, txResult, oldTxIter, txsToEvict) ← q.canAdd view tx
  if res ≠ .ADD_STATUS_PENDING then return (q, res, txResult)
  -- only evict if successful
  let q := if tx.sourceID ∈ q.accountStates then q else q.setAccountState tx.sourceID {}
  let q ← match oldTxIter with
    | some (i, oldTx) => do
      let q ← q.prepareDropTransaction tx.sourceID oldTx
      let st := q.accountState tx.sourceID
      pure (q.setAccountState tx.sourceID { st with transactions := st.transactions.set i tx })
    | none =>
      let st := q.accountState tx.sourceID
      pure (q.setAccountState tx.sourceID { st with transactions := st.transactions ++ [tx] })
  let st := q.accountState tx.sourceID
  if st.transactions.length > 1 then throw "Invalid state: tx queue source account limit violated"
  let q := q.setAccountState tx.sourceID { st with queueSizeOps := st.queueSizeOps + tx.numOperations }
  let feeSource := q.accountState tx.feeSourceID
  let q := q.setAccountState tx.feeSourceID { feeSource with totalFees := feeSource.totalFees + tx.fullFee }
  -- make space: the limiter evicts through `ban`, which drops from the whole queue
  let q ← TxQueueLimiter.evictTransactions (fun q => q.txQueueLimiter) (fun q l => { q with txQueueLimiter := l })
    (fun txToEvict q => q.ban [txToEvict]) q txsToEvict tx view.maxScaledLedgerResources
  let txQueueLimiter ← q.txQueueLimiter.addTransaction tx
  pure ({ q with txQueueLimiter, knownTxHashes := q.knownTxHashes.insert tx.fullHash tx }, res, txResult)

/-- The part of `removeApplied` for one source account and the highest number applied for it:
its queued transactions up to that number go, and it is young again. -/
def removeAppliedAccount (acct : A) (seq : ℤ) : Except String (TransactionQueue A L n) :=
  match q.accountStates.lookup acct with
  | none => pure q
  | some st =>
    match st.transactions with
    | [] => pure q
    | first :: _ =>
      if first.seqNum ≤ seq then
        -- `upper_bound`: the first transaction whose number is above `seq`
        let txIter := st.transactions.findIdx fun t => decide (seq < t.seqNum)
        (q.setAccountState acct { st with age := 0 }).dropTransactions acct 0 txIter
      else pure q

def removeApplied (appliedTxs : List (TxFrame A)) : Except String (TransactionQueue A L n) := do
  let seqOf := fun acct => ((appliedTxs.filter fun tx => tx.sourceID = acct).map TxFrame.seqNum).foldl max 0
  let q ← (appliedTxs.map TxFrame.sourceID).dedup.foldlM (fun q acct => q.removeAppliedAccount acct (seqOf acct)) q
  pure (q.banHashes (appliedTxs.map TxFrame.fullHash))

/-- The part of `shift` for one account, unless it has gone earlier in the same `shift`: an
account with queued transactions ages, and when it reaches `pendingDepth` they are dropped and
banned. -/
def shiftAccount (acct : A) : Except String (TransactionQueue A L n) :=
  match q.accountStates.lookup acct with
  | none => pure q
  | some st =>
    let st := if st.transactions ≠ [] then { st with age := st.age + 1 } else st
    let q := q.setAccountState acct st
    if q.pendingDepth = st.age then do
      let q ← st.transactions.foldlM (fun q toBan => do
        let q ← q.prepareDropTransaction acct toBan
        pure (q.banHashes [toBan.fullHash])) q
      pure (q.keepTransactions acct [])
    else pure q

def shift : Except String (TransactionQueue A L n) := do
  let q := { q with bannedTransactions := ∅ :: q.bannedTransactions.dropLast }
  let q ← q.accountStates.keys.foldlM (fun q acct => q.shiftAccount acct) q
  pure { q with txQueueLimiter := q.txQueueLimiter.resetEvictionState }

def clearAll (laneConfig : SurgePricingLaneConfig A L n) (seed : ℕ) : TransactionQueue A L n :=
  { q with
    accountStates := ∅
    bannedTransactions := q.bannedTransactions.map fun _ => ∅
    txQueueLimiter := TxQueueLimiter.reset laneConfig seed
    knownTxHashes := ∅ }

def getTransactions (startingSeq : ℤ) : List (TxFrame A) :=
  q.accountStates.entries.flatMap fun e => e.2.transactions.takeWhile fun tx => tx.seqNum ≠ startingSeq

end TransactionQueue

variable [DecidableEq A] [NeZero L]

def TransactionQueue.create (pendingDepth banDepth : ℕ) (laneConfig : SurgePricingLaneConfig A L n) (seed : ℕ)
    (filteredTypes : Finset ℕ) : TransactionQueue A L n where
  pendingDepth := pendingDepth
  accountStates := ∅
  bannedTransactions := List.replicate banDepth ∅
  txQueueLimiter := TxQueueLimiter.reset laneConfig seed
  knownTxHashes := ∅
  filteredTypes := filteredTypes

end HcnetCore.Herder
