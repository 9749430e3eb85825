import HcnetCore.Herder.TransactionQueue
import HcnetCore.Herder.TxQueueLimiterInvariant

/-! # The books of the transaction queue

The queue keeps several books of its transactions: the per-account lists, the fees each account
owes and the operations each account has queued, the limiter, and the known hashes. `Books` says
that they agree with the queued transactions (`queued`), allowing for transactions pending, queued
but not yet given to the limiter, and for transactions being dropped. Dropping one transaction
(`prepareDropTransaction`) moves a transaction into the second set, keeping what is left of an
account (`keepTransactions`) closes the books on them, and so `dropTransactions` and `ban` keep the
books whenever they return. Last, `ban` bans every hash it is given and `shift` ages the banned
sets by one ledger.
-/

namespace HcnetCore.Herder

set_option autoImplicit false

variable {A : Type} {L n : ℕ}

theorem take_append_drop_eq_filter {α : Type} [DecidableEq α] {l : List α} (hl : l.Nodup) {b e : ℕ}
    (hbe : b ≤ e) : l.take b ++ l.drop e = l.filter fun x => x ∉ (l.take e).drop b := by
  have hsplit : l = l.take b ++ (l.take e).drop b ++ l.drop e := by
    conv_lhs => rw [← List.take_append_drop e l, ← List.take_append_drop b (l.take e)]
    rw [List.take_take, min_eq_left hbe]
  set m := (l.take e).drop b
  have hnd : (l.take b ++ m ++ l.drop e).Nodup := hsplit ▸ hl
  rw [List.nodup_append, List.nodup_append] at hnd
  obtain ⟨⟨-, -, hxm⟩, -, hmc⟩ := hnd
  conv_rhs => rw [hsplit]
  rw [List.filter_append, List.filter_append]
  have h1 : (l.take b).filter (fun x => x ∉ m) = l.take b :=
    List.filter_eq_self.mpr fun x hx => by simpa using fun hm => hxm x hx x hm rfl
  have h2 : m.filter (fun x => x ∉ m) = [] := List.filter_eq_nil_iff.mpr fun x hx => by simpa using hx
  have h3 : (l.drop e).filter (fun x => x ∉ m) = l.drop e :=
    List.filter_eq_self.mpr fun x hx => by
      simpa using fun hm => hmc x (List.mem_append_right _ hm) x hx rfl
  rw [h1, h2, h3, List.append_nil]

section Fees

variable [DecidableEq A]

/-- The fees that the transactions of `txs` charge to the account `acct`. -/
def feesOf (txs : Finset (TxFrame A)) (acct : A) : ℤ := ∑ tx ∈ txs with tx.feeSourceID = acct, tx.fullFee

@[simp] theorem feesOf_empty (acct : A) : feesOf ∅ acct = 0 := rfl

theorem feesOf_insert {txs : Finset (TxFrame A)} {tx : TxFrame A} (h : tx ∉ txs) (acct : A) :
    feesOf (insert tx txs) acct = (if tx.feeSourceID = acct then tx.fullFee else 0) + feesOf txs acct := by
  simp only [feesOf, Finset.sum_filter, Finset.sum_insert h]

theorem feesOf_erase {txs : Finset (TxFrame A)} {tx : TxFrame A} (h : tx ∈ txs) (acct : A) :
    feesOf txs acct = (if tx.feeSourceID = acct then tx.fullFee else 0) + feesOf (txs.erase tx) acct := by
  rw [← feesOf_insert (Finset.notMem_erase tx txs), Finset.insert_erase h]

theorem feesOf_nonneg {txs : Finset (TxFrame A)} (h : ∀ tx ∈ txs, 0 < tx.fullFee) (acct : A) :
    0 ≤ feesOf txs acct :=
  Finset.sum_nonneg fun tx htx => (h tx (Finset.mem_of_mem_filter tx htx)).le

theorem feesOf_filter_add_feesOf_filter_not (txs : Finset (TxFrame A)) (keep : TxFrame A → Bool) (acct : A) :
    feesOf (txs.filter fun tx => keep tx) acct + feesOf (txs.filter fun tx => ¬keep tx) acct = feesOf txs acct := by
  unfold feesOf
  rw [Finset.filter_comm, Finset.filter_comm (fun tx => ¬keep tx)]
  exact Finset.sum_filter_add_sum_filter_not _ _ _

end Fees

/-! ## What the books need of the limiter -/

namespace SurgePricingPriorityQueue

variable {q q' : SurgePricingPriorityQueue A L n} {s : TxStack A n}

theorem add_laneConfig (h : q.add s = .ok q') : q'.laneConfig = q.laneConfig := by
  unfold SurgePricingPriorityQueue.add at h
  obtain ⟨⟨set, inserted⟩, -, h⟩ := Except.bind_eq_ok.mp h
  dsimp only at h
  split at h
  · obtain ⟨count, -, h⟩ := Except.bind_eq_ok.mp h
    rw [← Except.pure_eq_ok.mp h]
  · rw [← Except.pure_eq_ok.mp h]

theorem erase_laneConfig (h : q.erase s = .ok q') : q'.laneConfig = q.laneConfig := by
  unfold SurgePricingPriorityQueue.erase at h
  obtain ⟨r, -, h⟩ := Except.bind_eq_ok.mp h
  split at h
  · unfold SurgePricingPriorityQueue.eraseAt at h
    obtain ⟨_, -, h⟩ := Except.bind_eq_ok.mp h
    obtain ⟨count, -, h⟩ := Except.bind_eq_ok.mp h
    rw [← Except.pure_eq_ok.mp h]
  · rw [← Except.pure_eq_ok.mp h]

section Listed

variable [NeZero L] [DecidableEq A]

omit [DecidableEq A] in
theorem skipLanes_sublist {lane : Fin L} {neededTotal neededLane : Resource n} {fuel : ℕ}
    {iter iter' : List (LaneIter A L n)} {b b' : Bool}
    (h : q.skipLanes lane neededTotal neededLane fuel iter b = .ok (iter', b')) : iter'.Sublist iter := by
  induction fuel generalizing iter b with
  | zero => exact absurd h Except.throw_ne_ok
  | succ fuel ih =>
    cases iter with
    | nil =>
      simp only [skipLanes, Except.pure_eq_ok, Prod.mk.injEq] at h
      rw [← h.1]
    | cons it₀ its =>
      simp only [skipLanes] at h
      obtain ⟨⟨i, it⟩, hget, h⟩ := Except.bind_eq_ok.mp h
      split at h
      · simp only [Except.pure_eq_ok, Prod.mk.injEq] at h
        rw [← h.1]
      · rw [Iterator.dropLane_eq hget, Except.ok_bind] at h
        exact (ih h).trans (List.eraseIdx_sublist _ _)

omit [NeZero L] [DecidableEq A] in
theorem elems_subset_of_sublist {iter iter' : List (LaneIter A L n)} (h : iter'.Sublist iter) :
    MultiwayMerge.elems iter' ⊆ MultiwayMerge.elems iter := by
  intro s hs
  obtain ⟨it, hit, hs⟩ := List.mem_flatMap.mp hs
  exact List.mem_flatMap.mpr ⟨it, h.subset hit, hs⟩

theorem evictLoop_listed {tx : TxFrame A} {lane : Fin L} {fuel : ℕ} {iter : List (LaneIter A L n)}
    {neededTotal neededLane : Resource n} {evs evs' : List (TxStack A n × Bool)} {res : Bool × ℤ}
    (h : q.evictLoop tx lane fuel iter neededTotal neededLane evs = .ok (res, evs')) :
    ∀ e ∈ evs', e ∈ evs ∨ e.1 ∈ MultiwayMerge.elems iter := by
  induction fuel generalizing iter neededTotal neededLane evs with
  | zero => exact absurd h Except.throw_ne_ok
  | succ fuel ih =>
    unfold evictLoop at h
    split at h
    case isFalse => exact absurd h Except.throw_ne_ok
    case isTrue =>
      obtain ⟨⟨iter₁, flag⟩, hskip, h⟩ := Except.bind_eq_ok.mp h
      have hsub := elems_subset_of_sublist (skipLanes_sublist hskip)
      obtain ⟨-, -, h⟩ := Except.bind_eq_ok.mp h
      obtain ⟨⟨i, it⟩, hget, h⟩ := Except.bind_eq_ok.mp h
      have hgetElem := Iterator.getElem?_getMutableInnerIter hget
      have hcur : it.current ∈ MultiwayMerge.elems iter₁ :=
        List.mem_flatMap.mpr ⟨it, List.mem_of_getElem? hgetElem, List.mem_cons_self⟩
      obtain ⟨-, -, h⟩ := Except.bind_eq_ok.mp h
      dsimp only at h
      obtain ⟨outbids, -, h⟩ := Except.bind_eq_ok.mp h
      cases outbids
      · -- the stack bids at least `tx`'s rate: nothing more is listed
        simp only [Bool.not_false, ↓reduceIte] at h
        obtain ⟨_, -, h⟩ := Except.bind_eq_ok.mp h
        cases Except.pure_eq_ok.mp h
        exact fun e he => .inl he
      simp only [Bool.not_true, Bool.false_eq_true, ↓reduceIte] at h
      split at h
      · cases Except.pure_eq_ok.mp h
        exact fun e he => .inl he
      have hlisted : ∀ e ∈ evs ++ [(it.current, flag)], e ∈ evs ∨ e.1 ∈ MultiwayMerge.elems iter := by
        intro e he
        rcases List.mem_append.mp he with he | he
        · exact .inl he
        · rw [List.mem_singleton.mp he]
          exact .inr (hsub hcur)
      -- whether or not the need of the lane went down, the loop goes on the same way
      split at h <;>
      · split at h
        · cases Except.pure_eq_ok.mp h
          exact hlisted
        · obtain ⟨iter₂, hadv, h⟩ := Except.bind_eq_ok.mp h
          rw [Iterator.advance_eq hget] at hadv
          cases hadv
          intro e he
          rcases ih h e he with he | he
          · exact hlisted e he
          · exact .inr (hsub (MultiwayMerge.mem_elems_of_mem_advanceAt hgetElem he))

theorem canFitWithEviction_listed {tx : TxFrame A} {txDiscount : Option (Resource n)}
    {evs evs' : List (TxStack A n × Bool)} {res : Bool × ℤ}
    (h : q.canFitWithEviction tx txDiscount evs = .ok (res, evs')) :
    ∀ e ∈ evs', e ∈ evs ∨ e.1 ∈ q.allStacks := by
  unfold canFitWithEviction at h
  obtain ⟨-, -, h⟩ := Except.bind_eq_ok.mp h
  dsimp only at h
  -- with a discount or without, the rest is the same
  split at h <;>
  · split at h
    · cases Except.pure_eq_ok.mp h
      exact fun e he => .inl he
    obtain ⟨total, -, h⟩ := Except.bind_eq_ok.mp h
    split at h
    · cases Except.pure_eq_ok.mp h
      exact fun e he => .inl he
    obtain ⟨_, -, h⟩ := Except.bind_eq_ok.mp h
    obtain ⟨_, -, h⟩ := Except.bind_eq_ok.mp h
    obtain ⟨-, -, h⟩ := Except.bind_eq_ok.mp h
    obtain ⟨-, -, h⟩ := Except.bind_eq_ok.mp h
    split at h
    · cases Except.pure_eq_ok.mp h
      exact fun e he => .inl he
    obtain ⟨-, -, h⟩ := Except.bind_eq_ok.mp h
    intro e he
    rw [← q.elems_getTop]
    exact evictLoop_listed h e he

end Listed

end SurgePricingPriorityQueue

namespace TxQueueLimiter

variable [DecidableEq A] {l l' : TxQueueLimiter A L n} {tx : TxFrame A}

theorem removeTransaction_laneConfig (h : l.removeTransaction tx = .ok l') :
    l'.txs.laneConfig = l.txs.laneConfig := by
  obtain ⟨_, txs, -, herase, -, rfl⟩ := removeTransaction_cases h
  exact SurgePricingPriorityQueue.erase_laneConfig herase

theorem addTransaction_laneConfig (h : l.addTransaction tx = .ok l') :
    l'.txs.laneConfig = l.txs.laneConfig := by
  obtain ⟨-, txs, hadd, rfl⟩ := addTransaction_cases h
  exact SurgePricingPriorityQueue.add_laneConfig hadd

theorem canAddTx_keeps [NeZero L] {oldTx : Option (TxFrame A)} {txsToEvict : List (TxStack A n × Bool)}
    {maxScaledLedgerResources : Resource n} {r : (Bool × ℤ) × List (TxStack A n × Bool)}
    (h : l.canAddTx tx oldTx txsToEvict maxScaledLedgerResources = .ok (l', r)) :
    l'.stackForTx = l.stackForTx ∧ l'.txs.laneConfig.getTxResources = l.txs.laneConfig.getTxResources := by
  obtain ⟨_, _, -, -, ⟨-, rfl, -⟩ | ⟨-, rfl, -⟩⟩ := canAddTx_cases h <;> exact ⟨rfl, rfl⟩

end TxQueueLimiter

namespace TransactionQueue

variable [DecidableEq A] (q : TransactionQueue A L n)

section Accounts

@[simp] theorem accountState_setAccountState_self (acct : A) (st : AccountState A) :
    (q.setAccountState acct st).accountState acct = st := by
  simp [accountState, setAccountState]

@[simp] theorem accountState_setAccountState_of_ne {acct b : A} (st : AccountState A) (h : b ≠ acct) :
    (q.setAccountState acct st).accountState b = q.accountState b := by
  simp [accountState, setAccountState, AList.lookup_insert_ne h]

@[simp] theorem accountState_eraseAccountState_self (acct : A) :
    (q.eraseAccountState acct).accountState acct = {} := by
  simp [accountState, eraseAccountState]

@[simp] theorem accountState_eraseAccountState_of_ne {acct b : A} (h : b ≠ acct) :
    (q.eraseAccountState acct).accountState b = q.accountState b := by
  simp [accountState, eraseAccountState, AList.lookup_erase_ne h]

@[simp] theorem mem_setAccountState {acct b : A} (st : AccountState A) :
    b ∈ (q.setAccountState acct st).accountStates ↔ b = acct ∨ b ∈ q.accountStates :=
  AList.mem_insert _

@[simp] theorem mem_eraseAccountState {acct b : A} :
    b ∈ (q.eraseAccountState acct).accountStates ↔ b ≠ acct ∧ b ∈ q.accountStates :=
  AList.mem_erase

theorem accountState_of_not_mem {acct : A} (h : acct ∉ q.accountStates) : q.accountState acct = {} := by
  simp [accountState, AList.lookup_eq_none.mpr h]

@[simp] theorem setAccountState_txQueueLimiter (acct : A) (st : AccountState A) :
    (q.setAccountState acct st).txQueueLimiter = q.txQueueLimiter := rfl

@[simp] theorem setAccountState_knownTxHashes (acct : A) (st : AccountState A) :
    (q.setAccountState acct st).knownTxHashes = q.knownTxHashes := rfl

@[simp] theorem setAccountState_pendingDepth (acct : A) (st : AccountState A) :
    (q.setAccountState acct st).pendingDepth = q.pendingDepth := rfl

@[simp] theorem setAccountState_bannedTransactions (acct : A) (st : AccountState A) :
    (q.setAccountState acct st).bannedTransactions = q.bannedTransactions := rfl

@[simp] theorem setAccountState_filteredTypes (acct : A) (st : AccountState A) :
    (q.setAccountState acct st).filteredTypes = q.filteredTypes := rfl

@[simp] theorem eraseAccountState_txQueueLimiter (acct : A) :
    (q.eraseAccountState acct).txQueueLimiter = q.txQueueLimiter := rfl

@[simp] theorem eraseAccountState_knownTxHashes (acct : A) :
    (q.eraseAccountState acct).knownTxHashes = q.knownTxHashes := rfl

@[simp] theorem eraseAccountState_pendingDepth (acct : A) :
    (q.eraseAccountState acct).pendingDepth = q.pendingDepth := rfl

@[simp] theorem eraseAccountState_bannedTransactions (acct : A) :
    (q.eraseAccountState acct).bannedTransactions = q.bannedTransactions := rfl

@[simp] theorem eraseAccountState_filteredTypes (acct : A) :
    (q.eraseAccountState acct).filteredTypes = q.filteredTypes := rfl

@[simp] theorem banHashes_accountStates (hashes : List ℕ) :
    (q.banHashes hashes).accountStates = q.accountStates := rfl

@[simp] theorem banHashes_accountState (hashes : List ℕ) :
    (q.banHashes hashes).accountState = q.accountState := rfl

@[simp] theorem banHashes_txQueueLimiter (hashes : List ℕ) :
    (q.banHashes hashes).txQueueLimiter = q.txQueueLimiter := rfl

@[simp] theorem banHashes_knownTxHashes (hashes : List ℕ) :
    (q.banHashes hashes).knownTxHashes = q.knownTxHashes := rfl

@[simp] theorem banHashes_pendingDepth (hashes : List ℕ) :
    (q.banHashes hashes).pendingDepth = q.pendingDepth := rfl

@[simp] theorem banHashes_filteredTypes (hashes : List ℕ) :
    (q.banHashes hashes).filteredTypes = q.filteredTypes := rfl

theorem banHashes_bannedTransactions_ne_nil {hashes : List ℕ} (h : q.bannedTransactions ≠ []) :
    (q.banHashes hashes).bannedTransactions ≠ [] := by
  unfold banHashes
  split <;> simp_all

end Accounts

/-! ## The queued transactions -/

def queued : List (TxFrame A) := q.accountStates.entries.flatMap fun e => e.2.transactions

theorem mem_queued {tx : TxFrame A} : tx ∈ q.queued ↔ ∃ acct, tx ∈ (q.accountState acct).transactions := by
  simp only [queued, List.mem_flatMap]
  constructor
  · rintro ⟨⟨acct, st⟩, hmem, htx⟩
    refine ⟨acct, ?_⟩
    rwa [accountState, AList.mem_lookup_iff.mpr hmem]
  · rintro ⟨acct, htx⟩
    cases hst : q.accountStates.lookup acct with
    | none => simp [accountState, hst] at htx
    | some st =>
      rw [accountState, hst] at htx
      exact ⟨⟨acct, st⟩, AList.mem_lookup_iff.mp hst, htx⟩

@[simp] theorem queued_setAccountState (acct : A) (st : AccountState A) :
    (q.setAccountState acct st).queued = st.transactions ++ (q.eraseAccountState acct).queued := rfl

@[simp] theorem banHashes_queued (hashes : List ℕ) : (q.banHashes hashes).queued = q.queued := rfl

/-! ## The books -/

/-- The books of the queue agree with its queued transactions, but for two sets of them: those of
`pending` are queued and charged but not yet held by the limiter nor known by their hash, and
those of `dropping` are being dropped, still in their account's list but no longer held, known,
charged to their fee source nor counted in their account's operations. -/
structure Books (pending dropping : Finset (TxFrame A)) : Prop where
  limiter : q.txQueueLimiter.Ok
  resources_nonneg : ∀ tx, 0 ≤ q.txQueueLimiter.txs.laneConfig.getTxResources tx
  sourceID_eq : ∀ acct, ∀ tx ∈ (q.accountState acct).transactions, tx.sourceID = acct
  length_le : ∀ acct, (q.accountState acct).transactions.length ≤ 1
  age_zero : ∀ acct, (q.accountState acct).transactions = [] → (q.accountState acct).age = 0
  age_lt : ∀ acct, (q.accountState acct).age < q.pendingDepth
  banned_ne_nil : q.bannedTransactions ≠ []
  fullFee_pos : ∀ tx ∈ q.queued, 0 < tx.fullFee
  hash_injective : ∀ tx ∈ q.queued, ∀ tx' ∈ q.queued, tx.fullHash = tx'.fullHash → tx = tx'
  pending_sub : ∀ tx ∈ pending, tx ∈ q.queued
  dropping_sub : ∀ tx ∈ dropping, tx ∈ q.queued
  mem_stackForTx : ∀ tx, tx ∈ q.txQueueLimiter.stackForTx ↔ tx ∈ q.queued ∧ tx ∉ pending ∧ tx ∉ dropping
  lookup_knownTxHashes : ∀ h tx, q.knownTxHashes.lookup h = some tx ↔
    (tx ∈ q.queued ∧ tx ∉ pending ∧ tx ∉ dropping) ∧ tx.fullHash = h
  totalFees_eq : ∀ acct, (q.accountState acct).totalFees = feesOf (q.queued.toFinset \ dropping) acct
  queueSizeOps_eq : ∀ acct, (q.accountState acct).queueSizeOps =
    (((q.accountState acct).transactions.filter fun tx => tx ∉ dropping).map TxFrame.numOperations).sum
  present : ∀ acct ∈ q.accountStates,
    (q.accountState acct).transactions ≠ [] ∨ 0 < (q.accountState acct).totalFees

/-- `q'` has the queued transactions and the ages of `q`, and its depth. -/
structure SameLists (q' : TransactionQueue A L n) : Prop where
  transactions : ∀ b, (q'.accountState b).transactions = (q.accountState b).transactions
  age : ∀ b, (q'.accountState b).age = (q.accountState b).age
  pendingDepth : q'.pendingDepth = q.pendingDepth

variable {q} {q' : TransactionQueue A L n} {pending dropping : Finset (TxFrame A)}

theorem SameLists.mem_queued (h : q.SameLists q') {tx : TxFrame A} : tx ∈ q'.queued ↔ tx ∈ q.queued := by
  simp only [TransactionQueue.mem_queued, h.transactions]

theorem SameLists.refl (q : TransactionQueue A L n) : q.SameLists q := ⟨fun _ => rfl, fun _ => rfl, rfl⟩

theorem SameLists.trans {q'' : TransactionQueue A L n} (h : q.SameLists q') (h' : q'.SameLists q'') :
    q.SameLists q'' :=
  ⟨fun b => (h'.transactions b).trans (h.transactions b), fun b => (h'.age b).trans (h.age b),
    h'.pendingDepth.trans h.pendingDepth⟩

theorem Books.transactions_eq (hb : q.Books pending dropping) {acct : A} {tx : TxFrame A}
    (htx : tx ∈ (q.accountState acct).transactions) : (q.accountState acct).transactions = [tx] := by
  have hlen := hb.length_le acct
  match hl : (q.accountState acct).transactions, htx with
  | [t], htx => rw [List.mem_singleton.mp htx]
  | _ :: _ :: _, _ => simp [hl] at hlen

theorem Books.transactions_nodup (hb : q.Books pending dropping) (acct : A) :
    (q.accountState acct).transactions.Nodup := by
  have hlen := hb.length_le acct
  match hl : (q.accountState acct).transactions with
  | [] => exact List.nodup_nil
  | [_] => exact List.nodup_singleton _
  | _ :: _ :: _ => simp [hl] at hlen

theorem Books.feesOf_sdiff_nonneg (hb : q.Books pending dropping) (s : Finset (TxFrame A)) (acct : A) :
    0 ≤ feesOf (q.queued.toFinset \ s) acct :=
  feesOf_nonneg (fun t ht => hb.fullFee_pos t (List.mem_toFinset.mp (Finset.mem_sdiff.mp ht).1)) acct

theorem Books.totalFees_nonneg (hb : q.Books pending dropping) (acct : A) : 0 ≤ (q.accountState acct).totalFees := by
  rw [hb.totalFees_eq]
  exact hb.feesOf_sdiff_nonneg dropping acct

theorem Books.of_sameLists (hb : q.Books pending dropping) (hs : q.SameLists q')
    {pending' dropping' : Finset (TxFrame A)} (hbanned : q'.bannedTransactions ≠ [])
    (hlimiter : q'.txQueueLimiter.Ok)
    (hresources : ∀ tx, 0 ≤ q'.txQueueLimiter.txs.laneConfig.getTxResources tx)
    (hpending : ∀ tx ∈ pending', tx ∈ q.queued) (hdropping : ∀ tx ∈ dropping', tx ∈ q.queued)
    (hstack : ∀ tx, tx ∈ q'.txQueueLimiter.stackForTx ↔ tx ∈ q.queued ∧ tx ∉ pending' ∧ tx ∉ dropping')
    (hknown : ∀ h tx, q'.knownTxHashes.lookup h = some tx ↔
      (tx ∈ q.queued ∧ tx ∉ pending' ∧ tx ∉ dropping') ∧ tx.fullHash = h)
    (hfees : ∀ acct, (q'.accountState acct).totalFees = feesOf (q.queued.toFinset \ dropping') acct)
    (hops : ∀ acct, (q'.accountState acct).queueSizeOps =
      (((q.accountState acct).transactions.filter fun tx => tx ∉ dropping').map TxFrame.numOperations).sum)
    (hpresent : ∀ acct ∈ q'.accountStates,
      (q.accountState acct).transactions ≠ [] ∨ 0 < (q'.accountState acct).totalFees) :
    q'.Books pending' dropping' := by
  have hq : ∀ tx, tx ∈ q'.queued ↔ tx ∈ q.queued := fun _ => hs.mem_queued
  have hfin : q'.queued.toFinset = q.queued.toFinset := by
    ext tx
    simp [hq]
  refine ⟨hlimiter, hresources, ?_, ?_, ?_, ?_, ?_, ?_, ?_, ?_, ?_, ?_, ?_, ?_, ?_, ?_⟩
  · intro acct tx htx
    exact hb.sourceID_eq acct tx (hs.transactions acct ▸ htx)
  · intro acct
    rw [hs.transactions]
    exact hb.length_le acct
  · intro acct hnil
    rw [hs.age]
    exact hb.age_zero acct (hs.transactions acct ▸ hnil)
  · intro acct
    rw [hs.age, hs.pendingDepth]
    exact hb.age_lt acct
  · exact hbanned
  · intro tx htx
    exact hb.fullFee_pos tx ((hq tx).mp htx)
  · intro tx htx tx' htx'
    exact hb.hash_injective tx ((hq tx).mp htx) tx' ((hq tx').mp htx')
  · intro tx htx
    exact (hq tx).mpr (hpending tx htx)
  · intro tx htx
    exact (hq tx).mpr (hdropping tx htx)
  · intro tx
    rw [hstack, hq]
  · intro h tx
    rw [hknown, hq]
  · intro acct
    rw [hfees, hfin]
  · intro acct
    rw [hops, hs.transactions]
  · intro acct hacct
    rw [hs.transactions]
    exact hpresent acct hacct

/-- A new queue keeps its books, when its depth is positive, it keeps some sets of banned
transactions, and its lane configuration gives no transaction negative resources. -/
theorem books_create [NeZero L] {pendingDepth banDepth : ℕ} (laneConfig : SurgePricingLaneConfig A L n)
    (seed : ℕ) (filteredTypes : Finset ℕ) (hdepth : 0 < pendingDepth) (hban : 0 < banDepth)
    (hres : ∀ tx, 0 ≤ laneConfig.getTxResources tx) :
    (TransactionQueue.create pendingDepth banDepth laneConfig seed filteredTypes).Books ∅ ∅ := by
  have hacc : ∀ acct, (TransactionQueue.create pendingDepth banDepth laneConfig seed filteredTypes :
      TransactionQueue A L n).accountState acct = {} := fun _ => by
    simp [TransactionQueue.create, accountState]
  have hnil : (TransactionQueue.create pendingDepth banDepth laneConfig seed filteredTypes :
      TransactionQueue A L n).queued = [] := by
    simp [queued, TransactionQueue.create]
  have hq : ∀ tx, tx ∉ (TransactionQueue.create pendingDepth banDepth laneConfig seed filteredTypes :
      TransactionQueue A L n).queued := fun tx => by
    simp [hnil]
  refine ⟨TxQueueLimiter.ok_reset laneConfig seed, hres, fun acct tx htx => ?_, fun acct => ?_, fun acct _ => ?_,
    fun acct => ?_, ?_, fun tx htx => absurd htx (hq tx), fun tx htx => absurd htx (hq tx),
    fun tx htx => absurd htx (Finset.notMem_empty tx), fun tx htx => absurd htx (Finset.notMem_empty tx),
    fun tx => ?_, fun h tx => ?_, fun acct => ?_, fun acct => ?_, fun acct hacct => ?_⟩
  · simp [hacc] at htx
  · simp [hacc]
  · simp [hacc]
  · rw [hacc]
    exact hdepth
  · simpa [TransactionQueue.create] using Nat.pos_iff_ne_zero.mp hban
  · exact iff_of_false (fun h => by simp [TransactionQueue.create, TxQueueLimiter.reset] at h) (fun h => hq tx h.1)
  · exact iff_of_false (by simp [TransactionQueue.create]) (fun h => hq tx h.1.1)
  · simp [hacc, hnil]
  · simp [hacc]
  · simp [TransactionQueue.create] at hacct

/-! ## Dropping one transaction -/

section Drop

variable {acct : A} {tx : TxFrame A}

theorem releaseFeeMaybeEraseAccountState_cases (h : q.releaseFeeMaybeEraseAccountState tx = .ok q') :
    tx.feeSourceID ∈ q.accountStates ∧
      ((q.accountState tx.feeSourceID).transactions = [] ∧
          (q.accountState tx.feeSourceID).totalFees = tx.fullFee ∧ q' = q.eraseAccountState tx.feeSourceID ∨
        ¬((q.accountState tx.feeSourceID).transactions = [] ∧
          (q.accountState tx.feeSourceID).totalFees = tx.fullFee) ∧
          q' = q.setAccountState tx.feeSourceID { q.accountState tx.feeSourceID with
            totalFees := (q.accountState tx.feeSourceID).totalFees - tx.fullFee }) := by
  unfold releaseFeeMaybeEraseAccountState at h
  split at h
  case h_1 st hst =>
    have hmem : tx.feeSourceID ∈ q.accountStates := AList.lookup_isSome.mp (by simp [hst])
    have hstate : q.accountState tx.feeSourceID = st := by simp [accountState, hst]
    rw [hstate]
    split at h
    · dsimp only at h
      split at h
      case isTrue hc => exact ⟨hmem, .inl ⟨hc.1, by omega, (Except.pure_eq_ok.mp h).symm⟩⟩
      case isFalse hc => exact ⟨hmem, .inr ⟨fun h' => hc ⟨h'.1, by omega⟩, (Except.pure_eq_ok.mp h).symm⟩⟩
    · exact absurd h Except.throw_ne_ok
  case h_2 => exact absurd h Except.throw_ne_ok

theorem releaseFee_keeps (h : q.releaseFeeMaybeEraseAccountState tx = .ok q') :
    q'.txQueueLimiter = q.txQueueLimiter ∧ q'.knownTxHashes = q.knownTxHashes ∧
      q'.bannedTransactions = q.bannedTransactions ∧ q'.pendingDepth = q.pendingDepth := by
  obtain ⟨-, ⟨-, -, rfl⟩ | ⟨-, rfl⟩⟩ := releaseFeeMaybeEraseAccountState_cases h <;> exact ⟨rfl, rfl, rfl, rfl⟩

theorem releaseFee_accountState (h : q.releaseFeeMaybeEraseAccountState tx = .ok q')
    (hnil : (q.accountState tx.feeSourceID).transactions = [] →
      (q.accountState tx.feeSourceID).age = 0 ∧ (q.accountState tx.feeSourceID).queueSizeOps = 0) (b : A) :
    (q'.accountState b).transactions = (q.accountState b).transactions ∧
      (q'.accountState b).age = (q.accountState b).age ∧
      (q'.accountState b).queueSizeOps = (q.accountState b).queueSizeOps ∧
      (q'.accountState b).totalFees =
        (q.accountState b).totalFees - if tx.feeSourceID = b then tx.fullFee else 0 := by
  obtain ⟨-, ⟨hnil', hfee, rfl⟩ | ⟨-, rfl⟩⟩ := releaseFeeMaybeEraseAccountState_cases h
  · by_cases hb : b = tx.feeSourceID
    · subst hb
      obtain ⟨hage, hops⟩ := hnil hnil'
      simp [hnil', hage, hops, hfee]
    · simp [hb, Ne.symm hb]
  · by_cases hb : b = tx.feeSourceID
    · subst hb
      simp
    · simp [hb, Ne.symm hb]

theorem releaseFee_mem (h : q.releaseFeeMaybeEraseAccountState tx = .ok q') {b : A} (hb : b ∈ q'.accountStates) :
    b ∈ q.accountStates ∧ (b = tx.feeSourceID →
      ¬((q.accountState b).transactions = [] ∧ (q.accountState b).totalFees = tx.fullFee)) := by
  obtain ⟨hmem, ⟨-, -, rfl⟩ | ⟨hc, rfl⟩⟩ := releaseFeeMaybeEraseAccountState_cases h
  · obtain ⟨hne, hb⟩ := (mem_eraseAccountState q).mp hb
    exact ⟨hb, fun heq => absurd heq hne⟩
  · rcases (mem_setAccountState q _).mp hb with rfl | hb
    · exact ⟨hmem, fun _ => hc⟩
    · exact ⟨hb, fun heq => heq ▸ hc⟩

theorem prepareDropTransaction_cases (h : q.prepareDropTransaction acct tx = .ok q') :
    ∃ lim, q.txQueueLimiter.removeTransaction tx = .ok lim ∧
      { q.setAccountState acct { q.accountState acct with
          queueSizeOps := (q.accountState acct).queueSizeOps - tx.numOperations } with
        txQueueLimiter := lim, knownTxHashes := q.knownTxHashes.erase tx.fullHash }.releaseFeeMaybeEraseAccountState tx =
        .ok q' := by
  unfold prepareDropTransaction at h
  obtain ⟨lim, hrem, h⟩ := Except.bind_eq_ok.mp h
  exact ⟨lim, hrem, h⟩

theorem Books.prepareDropTransaction (hb : q.Books pending dropping)
    (htx : tx ∈ (q.accountState acct).transactions) (hr : q.prepareDropTransaction acct tx = .ok q') :
    q'.Books pending (insert tx dropping) ∧ q.SameLists q' ∧ tx ∉ pending ∧ tx ∉ dropping := by
  obtain ⟨lim, hrem, hrel⟩ := prepareDropTransaction_cases hr
  generalize hq₂ : { q.setAccountState acct { q.accountState acct with
      queueSizeOps := (q.accountState acct).queueSizeOps - tx.numOperations } with
    txQueueLimiter := lim, knownTxHashes := q.knownTxHashes.erase tx.fullHash } = q₂ at hrel
  obtain ⟨hlim, hknown, hbanned, hdepth⟩ := releaseFee_keeps hrel
  have hlist : (q.accountState acct).transactions = [tx] := hb.transactions_eq htx
  obtain ⟨hq, hnp, hnd⟩ := (hb.mem_stackForTx tx).mp (TxQueueLimiter.mem_of_removeTransaction hrem)
  have hst₂ : ∀ b, (q₂.accountState b).transactions = (q.accountState b).transactions ∧
      (q₂.accountState b).age = (q.accountState b).age ∧
      (q₂.accountState b).totalFees = (q.accountState b).totalFees ∧
      (q₂.accountState b).queueSizeOps =
        if b = acct then (q.accountState acct).queueSizeOps - tx.numOperations else (q.accountState b).queueSizeOps := by
    intro b
    have h₂ : q₂.accountState b = (q.setAccountState acct { q.accountState acct with
        queueSizeOps := (q.accountState acct).queueSizeOps - tx.numOperations }).accountState b := by
      subst hq₂
      rfl
    rw [h₂]
    by_cases hba : b = acct
    · subst hba
      simp
    · simp [hba]
  have hnil : (q₂.accountState tx.feeSourceID).transactions = [] →
      (q₂.accountState tx.feeSourceID).age = 0 ∧ (q₂.accountState tx.feeSourceID).queueSizeOps = 0 := by
    intro hnil
    obtain ⟨htr, hage, -, hops⟩ := hst₂ tx.feeSourceID
    rw [htr] at hnil
    have hne : tx.feeSourceID ≠ acct := fun heq => by simp [heq, hlist] at hnil
    rw [hage, hops, if_neg hne, hb.queueSizeOps_eq, hnil]
    exact ⟨hb.age_zero _ hnil, rfl⟩
  have hst : ∀ b, (q'.accountState b).transactions = (q.accountState b).transactions ∧
      (q'.accountState b).age = (q.accountState b).age ∧
      (q'.accountState b).totalFees = (q.accountState b).totalFees - (if tx.feeSourceID = b then tx.fullFee else 0) ∧
      (q'.accountState b).queueSizeOps =
        if b = acct then (q.accountState acct).queueSizeOps - tx.numOperations else (q.accountState b).queueSizeOps := by
    intro b
    obtain ⟨h₁, h₂, h₃, h₄⟩ := releaseFee_accountState hrel hnil b
    obtain ⟨g₁, g₂, g₃, g₄⟩ := hst₂ b
    exact ⟨h₁.trans g₁, h₂.trans g₂, by rw [h₄, g₃], h₃.trans g₄⟩
  have hsame : q.SameLists q' := ⟨fun b => (hst b).1, fun b => (hst b).2.1, hdepth.trans (by subst hq₂; rfl)⟩
  obtain ⟨_, txs, -, -, -, hlim'⟩ := TxQueueLimiter.removeTransaction_cases hrem
  have hlq : q'.txQueueLimiter = lim := hlim.trans (by subst hq₂; rfl)
  have hdiff : tx ∈ q.queued.toFinset \ dropping := Finset.mem_sdiff.mpr ⟨List.mem_toFinset.mpr hq, hnd⟩
  have hfees : ∀ b, (q'.accountState b).totalFees = feesOf (q.queued.toFinset \ insert tx dropping) b := by
    intro b
    rw [(hst b).2.2.1, hb.totalFees_eq, feesOf_erase hdiff, ← Finset.sdiff_insert, add_sub_cancel_left]
  have hbanned' : q'.bannedTransactions ≠ [] := hbanned.trans (by subst hq₂; rfl) ▸ hb.banned_ne_nil
  refine ⟨hb.of_sameLists hsame hbanned' (hlq ▸ hb.limiter.removeTransaction hrem) ?_ hb.pending_sub ?_ ?_ ?_ ?_ ?_ ?_,
    hsame, hnp, hnd⟩
  · rw [hlq, TxQueueLimiter.removeTransaction_laneConfig hrem]
    exact hb.resources_nonneg
  · intro t ht
    rcases Finset.mem_insert.mp ht with rfl | ht
    · exact hq
    · exact hb.dropping_sub t ht
  · intro t
    rw [hlq, hlim', AList.mem_erase, hb.mem_stackForTx, Finset.mem_insert, not_or]
    constructor
    · rintro ⟨hne, htq, hp, hd⟩
      exact ⟨htq, hp, hne, hd⟩
    · rintro ⟨htq, hp, hne, hd⟩
      exact ⟨hne, htq, hp, hd⟩
  · -- the known hash of `tx` goes, and no other queued transaction has it
    intro h t
    rw [hknown, ← hq₂]
    dsimp only
    rw [Finset.mem_insert, not_or]
    by_cases hh : h = tx.fullHash
    · subst hh
      rw [AList.lookup_erase]
      simp only [reduceCtorEq, false_iff, not_and]
      rintro ⟨htq, -, hne, -⟩ hhash
      exact hne (hb.hash_injective t htq tx hq hhash)
    · rw [AList.lookup_erase_ne hh, hb.lookup_knownTxHashes]
      constructor
      · rintro ⟨⟨htq, hp, hd⟩, rfl⟩
        exact ⟨⟨htq, hp, fun heq => hh (heq ▸ rfl), hd⟩, rfl⟩
      · rintro ⟨⟨htq, hp, -, hd⟩, rfl⟩
        exact ⟨⟨htq, hp, hd⟩, rfl⟩
  · exact hfees
  · -- the operations of `tx` leave its account, and no other account has `tx`
    intro b
    rw [(hst b).2.2.2]
    split
    case isTrue hba =>
      subst hba
      rw [hb.queueSizeOps_eq, hlist]
      simp [hnd]
    case isFalse hba =>
      rw [hb.queueSizeOps_eq]
      congr 2
      refine List.filter_congr fun t ht => ?_
      have hne : t ≠ tx := fun heq => hba ((hb.sourceID_eq b t ht).symm.trans
        (heq ▸ hb.sourceID_eq acct tx htx))
      simp [hne]
  · -- an account left owes a positive sum, all fees being positive
    intro b hbm
    by_cases hnilb : (q.accountState b).transactions = []
    · right
      have hpos : 0 ≤ (q'.accountState b).totalFees := by
        rw [hfees]
        exact hb.feesOf_sdiff_nonneg _ b
      obtain ⟨hbq₂, hfs⟩ := releaseFee_mem hrel hbm
      have hba : b ≠ acct := fun heq => by simp [heq, hlist] at hnilb
      have hbq : b ∈ q.accountStates := by
        subst hq₂
        exact ((mem_setAccountState q _).mp hbq₂).resolve_left hba
      have hold := (hb.present b hbq).resolve_left (not_not.mpr hnilb)
      rw [(hst b).2.2.1] at hpos ⊢
      by_cases hbfs : b = tx.feeSourceID
      · have hne : (q₂.accountState b).totalFees ≠ tx.fullFee := fun heq =>
          hfs hbfs ⟨(hst₂ b).1.trans hnilb, heq⟩
        rw [(hst₂ b).2.2.1] at hne
        rw [if_pos hbfs.symm] at hpos ⊢
        omega
      · rw [if_neg (Ne.symm hbfs)] at hpos ⊢
        omega
    · exact .inl hnilb

end Drop

/-! ## Keeping what is left of an account -/

section Keep

variable (q) {acct : A} (ts : List (TxFrame A))

@[simp] theorem keepTransactions_accountState_of_ne {b : A} (h : b ≠ acct) :
    (q.keepTransactions acct ts).accountState b = q.accountState b := by
  unfold keepTransactions
  dsimp only
  split
  · split <;> simp [h]
  · simp [h]

@[simp] theorem keepTransactions_transactions :
    ((q.keepTransactions acct ts).accountState acct).transactions = ts := by
  unfold keepTransactions
  dsimp only
  split
  case isTrue h =>
    split <;> simp [h]
  case isFalse => simp

@[simp] theorem keepTransactions_totalFees :
    ((q.keepTransactions acct ts).accountState acct).totalFees = (q.accountState acct).totalFees := by
  unfold keepTransactions
  dsimp only
  split
  · split
    case isTrue h => simp [h]
    case isFalse => simp
  · simp

theorem keepTransactions_age :
    ((q.keepTransactions acct ts).accountState acct).age = if ts = [] then 0 else (q.accountState acct).age := by
  unfold keepTransactions
  dsimp only
  split
  case isTrue h =>
    split <;> simp [h]
  case isFalse => simp

theorem keepTransactions_queueSizeOps :
    ((q.keepTransactions acct ts).accountState acct).queueSizeOps =
      if ts = [] ∧ (q.accountState acct).totalFees = 0 then 0 else (q.accountState acct).queueSizeOps := by
  unfold keepTransactions
  dsimp only
  split
  case isTrue h =>
    split
    case isTrue hf => simp [h, hf]
    case isFalse hf => simp [h, hf]
  case isFalse h => simp [h]

theorem mem_keepTransactions {b : A} :
    b ∈ (q.keepTransactions acct ts).accountStates ↔
      b = acct ∧ (ts ≠ [] ∨ (q.accountState acct).totalFees ≠ 0) ∨ b ≠ acct ∧ b ∈ q.accountStates := by
  unfold keepTransactions
  dsimp only
  by_cases hba : b = acct
  · subst hba
    split
    case isTrue h =>
      split
      case isTrue hf => simp [h, hf]
      case isFalse hf => simp [h, hf]
    case isFalse h => simp [h]
  · split
    · split <;> simp [hba]
    · simp [hba]

theorem keepTransactions_keeps :
    (q.keepTransactions acct ts).txQueueLimiter = q.txQueueLimiter ∧
      (q.keepTransactions acct ts).knownTxHashes = q.knownTxHashes ∧
      (q.keepTransactions acct ts).bannedTransactions = q.bannedTransactions ∧
      (q.keepTransactions acct ts).pendingDepth = q.pendingDepth := by
  unfold keepTransactions
  dsimp only
  split
  · split <;> exact ⟨rfl, rfl, rfl, rfl⟩
  · exact ⟨rfl, rfl, rfl, rfl⟩

variable {q ts}

theorem Books.keepTransactions (hb : q.Books pending dropping)
    (hd : ∀ tx ∈ dropping, tx ∈ (q.accountState acct).transactions) (hdp : ∀ tx ∈ dropping, tx ∉ pending)
    (hts : ts = (q.accountState acct).transactions.filter fun tx => tx ∉ dropping) :
    (q.keepTransactions acct ts).Books pending ∅ := by
  obtain ⟨hlim, hknown, hbanned, hdepth⟩ : (q.keepTransactions acct ts).txQueueLimiter = q.txQueueLimiter ∧
      (q.keepTransactions acct ts).knownTxHashes = q.knownTxHashes ∧
      (q.keepTransactions acct ts).bannedTransactions = q.bannedTransactions ∧
      (q.keepTransactions acct ts).pendingDepth = q.pendingDepth :=
    keepTransactions_keeps q ts
  have hother : ∀ b ≠ acct, ∀ t ∈ (q.accountState b).transactions, t ∉ dropping := fun b hba t ht htd =>
    hba ((hb.sourceID_eq b t ht).symm.trans (hb.sourceID_eq acct t (hd t htd)))
  have hmem_ts : ∀ t, t ∈ ts ↔ t ∈ (q.accountState acct).transactions ∧ t ∉ dropping := by
    intro t
    rw [hts, List.mem_filter, decide_eq_true_iff]
  have hq : ∀ t, t ∈ (q.keepTransactions acct ts).queued ↔ t ∈ q.queued ∧ t ∉ dropping := by
    intro t
    simp only [mem_queued]
    constructor
    · rintro ⟨b, ht⟩
      by_cases hba : b = acct
      · subst hba
        rw [keepTransactions_transactions, hmem_ts] at ht
        exact ⟨⟨b, ht.1⟩, ht.2⟩
      · rw [keepTransactions_accountState_of_ne q ts hba] at ht
        exact ⟨⟨b, ht⟩, hother b hba t ht⟩
    · rintro ⟨⟨b, ht⟩, htd⟩
      by_cases hba : b = acct
      · subst hba
        exact ⟨b, by rw [keepTransactions_transactions, hmem_ts]; exact ⟨ht, htd⟩⟩
      · exact ⟨b, by rwa [keepTransactions_accountState_of_ne q ts hba]⟩
  have hfin : (q.keepTransactions acct ts).queued.toFinset \ ∅ = q.queued.toFinset \ dropping := by
    ext t
    simp [hq]
  have hsub : ts.Sublist (q.accountState acct).transactions := hts ▸ List.filter_sublist
  refine ⟨hlim ▸ hb.limiter, hlim ▸ hb.resources_nonneg, ?_, ?_, ?_, ?_, hbanned ▸ hb.banned_ne_nil,
    fun t ht => hb.fullFee_pos t ((hq t).mp ht).1,
    fun t ht t' ht' => hb.hash_injective t ((hq t).mp ht).1 t' ((hq t').mp ht').1,
    fun t ht => (hq t).mpr ⟨hb.pending_sub t ht, fun htd => hdp t htd ht⟩,
    fun t ht => absurd ht (Finset.notMem_empty t), ?_, ?_, ?_, ?_, ?_⟩
  · intro b t ht
    by_cases hba : b = acct
    · subst hba
      rw [keepTransactions_transactions] at ht
      exact hb.sourceID_eq b t (hsub.subset ht)
    · rw [keepTransactions_accountState_of_ne q ts hba] at ht
      exact hb.sourceID_eq b t ht
  · intro b
    by_cases hba : b = acct
    · subst hba
      rw [keepTransactions_transactions]
      exact hsub.length_le.trans (hb.length_le b)
    · rw [keepTransactions_accountState_of_ne q ts hba]
      exact hb.length_le b
  · intro b hnil
    by_cases hba : b = acct
    · subst hba
      rw [keepTransactions_transactions] at hnil
      rw [keepTransactions_age, if_pos hnil]
    · rw [keepTransactions_accountState_of_ne q ts hba] at hnil ⊢
      exact hb.age_zero b hnil
  · -- an account made young again is below the depth, as every account is
    intro b
    rw [hdepth]
    by_cases hba : b = acct
    · subst hba
      rw [keepTransactions_age]
      split
      · exact Nat.lt_of_le_of_lt (Nat.zero_le _) (hb.age_lt b)
      · exact hb.age_lt b
    · rw [keepTransactions_accountState_of_ne q ts hba]
      exact hb.age_lt b
  · intro t
    rw [hlim, hb.mem_stackForTx, hq]
    constructor
    · rintro ⟨htq, hp, hd⟩
      exact ⟨⟨htq, hd⟩, hp, Finset.notMem_empty t⟩
    · rintro ⟨⟨htq, hd⟩, hp, -⟩
      exact ⟨htq, hp, hd⟩
  · intro h t
    rw [hknown, hb.lookup_knownTxHashes, hq]
    constructor
    · rintro ⟨⟨htq, hp, hd⟩, hh⟩
      exact ⟨⟨⟨htq, hd⟩, hp, Finset.notMem_empty t⟩, hh⟩
    · rintro ⟨⟨⟨htq, hd⟩, hp, -⟩, hh⟩
      exact ⟨⟨htq, hp, hd⟩, hh⟩
  · intro b
    rw [hfin]
    by_cases hba : b = acct
    · subst hba
      rw [keepTransactions_totalFees]
      exact hb.totalFees_eq b
    · rw [keepTransactions_accountState_of_ne q ts hba]
      exact hb.totalFees_eq b
  · -- the operations of an account are those of its transactions not being dropped
    intro b
    by_cases hba : b = acct
    · subst hba
      rw [keepTransactions_queueSizeOps, keepTransactions_transactions]
      split
      case isTrue h => simp [h.1]
      case isFalse => simp [hb.queueSizeOps_eq, hts]
    · rw [keepTransactions_accountState_of_ne q ts hba, hb.queueSizeOps_eq]
      congr 2
      exact List.filter_congr fun t ht => by simp [hother b hba t ht]
  · intro b hbm
    rcases (mem_keepTransactions q ts).mp hbm with ⟨rfl, hne⟩ | ⟨hba, hbq⟩
    · rw [keepTransactions_transactions, keepTransactions_totalFees]
      have := hb.totalFees_nonneg b
      rcases hne with hne | hne
      · exact .inl hne
      · exact .inr (by omega)
    · rw [keepTransactions_accountState_of_ne q ts hba]
      exact hb.present b hbq

end Keep

/-! ## Dropping transactions -/

section Dropping

variable {acct : A}

theorem Books.foldlM_drop {f : TransactionQueue A L n → TxFrame A → Except String (TransactionQueue A L n)}
    (hf : ∀ {q q' : TransactionQueue A L n} {dropping : Finset (TxFrame A)} {tx : TxFrame A},
      q.Books pending dropping → tx ∈ (q.accountState acct).transactions → f q tx = .ok q' →
        q'.Books pending (insert tx dropping) ∧ q.SameLists q' ∧ tx ∉ pending)
    (ds : List (TxFrame A)) (hb : q.Books pending dropping) (hds : ∀ t ∈ ds, t ∈ (q.accountState acct).transactions)
    (hr : ds.foldlM f q = .ok q') :
    q'.Books pending (dropping ∪ ds.toFinset) ∧ q.SameLists q' ∧ ∀ t ∈ ds, t ∉ pending := by
  induction ds generalizing q dropping with
  | nil =>
    cases hr
    simpa using ⟨hb, SameLists.refl _⟩
  | cons t ds ih =>
    rw [List.foldlM_cons] at hr
    obtain ⟨q₁, h₁, hr⟩ := Except.bind_eq_ok.mp hr
    obtain ⟨hb₁, hs₁, hp₁⟩ := hf hb (hds t List.mem_cons_self) h₁
    obtain ⟨hb', hs', hp'⟩ := ih hb₁ (fun t' ht' => (hs₁.transactions acct).symm ▸ hds t' (List.mem_cons_of_mem t ht')) hr
    refine ⟨?_, hs₁.trans hs', ?_⟩
    · rwa [List.toFinset_cons, Finset.union_insert, ← Finset.insert_union]
    · rintro t' (_ | ⟨_, ht'⟩)
      · exact hp₁
      · exact hp' t' ht'

/-- `dropTransactions` between positions `b ≤ e` closes the books on the transactions dropped:
the account keeps those before `b` and from `e` on, and no other account changes its list. -/
theorem Books.dropTransactions (hb : q.Books pending ∅) {b e : ℕ} (hbe : b ≤ e)
    (hr : q.dropTransactions acct b e = .ok q') :
    q'.Books pending ∅ ∧ (∀ c ≠ acct, (q'.accountState c).transactions = (q.accountState c).transactions) ∧
      (q'.accountState acct).transactions =
        (q.accountState acct).transactions.take b ++ (q.accountState acct).transactions.drop e := by
  unfold TransactionQueue.dropTransactions at hr
  obtain ⟨q₁, hfold, hr⟩ := Except.bind_eq_ok.mp hr
  cases Except.pure_eq_ok.mp hr
  have hnd := hb.transactions_nodup acct
  generalize hxs : (q.accountState acct).transactions = xs at hfold hnd ⊢
  have hds : ∀ t ∈ (xs.take e).drop b, t ∈ xs := fun t ht =>
    (List.take_sublist e xs).subset ((List.drop_sublist b _).subset ht)
  -- each step of the fold drops one transaction of the account
  have hstep : ∀ {q q' : TransactionQueue A L n} {dropping : Finset (TxFrame A)} {tx : TxFrame A},
      q.Books pending dropping → tx ∈ (q.accountState acct).transactions → q.prepareDropTransaction acct tx = .ok q' →
        q'.Books pending (insert tx dropping) ∧ q.SameLists q' ∧ tx ∉ pending := fun hb htx h => by
    obtain ⟨hb', hs, hp, -⟩ := hb.prepareDropTransaction htx h
    exact ⟨hb', hs, hp⟩
  obtain ⟨hb₁, hs₁, hp₁⟩ := Books.foldlM_drop hstep _ hb (fun t ht => hxs ▸ hds t ht) hfold
  have hxs₁ : (q₁.accountState acct).transactions = xs := (hs₁.transactions acct).trans hxs
  rw [hxs₁]
  refine ⟨hb₁.keepTransactions (fun t ht => ?_) (fun t ht => ?_) ?_, fun c hc => ?_, ?_⟩
  · rw [hxs₁]
    exact hds t (List.mem_toFinset.mp (by simpa using ht))
  · exact hp₁ t (List.mem_toFinset.mp (by simpa using ht))
  · rw [hxs₁, take_append_drop_eq_filter hnd hbe]
    exact List.filter_congr fun t _ => by simp
  · rw [keepTransactions_accountState_of_ne q₁ _ hc, hs₁.transactions c]
  · exact keepTransactions_transactions q₁ _

end Dropping

/-! ## Banning -/

section Banning

omit [DecidableEq A] in
theorem findBySeq_getElem? {seq : ℤ} {minSeqNum : Option ℤ} {xs : List (TxFrame A)} {i : ℕ} {t : TxFrame A}
    (h : (findBySeq seq minSeqNum xs).2 = some (i, t)) : xs[i]? = some t := by
  unfold findBySeq at h
  split at h
  · split at h
    · simp at h
    · split at h
      · simp at h
      · dsimp only at h
        split at h
        case h_1 t' ht' =>
          split at h
          · simp at h
          · simp only [Option.some.injEq, Prod.mk.injEq] at h
            obtain ⟨rfl, rfl⟩ := h
            exact ht'
        case h_2 => simp at h
  · simp at h

omit [DecidableEq A] in
theorem findTx_getElem? {tx : TxFrame A} {xs : List (TxFrame A)} {txIter : Option (ℕ × TxFrame A)} {i : ℕ}
    {t : TxFrame A} (h : findTx tx xs txIter = some (i, t)) : xs[i]? = some t ∨ txIter = some (i, t) := by
  unfold findTx at h
  split at h
  case h_1 j t' hfind =>
    split at h
    · cases h
      exact .inl (findBySeq_getElem? hfind)
    · exact .inr h
  case h_2 => exact .inr h

theorem Books.banHashes (hb : q.Books pending dropping) (hashes : List ℕ) :
    (q.banHashes hashes).Books pending dropping :=
  { hb with banned_ne_nil := banHashes_bannedTransactions_ne_nil q hb.banned_ne_nil }

theorem banAccount_cases {acct : A} {txs : List (TxFrame A)} (hr : q.banAccount acct txs = .ok q') :
    q' = q ∨ ∃ first hashes, first ≤ (q.accountState acct).transactions.length ∧
      (q.banHashes hashes).dropTransactions acct first (q.accountState acct).transactions.length = .ok q' := by
  unfold TransactionQueue.banAccount at hr
  split at hr
  case h_1 => exact .inl (Except.pure_eq_ok.mp hr).symm
  case h_2 st hst =>
    have hstate : q.accountState acct = st := by simp [accountState, hst]
    split at hr
    case isTrue => exact .inl (Except.pure_eq_ok.mp hr).symm
    case isFalse =>
      dsimp only at hr
      generalize hiter : List.foldl _ none txs = txIter at hr
      have hpos : ∀ i t, txIter = some (i, t) → st.transactions[i]? = some t := by
        subst hiter
        refine @List.foldlRecOn _ _ (fun it => ∀ i t, it = some (i, t) → st.transactions[i]? = some t) txs _ none
          (fun i t h => absurd h (by simp)) ?_
        intro it hit tx _ i t h
        split at h
        · exact (findTx_getElem? h).resolve_right (by simp)
        · split at h
          · rcases findTx_getElem? h with h' | h'
            · exact h'
            · exact hit i t h'
          · exact hit i t h
      have hfirst : (txIter.map Prod.fst).getD st.transactions.length ≤ st.transactions.length := by
        cases txIter with
        | none => exact le_rfl
        | some p => exact (List.getElem?_eq_some_iff.mp (hpos p.1 p.2 rfl)).1.le
      rw [hstate]
      exact .inr ⟨_, _, hfirst, hr⟩

theorem prepareDropTransaction_bannedTransactions {acct : A} {tx : TxFrame A}
    (h : q.prepareDropTransaction acct tx = .ok q') : q'.bannedTransactions = q.bannedTransactions := by
  obtain ⟨_, -, hrel⟩ := prepareDropTransaction_cases h
  exact (releaseFee_keeps hrel).2.2.1

theorem dropTransactions_bannedTransactions {acct : A} {b e : ℕ} (h : q.dropTransactions acct b e = .ok q') :
    q'.bannedTransactions = q.bannedTransactions := by
  unfold TransactionQueue.dropTransactions at h
  obtain ⟨q₁, hfold, h⟩ := Except.bind_eq_ok.mp h
  cases Except.pure_eq_ok.mp h
  -- no step of the fold touches the banned transactions
  have h₁ : q₁.bannedTransactions = q.bannedTransactions :=
    Except.foldlM_induction (fun w => w.bannedTransactions = q.bannedTransactions)
      (fun _ _ _ _ hw hs => (prepareDropTransaction_bannedTransactions hs).trans hw) rfl hfold
  exact (keepTransactions_keeps q₁ _).2.2.1.trans h₁

omit [DecidableEq A] in
theorem findTx_singleton (tx t : TxFrame A) (txIter : Option (ℕ × TxFrame A)) :
    findTx tx [t] txIter = if tx.seqNum = t.seqNum ∧ t.fullHash = tx.fullHash then some (0, t) else txIter := by
  unfold findTx findBySeq
  rcases lt_trichotomy tx.seqNum t.seqNum with hlt | heq | hgt
  · simp [hlt, hlt.ne]
  · simp [heq]
  · simp [hgt, hgt.ne', not_lt.mpr hgt.le]

omit [DecidableEq A] in
theorem foldl_eq_ite_any {α β : Type} {f : β → α → β} {p : α → Bool} {b c : β}
    (hb : ∀ a, f b a = if p a then c else b) (hc : ∀ a, f c a = c) :
    ∀ l : List α, l.foldl f b = if l.any p then c else b
  | [] => rfl
  | a :: l => by
    rw [List.foldl_cons, hb a, List.any_cons]
    cases p a
    · exact foldl_eq_ite_any hb hc l
    · exact List.foldl_fixed' hc l

theorem banAccount_eq_of_singleton {acct : A} {txs : List (TxFrame A)} {st : AccountState A} {t : TxFrame A}
    (hst : q.accountStates.lookup acct = some st) (ht : st.transactions = [t]) :
    q.banAccount acct txs =
      if txs.any (fun tx => decide (tx.seqNum = t.seqNum ∧ t.fullHash = tx.fullHash)) then
        (q.banHashes [t.fullHash]).dropTransactions acct 0 1
      else (q.banHashes []).dropTransactions acct 1 1 := by
  unfold banAccount
  rw [hst]
  simp only [ht, reduceCtorEq, ↓reduceIte, List.length_singleton]
  rw [foldl_eq_ite_any (c := some (0, t)) (p := fun tx => decide (tx.seqNum = t.seqNum ∧ t.fullHash = tx.fullHash))
    (fun tx => ?_) (fun tx => ?_)]
  · split <;> rfl
  · dsimp only
    simp only [findTx_singleton, decide_eq_true_eq]
  · dsimp only
    rw [findTx_singleton]
    split_ifs <;> rfl

/-- The queued transactions `ban banTxs` takes: a transaction of `banTxs` has the source account,
the number and the hash of `t`. -/
def bannedBy (banTxs : List (TxFrame A)) (t : TxFrame A) : Bool :=
  banTxs.any fun tx => decide (tx.sourceID = t.sourceID) && decide (tx.seqNum = t.seqNum ∧ t.fullHash = tx.fullHash)

theorem banHashes_nil_bannedTransactions : (q.banHashes []).bannedTransactions = q.bannedTransactions := by
  unfold banHashes
  split <;> simp_all

theorem banHashes_bannedTransactions_of_mem {hashes : List ℕ}
    (h : ∀ x ∈ hashes, ∀ front ∈ q.bannedTransactions.head?, x ∈ front) :
    (q.banHashes hashes).bannedTransactions = q.bannedTransactions := by
  unfold TransactionQueue.banHashes
  split
  next front rest hfr =>
    have hsub : hashes.toFinset ⊆ front := fun x hx => h x (List.mem_toFinset.mp hx) front (by simp [hfr])
    simp [hfr, Finset.union_eq_left.mpr hsub]
  next hnil => simp [hnil]

theorem banAccount_of_nil {acct : A} {txs : List (TxFrame A)} (h : (q.accountState acct).transactions = []) :
    q.banAccount acct txs = pure q := by
  unfold banAccount
  split
  · rfl
  · next st hst =>
    have hstate : q.accountState acct = st := by simp [accountState, hst]
    rw [← hstate, if_pos h]

theorem Books.banAccount (hb : q.Books pending ∅) {acct : A} {banTxs : List (TxFrame A)}
    (hr : q.banAccount acct (banTxs.filter fun tx => tx.sourceID = acct) = .ok q') :
    q'.Books pending ∅ ∧
      (∀ c, (q'.accountState c).transactions =
        (q.accountState c).transactions.filter fun t => !(decide (t.sourceID = acct) && bannedBy banTxs t)) ∧
      ∃ hashes, (∀ h ∈ hashes, ∃ tx ∈ banTxs, tx.fullHash = h) ∧
        q'.bannedTransactions = (q.banHashes hashes).bannedTransactions := by
  have hkeep : ∀ c ≠ acct, ((q.accountState c).transactions.filter fun t =>
      !(decide (t.sourceID = acct) && bannedBy banTxs t)) = (q.accountState c).transactions := fun c hc =>
    List.filter_eq_self.mpr fun t ht => by simp [hb.sourceID_eq c t ht, hc]
  match hl : (q.accountState acct).transactions with
  | [] =>
    cases Except.pure_eq_ok.mp ((banAccount_of_nil hl).symm.trans hr)
    refine ⟨hb, fun c => ?_, [], by simp, banHashes_nil_bannedTransactions.symm⟩
    by_cases hc : c = acct
    · subst hc
      simp [hl]
    · exact (hkeep c hc).symm
  | [t] =>
    obtain ⟨st, hst⟩ : ∃ st, q.accountStates.lookup acct = some st :=
      Option.ne_none_iff_exists'.mp fun hnone => by simp [accountState, hnone] at hl
    have hstate : q.accountState acct = st := by simp [accountState, hst]
    have hsrc : t.sourceID = acct := hb.sourceID_eq acct t (by simp [hl])
    have hmatch : (banTxs.any fun tx => decide (tx.sourceID = acct) &&
        decide (tx.seqNum = t.seqNum ∧ t.fullHash = tx.fullHash)) = bannedBy banTxs t := by
      rw [bannedBy, hsrc]
    rw [banAccount_eq_of_singleton hst (hstate ▸ hl), List.any_filter, hmatch] at hr
    split_ifs at hr with hany
    · obtain ⟨hb', hother, hacct⟩ := (hb.banHashes _).dropTransactions (Nat.zero_le 1) hr
      refine ⟨hb', fun c => ?_, [t.fullHash], ?_, dropTransactions_bannedTransactions hr⟩
      · by_cases hc : c = acct
        · subst hc
          simp [hacct, hl, hany, hsrc]
        · rw [hother c hc, banHashes_accountState, hkeep c hc]
      · obtain ⟨tx, htx, htxm⟩ := List.any_eq_true.mp hany
        simp only [Bool.and_eq_true, decide_eq_true_eq] at htxm
        simp only [List.mem_singleton, forall_eq]
        exact ⟨tx, htx, htxm.2.2.symm⟩
    · obtain ⟨hb', hother, hacct⟩ := (hb.banHashes _).dropTransactions le_rfl hr
      refine ⟨hb', fun c => ?_, [], by simp, dropTransactions_bannedTransactions hr⟩
      by_cases hc : c = acct
      · subst hc
        simp [hacct, hl, hany]
      · rw [hother c hc, banHashes_accountState, hkeep c hc]
  | _ :: _ :: _ => exact absurd (hb.length_le acct) (by simp [hl])

variable (q) in
/-- `q'` is `q` with the queued transactions that `keep` refuses dropped: out of their accounts'
lists, the limiter and the known hashes, their fees released from their fee sources and their
operations out of their accounts. -/
structure Drops (q' : TransactionQueue A L n) (keep : TxFrame A → Bool) : Prop where
  transactions : ∀ acct, (q'.accountState acct).transactions = (q.accountState acct).transactions.filter keep
  stackForTx : ∀ tx, tx ∈ q'.txQueueLimiter.stackForTx ↔ tx ∈ q.txQueueLimiter.stackForTx ∧ keep tx = true
  knownTxHashes : ∀ h, q'.knownTxHashes.lookup h = (q.knownTxHashes.lookup h).filter keep
  totalFees : ∀ acct, (q'.accountState acct).totalFees =
    (q.accountState acct).totalFees - feesOf (q.queued.filter fun tx => !keep tx).toFinset acct
  queueSizeOps : ∀ acct, (q'.accountState acct).queueSizeOps =
    (q.accountState acct).queueSizeOps -
      (((q.accountState acct).transactions.filter fun tx => !keep tx).map TxFrame.numOperations).sum

theorem Books.drops (hb : q.Books pending ∅) (hb' : q'.Books pending ∅) {keep : TxFrame A → Bool}
    (ht : ∀ acct, (q'.accountState acct).transactions = (q.accountState acct).transactions.filter keep) :
    q.Drops q' keep := by
  have hq : ∀ tx, tx ∈ q'.queued ↔ tx ∈ q.queued ∧ keep tx = true := fun tx => by
    simp only [mem_queued, ht, List.mem_filter, exists_and_right]
  have hfin : q'.queued.toFinset = q.queued.toFinset.filter fun tx => keep tx := by
    ext tx
    simp [hq]
  refine ⟨ht, fun tx => ?_, fun h => Option.ext fun tx => ?_, fun acct => ?_, fun acct => ?_⟩
  · rw [hb'.mem_stackForTx, hb.mem_stackForTx, hq]
    simp only [Finset.notMem_empty, not_false_eq_true, and_true]
    tauto
  · rw [hb'.lookup_knownTxHashes, Option.filter_eq_some_iff, hb.lookup_knownTxHashes, hq]
    simp only [Finset.notMem_empty, not_false_eq_true, and_true]
    tauto
  · -- the fees of the queued transactions split into those kept and those dropped
    have hsplit := feesOf_filter_add_feesOf_filter_not q.queued.toFinset keep acct
    rw [hb'.totalFees_eq, hb.totalFees_eq, Finset.sdiff_empty, Finset.sdiff_empty, hfin, List.toFinset_filter]
    simp only [Bool.not_eq_true, Bool.not_eq_eq_eq_not, Bool.not_true] at hsplit ⊢
    linarith
  · have hsplit : (((q.accountState acct).transactions.filter keep).map TxFrame.numOperations).sum +
        (((q.accountState acct).transactions.filter fun tx => !keep tx).map TxFrame.numOperations).sum =
          ((q.accountState acct).transactions.map TxFrame.numOperations).sum := by
      simpa using List.sum_map_filter_add_sum_map_filter_not (fun tx => keep tx = true) TxFrame.numOperations
        (q.accountState acct).transactions
    rw [hb'.queueSizeOps_eq, hb.queueSizeOps_eq, ht]
    simp only [Finset.notMem_empty, not_false_eq_true, decide_true, List.filter_true]
    omega

theorem Books.foldlM_banAccount (banTxs : List (TxFrame A)) :
    ∀ (accts : List A) {w w' : TransactionQueue A L n}, w.Books pending ∅ →
      (∀ tx ∈ banTxs, ∀ front ∈ w.bannedTransactions.head?, tx.fullHash ∈ front) →
      accts.foldlM (fun q acct => q.banAccount acct (banTxs.filter fun tx => tx.sourceID = acct)) w = .ok w' →
      w'.Books pending ∅ ∧ (∀ c, (w'.accountState c).transactions =
        (w.accountState c).transactions.filter fun t => !(decide (t.sourceID ∈ accts) && bannedBy banTxs t)) ∧
        w'.bannedTransactions = w.bannedTransactions
  | [], w, w', hb, _, hr => by
    cases hr
    simp [hb]
  | acct :: accts, w, w', hb, hfront, hr => by
    rw [List.foldlM_cons] at hr
    obtain ⟨w₁, h₁, hr⟩ := Except.bind_eq_ok.mp hr
    obtain ⟨hb₁, hl₁, hashes, hhashes, hbanned₁⟩ := hb.banAccount h₁
    have hsame : w₁.bannedTransactions = w.bannedTransactions := by
      rw [hbanned₁]
      refine banHashes_bannedTransactions_of_mem fun h hh => ?_
      obtain ⟨tx, htx, rfl⟩ := hhashes h hh
      exact hfront tx htx
    obtain ⟨hb', hl', hbanned'⟩ := Books.foldlM_banAccount banTxs accts hb₁ (hsame ▸ hfront) hr
    refine ⟨hb', fun c => ?_, hbanned'.trans hsame⟩
    rw [hl', hl₁, List.filter_filter]
    refine List.filter_congr fun t _ => ?_
    by_cases hsrc : t.sourceID = acct <;> cases bannedBy banTxs t <;> simp [hsrc]

variable (q) in
theorem mem_head_banHashes {hashes : List ℕ} :
    ∀ x ∈ hashes, ∀ front ∈ (q.banHashes hashes).bannedTransactions.head?, x ∈ front := by
  intro x hx front hfront
  unfold TransactionQueue.banHashes at hfront
  split at hfront
  · simp only [List.head?_cons, Option.mem_def, Option.some.injEq] at hfront
    subst hfront
    exact Finset.mem_union_right _ (List.mem_toFinset.mpr hx)
  · simp at hfront

theorem Books.ban_lists (hb : q.Books pending ∅) {banTxs : List (TxFrame A)} (hr : q.ban banTxs = .ok q') :
    q'.Books pending ∅ ∧
      (∀ c, (q'.accountState c).transactions = (q.accountState c).transactions.filter fun t => !bannedBy banTxs t) ∧
      q'.bannedTransactions = (q.banHashes (banTxs.map TxFrame.fullHash)).bannedTransactions := by
  unfold TransactionQueue.ban at hr
  have hfront : ∀ tx ∈ banTxs, ∀ front ∈ (q.banHashes (banTxs.map TxFrame.fullHash)).bannedTransactions.head?,
      tx.fullHash ∈ front := fun tx htx => mem_head_banHashes q _ (List.mem_map_of_mem htx)
  obtain ⟨hb', hl, hbanned⟩ := (hb.banHashes _).foldlM_banAccount banTxs _ hfront hr
  refine ⟨hb', fun c => ?_, hbanned⟩
  rw [hl, banHashes_accountState]
  refine List.filter_congr fun t _ => ?_
  -- a transaction that `banTxs` lists is of an account of `banTxs`
  cases hbt : bannedBy banTxs t
  · simp
  · obtain ⟨tx, htx, htxm⟩ := List.any_eq_true.mp hbt
    simp only [Bool.and_eq_true, decide_eq_true_eq] at htxm
    have hmem : t.sourceID ∈ (banTxs.map TxFrame.sourceID).dedup :=
      List.mem_dedup.mpr (List.mem_map.mpr ⟨tx, htx, htxm.1⟩)
    simp [hmem]

variable (q) in
/-- The hashes `shift` bans for the account `acct`: those of its queued transactions, when it
reaches the pending depth. -/
def agedOutHashes (acct : A) : List ℕ :=
  if (q.accountState acct).age + 1 = q.pendingDepth then (q.accountState acct).transactions.map TxFrame.fullHash
  else []

/-- `q'` has the queued transactions of `acct` that `q` has, and its age when it has some. -/
structure KeepsAccount (q q' : TransactionQueue A L n) (acct : A) : Prop where
  transactions : (q'.accountState acct).transactions = (q.accountState acct).transactions
  age : (q.accountState acct).transactions ≠ [] → (q'.accountState acct).age = (q.accountState acct).age

variable {acct : A} {tx : TxFrame A}

theorem KeepsAccount.refl (q : TransactionQueue A L n) (acct : A) : KeepsAccount q q acct := ⟨rfl, fun _ => rfl⟩

theorem KeepsAccount.trans {q'' : TransactionQueue A L n} (h₁ : KeepsAccount q q' acct)
    (h₂ : KeepsAccount q' q'' acct) : KeepsAccount q q'' acct :=
  ⟨h₂.transactions.trans h₁.transactions, fun h => (h₂.age (h₁.transactions ▸ h)).trans (h₁.age h)⟩

theorem KeepsAccount.of_eq (h : q'.accountState acct = q.accountState acct) : KeepsAccount q q' acct :=
  ⟨by rw [h], fun _ => by rw [h]⟩

theorem KeepsAccount.agedOutHashes_eq (h : KeepsAccount q q' acct) (hd : q'.pendingDepth = q.pendingDepth) :
    q'.agedOutHashes acct = q.agedOutHashes acct := by
  unfold agedOutHashes
  by_cases hnil : (q.accountState acct).transactions = []
  · simp [h.transactions, hnil]
  · rw [h.transactions, h.age hnil, hd]

theorem releaseFee_keepsAccount (h : q.releaseFeeMaybeEraseAccountState tx = .ok q') (b : A) :
    KeepsAccount q q' b := by
  obtain ⟨-, ⟨hnil, -, rfl⟩ | ⟨-, rfl⟩⟩ := releaseFeeMaybeEraseAccountState_cases h
  · by_cases hb : b = tx.feeSourceID
    · subst hb
      exact ⟨by simp [hnil], fun hne => absurd hnil hne⟩
    · exact .of_eq (by simp [hb])
  · by_cases hb : b = tx.feeSourceID
    · subst hb
      exact ⟨by simp, fun _ => by simp⟩
    · exact .of_eq (by simp [hb])

theorem prepareDropTransaction_keepsAccount (h : q.prepareDropTransaction acct tx = .ok q') (b : A) :
    KeepsAccount q q' b := by
  obtain ⟨lim, -, hrel⟩ := prepareDropTransaction_cases h
  refine KeepsAccount.trans ?_ (releaseFee_keepsAccount hrel b)
  by_cases hb : b = acct
  · subst hb
    exact ⟨by simp [accountState, setAccountState], fun _ => by simp [accountState, setAccountState]⟩
  · exact .of_eq (by simp [accountState, setAccountState, AList.lookup_insert_ne hb])

theorem banHashes_banHashes (hs hs' : List ℕ) :
    ((q.banHashes hs).banHashes hs').bannedTransactions = (q.banHashes (hs ++ hs')).bannedTransactions := by
  unfold TransactionQueue.banHashes
  split <;> simp_all [Finset.union_assoc]

theorem banHashes_congr {hs : List ℕ} (h : q'.bannedTransactions = q.bannedTransactions) :
    (q'.banHashes hs).bannedTransactions = (q.banHashes hs).bannedTransactions := by
  simp only [TransactionQueue.banHashes, h]

theorem foldlM_dropBan : ∀ (xs : List (TxFrame A)) {w w' : TransactionQueue A L n},
    xs.foldlM (fun q toBan => do
      let q ← q.prepareDropTransaction acct toBan
      pure (q.banHashes [toBan.fullHash])) w = .ok w' →
    w'.bannedTransactions = (w.banHashes (xs.map TxFrame.fullHash)).bannedTransactions ∧
      (∀ b, KeepsAccount w w' b) ∧ w'.pendingDepth = w.pendingDepth
  | [], w, w', hr => by
    cases hr
    exact ⟨banHashes_nil_bannedTransactions.symm, fun b => .refl w b, rfl⟩
  | x :: xs, w, w', hr => by
    rw [List.foldlM_cons] at hr
    obtain ⟨w₂, h₂, hr⟩ := Except.bind_eq_ok.mp hr
    obtain ⟨w₁, h₁, h₂⟩ := Except.bind_eq_ok.mp h₂
    cases Except.pure_eq_ok.mp h₂
    obtain ⟨hbanned, hkeep, hdepth⟩ := foldlM_dropBan xs hr
    obtain ⟨_, -, hrel⟩ := prepareDropTransaction_cases h₁
    obtain ⟨-, -, hbanned₁, hdepth₁⟩ := releaseFee_keeps hrel
    have hkeep₁ : ∀ b, KeepsAccount w₁ (w₁.banHashes [x.fullHash]) b := fun b => .of_eq rfl
    refine ⟨?_, fun b => ((prepareDropTransaction_keepsAccount h₁ b).trans (hkeep₁ b)).trans (hkeep b),
      hdepth.trans hdepth₁⟩
    rw [hbanned, banHashes_banHashes, banHashes_congr hbanned₁]
    rfl

theorem shiftAccount_eq [NeZero L] (hr : q.shiftAccount acct = .ok q') :
    q'.bannedTransactions = (q.banHashes (q.agedOutHashes acct)).bannedTransactions ∧
      (∀ b ≠ acct, KeepsAccount q q' b) ∧ q'.pendingDepth = q.pendingDepth := by
  unfold TransactionQueue.shiftAccount at hr
  split at hr
  case h_1 hnone =>
    cases Except.pure_eq_ok.mp hr
    have hnil : (q.accountState acct).transactions = [] := by simp [accountState, hnone]
    exact ⟨by simp [agedOutHashes, hnil, banHashes_nil_bannedTransactions], fun b _ => .refl q b, rfl⟩
  case h_2 st hst =>
    have hstate : q.accountState acct = st := by simp [accountState, hst]
    dsimp only at hr
    -- the account, aged when it has transactions, is set first
    generalize hst' : (if st.transactions ≠ [] then { st with age := st.age + 1 } else st) = st' at hr
    have htxs : st'.transactions = st.transactions := by
      subst hst'
      split <;> rfl
    have hkeep₁ : ∀ b ≠ acct, KeepsAccount q (q.setAccountState acct st') b := fun b hb => .of_eq (by simp [hb])
    have hagedOut : q.agedOutHashes acct =
        if q.pendingDepth = st'.age then st.transactions.map TxFrame.fullHash else [] := by
      subst hst'
      unfold agedOutHashes
      rw [hstate]
      by_cases hnil : st.transactions = []
      · simp [hnil]
      · simp [hnil, eq_comm]
    split at hr
    case isTrue hdepth =>
      rw [setAccountState_pendingDepth] at hdepth
      obtain ⟨q₁, hfold, hr⟩ := Except.bind_eq_ok.mp hr
      cases Except.pure_eq_ok.mp hr
      obtain ⟨hbanned, hkeep, hdepth₁⟩ := foldlM_dropBan _ hfold
      obtain ⟨-, -, hbanned₂, hdepth₂⟩ : _ ∧ _ ∧ (q₁.keepTransactions acct []).bannedTransactions = _ ∧ _ :=
        keepTransactions_keeps q₁ []
      refine ⟨?_, fun b hb => ?_, hdepth₂.trans hdepth₁⟩
      · rw [hbanned₂, hbanned, hagedOut, if_pos hdepth, htxs]
        rfl
      · exact ((hkeep₁ b hb).trans (hkeep b)).trans (.of_eq (keepTransactions_accountState_of_ne q₁ [] hb))
    case isFalse hdepth =>
      rw [setAccountState_pendingDepth] at hdepth
      cases Except.pure_eq_ok.mp hr
      refine ⟨?_, hkeep₁, rfl⟩
      rw [hagedOut, if_neg hdepth, banHashes_nil_bannedTransactions]
      rfl

theorem foldlM_shiftAccount [NeZero L] : ∀ (l : List A) {w w' : TransactionQueue A L n}, l.Nodup →
    (∀ b ∈ l, KeepsAccount q w b) → w.pendingDepth = q.pendingDepth →
    l.foldlM (fun q acct => q.shiftAccount acct) w = .ok w' →
    w'.bannedTransactions = (w.banHashes (l.flatMap q.agedOutHashes)).bannedTransactions
  | [], w, w', _, _, _, hr => by
    cases hr
    exact banHashes_nil_bannedTransactions.symm
  | acct :: l, w, w', hl, hkeep, hdepth, hr => by
    rw [List.foldlM_cons] at hr
    obtain ⟨w₁, h₁, hr⟩ := Except.bind_eq_ok.mp hr
    obtain ⟨hbanned₁, hkeep₁, hdepth₁⟩ := shiftAccount_eq h₁
    obtain ⟨hnot, hnodup⟩ := List.nodup_cons.mp hl
    have ih := foldlM_shiftAccount l hnodup
      (fun b hb => (hkeep b (List.mem_cons_of_mem acct hb)).trans (hkeep₁ b fun h => hnot (h ▸ hb)))
      (hdepth₁.trans hdepth) hr
    rw [ih, banHashes_congr hbanned₁, banHashes_banHashes,
      (hkeep acct List.mem_cons_self).agedOutHashes_eq hdepth, List.flatMap_cons]

theorem shift_bannedTransactions_eq [NeZero L] (hr : q.shift = .ok q') :
    q'.bannedTransactions = ({ q with bannedTransactions := ∅ :: q.bannedTransactions.dropLast }.banHashes
      (q.accountStates.keys.flatMap q.agedOutHashes)).bannedTransactions := by
  unfold TransactionQueue.shift at hr
  obtain ⟨q₁, hfold, hr⟩ := Except.bind_eq_ok.mp hr
  cases Except.pure_eq_ok.mp hr
  have hbanned := foldlM_shiftAccount (q := q) _ q.accountStates.keys_nodup (fun b _ => .of_eq (by rfl)) (by rfl) hfold
  exact hbanned

/-- Every transaction valid, every account holding 100, and room for ten units of resources. -/
def sampleLedgerView : LedgerView ℕ 1 := ⟨fun _ _ => true, fun _ => 100, fun _ => 10⟩

theorem getD_bannedTransactions_shift [NeZero L] (hr : q.shift = .ok q') {i : ℕ}
    (hi : i + 1 < q.bannedTransactions.length) :
    q.bannedTransactions.getD i ∅ ⊆ q'.bannedTransactions.getD (i + 1) ∅ ∧
      q'.bannedTransactions.length = q.bannedTransactions.length := by
  rw [shift_bannedTransactions_eq hr]
  simp only [TransactionQueue.banHashes, List.getD_cons_succ, List.length_cons, List.length_dropLast]
  refine ⟨fun x hx => ?_, by omega⟩
  rwa [List.getD_eq_getElem?_getD, List.getElem?_dropLast, if_pos (by omega), ← List.getD_eq_getElem?_getD]

theorem banAccount_bannedTransactions {acct : A} {txs : List (TxFrame A)} (hr : q.banAccount acct txs = .ok q') :
    ∃ hashes, q'.bannedTransactions = (q.banHashes hashes).bannedTransactions := by
  obtain rfl | ⟨first, hashes, -, hr⟩ := banAccount_cases hr
  · exact ⟨[], banHashes_nil_bannedTransactions.symm⟩
  · exact ⟨hashes, dropTransactions_bannedTransactions hr⟩

theorem ban_bannedTransactions {banTxs : List (TxFrame A)} (hr : q.ban banTxs = .ok q') :
    ∃ hashes, q'.bannedTransactions = (q.banHashes (banTxs.map TxFrame.fullHash ++ hashes)).bannedTransactions := by
  unfold TransactionQueue.ban at hr
  refine Except.foldlM_induction
    (fun w => ∃ hashes, w.bannedTransactions = (q.banHashes (banTxs.map TxFrame.fullHash ++ hashes)).bannedTransactions)
    (fun w _ w' _ ⟨hashes, hw⟩ hs => ?_) ⟨[], by rw [List.append_nil]⟩ hr
  obtain ⟨hashes', hw'⟩ := banAccount_bannedTransactions hs
  refine ⟨hashes ++ hashes', ?_⟩
  rw [hw', banHashes_congr hw, banHashes_banHashes, List.append_assoc]

variable (q) in
theorem getD_banHashes (hashes : List ℕ) (hne : q.bannedTransactions ≠ []) :
    ∀ x ∈ hashes, x ∈ (q.banHashes hashes).bannedTransactions.getD 0 ∅ := by
  obtain ⟨front, rest, hfr⟩ := List.exists_cons_of_ne_nil hne
  intro x hx
  simp [TransactionQueue.banHashes, hfr, hx]

variable (q) in
theorem length_banHashes (hashes : List ℕ) :
    (q.banHashes hashes).bannedTransactions.length = q.bannedTransactions.length := by
  unfold TransactionQueue.banHashes
  split <;> simp_all

theorem getD_bannedTransactions_shifts [NeZero L] {x : ℕ} :
    ∀ (k : ℕ) {w w' : TransactionQueue A L n} {i : ℕ},
      (List.replicate k ()).foldlM (fun w _ => w.shift) w = .ok w' → i + k < w.bannedTransactions.length →
      x ∈ w.bannedTransactions.getD i ∅ →
      x ∈ w'.bannedTransactions.getD (i + k) ∅ ∧ w'.bannedTransactions.length = w.bannedTransactions.length
  | 0, w, w', i, hr, _, hx => by
    cases hr
    exact ⟨hx, rfl⟩
  | k + 1, w, w', i, hr, hi, hx => by
    rw [List.replicate_succ, List.foldlM_cons] at hr
    obtain ⟨w₁, h₁, hr⟩ := Except.bind_eq_ok.mp hr
    obtain ⟨hsub, hlen⟩ := getD_bannedTransactions_shift (i := i) h₁ (by omega)
    obtain ⟨hx', hlen'⟩ := getD_bannedTransactions_shifts k (i := i + 1) hr (by omega) (hsub hx)
    rw [show i + 1 + k = i + (k + 1) by omega] at hx'
    exact ⟨hx', hlen'.trans hlen⟩

theorem isBanned_of_mem_getD {x i : ℕ} (hi : i < q.bannedTransactions.length)
    (hx : x ∈ q.bannedTransactions.getD i ∅) : q.isBanned x = true := by
  rw [List.getD_eq_getElem?_getD, List.getElem?_eq_getElem hi, Option.getD_some] at hx
  exact List.any_eq_true.mpr ⟨_, List.getElem_mem hi, decide_eq_true hx⟩

theorem canAdd_of_isBanned [NeZero L] (view : LedgerView A n) (h : q.isBanned tx.fullHash = true) :
    q.canAdd view tx = .ok (q, .ADD_STATUS_TRY_AGAIN_LATER, none, none, []) := by
  unfold canAdd
  simp [h]

/-- A transaction `ban` bans is refused, the queue left as it is, for as long as its hash is kept:
over the next ledgers closed, fewer than the sets of banned transactions, `canAdd` tells to try
again later. -/
theorem canAdd_ban_shift [NeZero L] {banTxs : List (TxFrame A)} {q₀ qₖ : TransactionQueue A L n} {k : ℕ}
    (hk : k < q.bannedTransactions.length) (hr : q.ban banTxs = .ok q₀)
    (hs : (List.replicate k ()).foldlM (fun w _ => w.shift) q₀ = .ok qₖ) (view : LedgerView A n)
    (htx : tx ∈ banTxs) :
    qₖ.canAdd view tx = .ok (qₖ, .ADD_STATUS_TRY_AGAIN_LATER, none, none, []) := by
  obtain ⟨hashes, hb₀⟩ := ban_bannedTransactions hr
  have hne : q.bannedTransactions ≠ [] := List.ne_nil_of_length_pos (by omega)
  have hlen₀ : q₀.bannedTransactions.length = q.bannedTransactions.length := by
    rw [hb₀, length_banHashes]
  -- the hash is in the newest set after `ban`, and `k` sets on after `k` ledgers
  have h₀ : tx.fullHash ∈ q₀.bannedTransactions.getD 0 ∅ := by
    rw [hb₀]
    exact getD_banHashes q _ hne _ (List.mem_append_left _ (List.mem_map_of_mem htx))
  obtain ⟨hₖ, hlenₖ⟩ := getD_bannedTransactions_shifts k hs (by omega) h₀
  rw [Nat.zero_add] at hₖ
  exact canAdd_of_isBanned view (isBanned_of_mem_getD (by omega) hₖ)

/-- The transaction a queue takes in and then bans is refused over the next two ledgers closed,
of the three that banned hashes are kept. -/
theorem canAdd_ban_shift_queued : ∃ q₁ q₀ q₂ : TransactionQueue ℕ 2 1,
    (TransactionQueue.create 2 3 TxQueueLimiter.sampleLimiterConfig 3 ∅).tryAdd sampleLedgerView
      (SurgePricingPriorityQueue.sampleTx 3 0 7) = .ok (q₁, .ADD_STATUS_PENDING, none) ∧
    q₁.queued = [SurgePricingPriorityQueue.sampleTx 3 0 7] ∧ 2 < q₁.bannedTransactions.length ∧
    q₁.ban [SurgePricingPriorityQueue.sampleTx 3 0 7] = .ok q₀ ∧
    (List.replicate 2 ()).foldlM (fun w _ => w.shift) q₀ = .ok q₂ ∧
    q₂.canAdd sampleLedgerView (SurgePricingPriorityQueue.sampleTx 3 0 7) =
      .ok (q₂, .ADD_STATUS_TRY_AGAIN_LATER, none, none, []) := by
  obtain ⟨q₁, q₀, q₂, h₁, h₂, hk, hr, hs⟩ : ∃ q₁ q₀ q₂ : TransactionQueue ℕ 2 1,
      (TransactionQueue.create 2 3 TxQueueLimiter.sampleLimiterConfig 3 ∅).tryAdd sampleLedgerView
        (SurgePricingPriorityQueue.sampleTx 3 0 7) = .ok (q₁, .ADD_STATUS_PENDING, none) ∧
      q₁.queued = [SurgePricingPriorityQueue.sampleTx 3 0 7] ∧ 2 < q₁.bannedTransactions.length ∧
      q₁.ban [SurgePricingPriorityQueue.sampleTx 3 0 7] = .ok q₀ ∧
      (List.replicate 2 ()).foldlM (fun w _ => w.shift) q₀ = .ok q₂ :=
    ⟨_, _, _, rfl, by decide, by decide, rfl, rfl⟩
  exact ⟨q₁, q₀, q₂, h₁, h₂, hk, hr, hs,
    canAdd_ban_shift hk hr hs sampleLedgerView (List.mem_singleton_self _)⟩

end Banning

end TransactionQueue

end HcnetCore.Herder
