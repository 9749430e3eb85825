import HcnetCore.Herder.TxQueueLimiter
import HcnetCore.Herder.SurgePricingQueue

/-! # What the limiter keeps

`Ok` is the limiter's invariant: its queue is well formed and of the lowest priority, and holds
exactly one stack for each transaction of `mStackForTx`, that transaction's own stack; the accounts
of `mEnforceSingleAccounts` are the source accounts of those transactions, one transaction each; the
transactions bid fees that are not negative, and so do the bids evicted from the lanes. Every
operation keeps it where it returns, so it holds of every limiter the operations reach from a
`reset`. On it, removing a transaction the limiter holds never fails, adding one fails only on a
taken account or a full lane count, and `canAddTx` admits a transaction only when its fee rate
beats every bid evicted from its lane and from the generic lane.
-/

namespace HcnetCore.Herder

set_option autoImplicit false

variable {A : Type} {L n : ℕ}

/-! ## What the limiter needs of the queue -/

namespace SurgePricingPriorityQueue

variable {q : SurgePricingPriorityQueue A L n}

theorem Wf.allStacks_nodup (hq : q.Wf) : q.allStacks.Nodup :=
  List.Nodup.of_map _ hq.rank_nodup

theorem Wf.erase_of_mem (hq : q.Wf) (hfee : q.FeeBidsNonneg) (hg : q.comparator.isGreater = false)
    {s : TxStack A n} (hs : s ∈ q.allStacks) : ∃ q', q.erase s = .ok q' ∧ q.Changes q' [s] [] := by
  obtain ⟨lane, hlane⟩ := mem_allStacks.mp hs
  obtain rfl : q.laneConfig.getLane s.top = lane := hq.getLane_top lane s hlane
  obtain ⟨i, hi⟩ := List.mem_iff_getElem?.mp hlane
  obtain ⟨q', heq, hc⟩ := hq.eraseAt hi
  have hret : SortedList.ReturnsWith q.comparator.compare q.comparator.precedes s
      (q.txStackSets (q.laneConfig.getLane s.top)) :=
    q.comparator.returnsWith_compare (hq.top_comparable hfee hs)
      fun y hy => hq.top_comparable hfee (mem_allStacks.mpr ⟨_, hy⟩)
  refine ⟨q', ?_, hc⟩
  rw [erase_eq_of_findByM (SortedList.findByM_eq_ok hret),
    SortedList.findBy_eq_some (hq.sorted _) (agreesWith_of_not_isGreater hg) hi rfl]
  exact heq

theorem Wf.setLaneLimits (hq : q.Wf) (limits : Fin L → Resource n) :
    ({ q with laneConfig := { q.laneConfig with getLaneLimits := limits } } : SurgePricingPriorityQueue A L n).Wf where
  sorted := hq.sorted
  getLane_top := hq.getLane_top
  stack_ok := hq.stack_ok
  addresses_nodup := hq.addresses_nodup
  count_eq := hq.count_eq

end SurgePricingPriorityQueue

/-! ## Stacks of one transaction -/

section SingleTxStack

variable (getResources : TxFrame A → Resource n) (tx : TxFrame A)

@[simp] theorem singleTxStack_top : (SingleTxStack getResources tx).top = tx := rfl

@[simp] theorem singleTxStack_txs : (SingleTxStack getResources tx).txs = [tx] := rfl

@[simp] theorem singleTxStack_getResources : (SingleTxStack getResources tx).getResources = getResources tx := rfl

theorem singleTxStack_injective : Function.Injective (SingleTxStack getResources) :=
  fun _ _ h => congrArg TxStack.top h

variable {getResources tx} in
theorem ok_singleTxStack (hops : 0 < tx.numOperations) (hres : 0 ≤ getResources tx) :
    (SingleTxStack getResources tx).Ok :=
  TxStack.ok_of_rest_eq_nil rfl hops hres

end SingleTxStack

/-! ## The fee that beats an evicted bid -/

theorem computeBetterFee_pos (tx : TxFrame A) {refFeeBid : ℤ} {refNbOps : ℕ} (hfee : 0 ≤ refFeeBid)
    (hops : 0 < refNbOps) : ∃ v, computeBetterFee tx refFeeBid refNbOps = .ok v ∧ 0 < v := by
  have hC : 0 < (refNbOps : ℤ).toNat := by simpa using hops
  have hassert : refFeeBid ≥ 0 ∧ (tx.numOperations : ℤ) ≥ 0 ∧ (refNbOps : ℤ) > 0 :=
    ⟨hfee, Int.natCast_nonneg _, Int.natCast_pos.mpr hops⟩
  simp only [computeBetterFee, Util.bigDivide, Util.releaseAssertOrThrow_of_true hassert,
    bigDivideUnsigned_eq hC, pure_bind]
  refine ⟨_, rfl, ?_⟩
  split
  · rename_i r hr
    -- what bigDivide returns is a remainder modulo 2^64, so it is not negative
    have hr0 : 0 ≤ r := by
      simp only [Option.ite_none_right_eq_some, Option.some.injEq] at hr
      omega
    split
    · omega
    · simp [INT64_MAX]
  · simp [INT64_MAX]

/-! ## The invariant -/

namespace TxQueueLimiter

variable [DecidableEq A] {l : TxQueueLimiter A L n}

variable (l) in
/-- The stack the limiter makes for a transaction. -/
def stackOf (tx : TxFrame A) : TxStack A n := SingleTxStack l.txs.laneConfig.getTxResources tx

@[simp] theorem stackOf_top (tx : TxFrame A) : (l.stackOf tx).top = tx := rfl

@[simp] theorem stackOf_getResources (tx : TxFrame A) :
    (l.stackOf tx).getResources = l.txs.laneConfig.getTxResources tx := rfl

variable (l) in
/-- What the limiter keeps: a well-formed lowest-priority queue holding exactly the stacks of the
transactions of `mStackForTx`, each found there; the accounts of `mEnforceSingleAccounts` are
their source accounts, one transaction each; fee bids, and the bids evicted from the lanes, are
not negative. -/
structure Ok : Prop where
  wf : l.txs.Wf
  isGreater : l.txs.comparator.isGreater = false
  mem_allStacks : ∀ s, s ∈ l.txs.allStacks ↔ ∃ tx ∈ l.stackForTx, s = l.stackOf tx
  lookup_eq : ∀ tx ∈ l.stackForTx, l.stackForTx.lookup tx = some (l.stackOf tx)
  accounts_eq : l.enforceSingleAccounts = (l.stackForTx.keys.map TxFrame.sourceID).toFinset
  sources_nodup : (l.stackForTx.keys.map TxFrame.sourceID).Nodup
  fee_nonneg : ∀ tx ∈ l.stackForTx, 0 ≤ tx.inclusionFee
  evicted_nonneg : ∀ lane, 0 ≤ (l.laneEvictedInclusionFee lane).1

theorem ok_reset [NeZero L] (laneConfig : SurgePricingLaneConfig A L n) (seed : ℕ) :
    (TxQueueLimiter.reset laneConfig seed).Ok where
  wf := SurgePricingPriorityQueue.wf_create false laneConfig seed
  isGreater := rfl
  mem_allStacks s := by
    simp [TxQueueLimiter.reset, SurgePricingPriorityQueue.allStacks_create]
  lookup_eq tx htx := by simp [TxQueueLimiter.reset] at htx
  accounts_eq := by simp [TxQueueLimiter.reset]
  sources_nodup := by simp [TxQueueLimiter.reset]
  fee_nonneg tx htx := by simp [TxQueueLimiter.reset] at htx
  evicted_nonneg _ := le_rfl

theorem Ok.resetEvictionState (h : l.Ok) : l.resetEvictionState.Ok :=
  { h with evicted_nonneg := fun _ => le_rfl }

theorem Ok.sourceID_mem (h : l.Ok) {tx : TxFrame A} (htx : tx ∈ l.stackForTx) :
    tx.sourceID ∈ l.enforceSingleAccounts := by
  rw [h.accounts_eq, List.mem_toFinset]
  exact List.mem_map_of_mem (AList.mem_keys.mp htx)

theorem Ok.mem_allTxs (h : l.Ok) {tx : TxFrame A} (htx : tx ∈ l.stackForTx) : tx ∈ l.txs.allTxs :=
  SurgePricingPriorityQueue.top_mem_allTxs ((h.mem_allStacks _).mpr ⟨tx, htx, rfl⟩)

theorem Ok.mem_stackForTx_of_mem_allTxs (h : l.Ok) {tx : TxFrame A} (htx : tx ∈ l.txs.allTxs) :
    tx ∈ l.stackForTx := by
  obtain ⟨s, hs, hts⟩ := List.mem_flatMap.mp htx
  obtain ⟨t, ht, rfl⟩ := (h.mem_allStacks s).mp hs
  rw [stackOf, singleTxStack_txs, List.mem_singleton] at hts
  exact hts ▸ ht

theorem Ok.feeBidsNonneg (h : l.Ok) : l.txs.FeeBidsNonneg := by
  intro s hs
  obtain ⟨tx, htx, rfl⟩ := (h.mem_allStacks s).mp hs
  intro t ht
  rw [stackOf, singleTxStack_txs, List.mem_singleton] at ht
  rw [ht]
  exact h.fee_nonneg tx htx

theorem Ok.erase (h : l.Ok) {tx : TxFrame A} (htx : tx ∈ l.stackForTx) {l' : TxQueueLimiter A L n}
    (hc : l.txs.Changes l'.txs [l.stackOf tx] []) (hmap : l'.stackForTx = l.stackForTx.erase tx)
    (hacc : l'.enforceSingleAccounts = l.enforceSingleAccounts.erase tx.sourceID)
    (hbids : l'.laneEvictedInclusionFee = l.laneEvictedInclusionFee) : l'.Ok := by
  have hstack : l'.stackOf = l.stackOf := by
    funext t
    simp only [stackOf, hc.laneConfig]
  have hperm : (l.stackOf tx :: l'.txs.allStacks).Perm l.txs.allStacks := by simpa using hc.perm
  have hnd : (l.stackOf tx :: l'.txs.allStacks).Nodup := hperm.nodup_iff.mpr h.wf.allStacks_nodup
  have hkeys := AList.keys_nodup l.stackForTx
  refine ⟨hc.wf, hc.comparator ▸ h.isGreater, fun s => ?_, fun t ht => ?_, ?_, ?_, fun t ht => ?_,
    hbids ▸ h.evicted_nonneg⟩
  · rw [hstack, hmap]
    constructor
    · intro hs
      obtain ⟨t, ht, rfl⟩ := (h.mem_allStacks s).mp (hperm.subset (List.mem_cons_of_mem _ hs))
      have hne : t ≠ tx := fun heq => (List.nodup_cons.mp hnd).1 (heq ▸ hs)
      exact ⟨t, AList.mem_erase.mpr ⟨hne, ht⟩, rfl⟩
    · rintro ⟨t, ht, rfl⟩
      obtain ⟨hne, ht⟩ := AList.mem_erase.mp ht
      rcases List.mem_cons.mp (hperm.symm.subset ((h.mem_allStacks _).mpr ⟨t, ht, rfl⟩)) with heq | hmem
      · exact absurd (singleTxStack_injective _ heq) hne
      · exact hmem
  · rw [hmap] at ht ⊢
    obtain ⟨hne, ht⟩ := AList.mem_erase.mp ht
    rw [AList.lookup_erase_ne hne, h.lookup_eq t ht, hstack]
  · -- the freed account was that of no other transaction
    rw [hacc, hmap, AList.keys_erase, h.accounts_eq]
    ext a
    simp only [Finset.mem_erase, List.mem_toFinset, List.mem_map]
    constructor
    · rintro ⟨hne, t, ht, rfl⟩
      exact ⟨t, (List.Nodup.mem_erase_iff hkeys).mpr ⟨fun heq => hne (heq ▸ rfl), ht⟩, rfl⟩
    · rintro ⟨t, ht, rfl⟩
      obtain ⟨hne, ht⟩ := (List.Nodup.mem_erase_iff hkeys).mp ht
      exact ⟨fun heq => hne (List.inj_on_of_nodup_map h.sources_nodup ht (AList.mem_keys.mp htx) heq), t, ht, rfl⟩
  · rw [hmap, AList.keys_erase]
    exact List.Nodup.sublist (List.erase_sublist.map _) h.sources_nodup
  · rw [hmap] at ht
    exact h.fee_nonneg t (AList.mem_erase.mp ht).2

theorem Ok.insert (h : l.Ok) {tx : TxFrame A} (hnot : tx ∉ l.stackForTx)
    (hsrc : tx.sourceID ∉ l.enforceSingleAccounts) (hfee : 0 ≤ tx.inclusionFee) {l' : TxQueueLimiter A L n}
    (hc : l.txs.Changes l'.txs [] [l.stackOf tx]) (hmap : l'.stackForTx = l.stackForTx.insert tx (l.stackOf tx))
    (hacc : l'.enforceSingleAccounts = insert tx.sourceID l.enforceSingleAccounts)
    (hbids : l'.laneEvictedInclusionFee = l.laneEvictedInclusionFee) : l'.Ok := by
  have hstack : l'.stackOf = l.stackOf := by
    funext t
    simp only [stackOf, hc.laneConfig]
  have hperm : l'.txs.allStacks.Perm (l.stackOf tx :: l.txs.allStacks) := by simpa using hc.perm
  have hkeys : l.stackForTx.keys.erase tx = l.stackForTx.keys :=
    List.erase_of_not_mem (fun h' => hnot (AList.mem_keys.mpr h'))
  refine ⟨hc.wf, hc.comparator ▸ h.isGreater, fun s => ?_, fun t ht => ?_, ?_, ?_, fun t ht => ?_,
    hbids ▸ h.evicted_nonneg⟩
  · rw [hstack, hmap, hperm.mem_iff, List.mem_cons, h.mem_allStacks]
    constructor
    · rintro (rfl | ⟨t, ht, rfl⟩)
      · exact ⟨tx, (AList.mem_insert _).mpr (.inl rfl), rfl⟩
      · exact ⟨t, (AList.mem_insert _).mpr (.inr ht), rfl⟩
    · rintro ⟨t, ht, rfl⟩
      rcases (AList.mem_insert _).mp ht with rfl | ht
      · exact .inl rfl
      · exact .inr ⟨t, ht, rfl⟩
  · rw [hmap] at ht ⊢
    rw [hstack]
    by_cases heq : t = tx
    · subst heq
      exact AList.lookup_insert _
    · rw [AList.lookup_insert_ne heq]
      exact h.lookup_eq t (((AList.mem_insert _).mp ht).resolve_left heq)
  · rw [hacc, hmap, AList.keys_insert, hkeys, List.map_cons, List.toFinset_cons, h.accounts_eq]
  · rw [hmap, AList.keys_insert, hkeys, List.map_cons]
    refine List.nodup_cons.mpr ⟨fun hmem => hsrc ?_, h.sources_nodup⟩
    rw [h.accounts_eq]
    exact List.mem_toFinset.mpr hmem
  · rw [hmap] at ht
    rcases (AList.mem_insert _).mp ht with rfl | ht
    · exact hfee
    · exact h.fee_nonneg t ht

/-! ## What each operation does -/

theorem removeTransaction_cases {tx : TxFrame A} {l' : TxQueueLimiter A L n} (hr : l.removeTransaction tx = .ok l') :
    ∃ txStack txs, l.stackForTx.lookup tx = some txStack ∧ l.txs.erase txStack = .ok txs ∧
      tx.sourceID ∈ l.enforceSingleAccounts ∧
      l' = { l with
        txs := txs
        stackForTx := l.stackForTx.erase tx
        enforceSingleAccounts := l.enforceSingleAccounts.erase tx.sourceID } := by
  unfold TxQueueLimiter.removeTransaction at hr
  split at hr
  · exact absurd hr Except.throw_ne_ok
  · rename_i txStack hlookup
    obtain ⟨txs, herase, hr⟩ := Except.bind_eq_ok.mp hr
    split at hr
    · exact ⟨txStack, txs, hlookup, herase, ‹_›, (Except.pure_eq_ok.mp hr).symm⟩
    · exact absurd hr Except.throw_ne_ok

theorem addTransaction_cases {tx : TxFrame A} {l' : TxQueueLimiter A L n} (hr : l.addTransaction tx = .ok l') :
    tx.sourceID ∉ l.enforceSingleAccounts ∧ ∃ txs, l.txs.add (l.stackOf tx) = .ok txs ∧
      l' = { l with
        enforceSingleAccounts := insert tx.sourceID l.enforceSingleAccounts
        stackForTx := l.stackForTx.insert tx (l.stackOf tx)
        txs := txs } := by
  unfold TxQueueLimiter.addTransaction at hr
  split at hr
  · exact absurd hr Except.throw_ne_ok
  · rename_i hsrc
    obtain ⟨txs, hadd, hr⟩ := Except.bind_eq_ok.mp hr
    exact ⟨hsrc, txs, hadd, (Except.pure_eq_ok.mp hr).symm⟩

theorem Ok.fresh_stackOf (h : l.Ok) {tx : TxFrame A} (hfresh : tx.address ∉ l.txs.allTxs.map TxFrame.address) :
    (((l.stackOf tx).txs ++ l.txs.allTxs).map TxFrame.address).Nodup := by
  simp only [stackOf, singleTxStack_txs, List.singleton_append, List.map_cons]
  exact List.nodup_cons.mpr ⟨hfresh, h.wf.addresses_nodup⟩

theorem Ok.addTransaction (h : l.Ok) {tx : TxFrame A} (hops : 0 < tx.numOperations)
    (hres : 0 ≤ l.txs.laneConfig.getTxResources tx) (hfee : 0 ≤ tx.inclusionFee)
    (hfresh : tx.address ∉ l.txs.allTxs.map TxFrame.address) {l' : TxQueueLimiter A L n}
    (hr : l.addTransaction tx = .ok l') : l'.Ok := by
  obtain ⟨hsrc, txs, hadd, rfl⟩ := addTransaction_cases hr
  have hc := h.wf.add (ok_singleTxStack hops hres) (h.fresh_stackOf hfresh) hadd
  have hnot : tx ∉ l.stackForTx := fun htx => hfresh (List.mem_map_of_mem (h.mem_allTxs htx))
  exact h.insert hnot hsrc hfee hc rfl rfl rfl

theorem Ok.addresses_addTransaction (h : l.Ok) {tx : TxFrame A} (hops : 0 < tx.numOperations)
    (hres : 0 ≤ l.txs.laneConfig.getTxResources tx) (hfresh : tx.address ∉ l.txs.allTxs.map TxFrame.address)
    {l' : TxQueueLimiter A L n} (hr : l.addTransaction tx = .ok l') :
    (l'.txs.allTxs.map TxFrame.address).Perm (tx.address :: l.txs.allTxs.map TxFrame.address) := by
  obtain ⟨-, txs, hadd, rfl⟩ := addTransaction_cases hr
  have hc := h.wf.add (ok_singleTxStack hops hres) (h.fresh_stackOf hfresh) hadd
  simpa using (SurgePricingPriorityQueue.allTxs_perm hc.perm).map TxFrame.address

theorem Ok.removeTransaction (h : l.Ok) {tx : TxFrame A} {l' : TxQueueLimiter A L n}
    (hr : l.removeTransaction tx = .ok l') : l'.Ok := by
  obtain ⟨txStack, txs, hlookup, herase, -, rfl⟩ := removeTransaction_cases hr
  have htx : tx ∈ l.stackForTx := AList.lookup_isSome.mp (by simp [hlookup])
  obtain rfl : txStack = l.stackOf tx := Option.some.inj (hlookup.symm.trans (h.lookup_eq tx htx))
  obtain ⟨q', heq, hc⟩ := h.wf.erase_of_mem h.feeBidsNonneg h.isGreater ((h.mem_allStacks _).mpr ⟨tx, htx, rfl⟩)
  obtain rfl : txs = q' := Except.ok.inj (herase.symm.trans heq)
  exact h.erase htx hc rfl rfl rfl

/-- Removing a transaction the limiter holds never throws: its stack leaves the queue, and it
leaves `mStackForTx` and its account `mEnforceSingleAccounts`, the limiter keeping its
invariant. -/
theorem removeTransaction_spec (h : l.Ok) {tx : TxFrame A} (htx : tx ∈ l.stackForTx) :
    ∃ l', l.removeTransaction tx = .ok l' ∧ l'.Ok ∧ l.txs.Changes l'.txs [l.stackOf tx] [] ∧
      l'.stackForTx = l.stackForTx.erase tx ∧
      l'.enforceSingleAccounts = l.enforceSingleAccounts.erase tx.sourceID := by
  obtain ⟨q', heq, hc⟩ := h.wf.erase_of_mem h.feeBidsNonneg h.isGreater ((h.mem_allStacks _).mpr ⟨tx, htx, rfl⟩)
  have hr : l.removeTransaction tx = .ok { l with
      txs := q'
      stackForTx := l.stackForTx.erase tx
      enforceSingleAccounts := l.enforceSingleAccounts.erase tx.sourceID } := by
    simp only [TxQueueLimiter.removeTransaction, h.lookup_eq tx htx, heq, Except.ok_bind,
      if_pos (h.sourceID_mem htx)]
    rfl
  exact ⟨_, hr, h.erase htx hc rfl rfl rfl, hc, rfl, rfl⟩

/-- Two lanes, lane 0 for the transactions of account 0, each holding ten units of resources. -/
def sampleLimiterConfig : SurgePricingLaneConfig ℕ 2 1 :=
  { SurgePricingPriorityQueue.sampleLaneConfig with getLaneLimits := fun _ _ => 10 }

theorem addTransaction_sampleTx_reset {l : TxQueueLimiter ℕ 2 1}
    (h : (TxQueueLimiter.reset sampleLimiterConfig 3).addTransaction (SurgePricingPriorityQueue.sampleTx 3 1 7) = .ok l) :
    l.Ok ∧ (SurgePricingPriorityQueue.sampleTx 5 2 8).address ∉ l.txs.allTxs.map TxFrame.address ∧
      l.txs.laneConfig = sampleLimiterConfig := by
  have hfresh : (SurgePricingPriorityQueue.sampleTx 3 1 7).address ∉
      (TxQueueLimiter.reset (A := ℕ) (L := 2) (n := 1) sampleLimiterConfig 3).txs.allTxs.map TxFrame.address := by
    simp [TxQueueLimiter.reset, SurgePricingPriorityQueue.allTxs, SurgePricingPriorityQueue.allStacks_create]
  have hok := (ok_reset sampleLimiterConfig 3).addTransaction (by decide) (fun _ => zero_le_one) (by decide) hfresh h
  have haddr := (ok_reset sampleLimiterConfig 3).addresses_addTransaction (by decide) (fun _ => zero_le_one) hfresh h
  refine ⟨hok, fun hmem => ?_, ?_⟩
  · have hmem' := haddr.subset hmem
    simp [TxQueueLimiter.reset, SurgePricingPriorityQueue.allTxs, SurgePricingPriorityQueue.allStacks_create,
      SurgePricingPriorityQueue.sampleTx] at hmem'
  · obtain ⟨-, txs, hadd, rfl⟩ := addTransaction_cases h
    exact (SurgePricingPriorityQueue.Wf.add (SurgePricingPriorityQueue.wf_create _ _ _)
      (ok_singleTxStack (by decide) (fun _ => zero_le_one)) (by
        simp [TxQueueLimiter.reset, SurgePricingPriorityQueue.allTxs, SurgePricingPriorityQueue.allStacks_create,
          SingleTxStack, TxStack.txs]) hadd).laneConfig

/-- Removing the second of two transactions of lane 1, added after a reset: `erase` compares its
stack with the first one's. -/
theorem removeTransaction_spec_second : ∃ (l : TxQueueLimiter ℕ 2 1) (tx : TxFrame ℕ),
    tx = SurgePricingPriorityQueue.sampleTx 5 2 8 ∧
    ((TxQueueLimiter.reset sampleLimiterConfig 3).addTransaction (SurgePricingPriorityQueue.sampleTx 3 1 7) >>= fun l =>
      l.addTransaction tx) = .ok l ∧
    l.Ok ∧ tx ∈ l.stackForTx ∧
    ∃ l', l.removeTransaction tx = .ok l' ∧ l'.Ok ∧ l.txs.Changes l'.txs [l.stackOf tx] [] ∧
      l'.stackForTx = l.stackForTx.erase tx ∧
      l'.enforceSingleAccounts = l.enforceSingleAccounts.erase tx.sourceID := by
  obtain ⟨l, h⟩ : ∃ l : TxQueueLimiter ℕ 2 1,
      ((TxQueueLimiter.reset sampleLimiterConfig 3).addTransaction (SurgePricingPriorityQueue.sampleTx 3 1 7) >>= fun l =>
        l.addTransaction (SurgePricingPriorityQueue.sampleTx 5 2 8)) = .ok l := ⟨_, rfl⟩
  obtain ⟨l₁, h₁, h₂⟩ := Except.bind_eq_ok.mp h
  obtain ⟨hl₁, hfresh, hcfg⟩ := addTransaction_sampleTx_reset h₁
  have hl : l.Ok := hl₁.addTransaction (by decide) (by rw [hcfg]; exact fun _ => zero_le_one) (by decide) hfresh h₂
  have htx : SurgePricingPriorityQueue.sampleTx 5 2 8 ∈ l.stackForTx := by
    obtain ⟨-, txs, -, rfl⟩ := addTransaction_cases h₂
    exact (AList.mem_insert _).mpr (.inl rfl)
  exact ⟨l, _, rfl, h, hl, htx, removeTransaction_spec hl htx⟩

/-- `addTransaction` of a transaction with operations, resources and a fee bid that are not
negative, at an address the queue does not hold: it throws when the transaction's account already
has one; otherwise it puts the transaction's stack into the queue, `mStackForTx` and its
account into `mEnforceSingleAccounts`, keeping the invariant, when its lane's count stays within
`INT64_MAX`, and fails the assertion of `canAdd` when it does not. -/
theorem addTransaction_spec (h : l.Ok) {tx : TxFrame A} (hops : 0 < tx.numOperations)
    (hres : 0 ≤ l.txs.laneConfig.getTxResources tx) (hfee : 0 ≤ tx.inclusionFee)
    (hfresh : tx.address ∉ l.txs.allTxs.map TxFrame.address) :
    (tx.sourceID ∈ l.enforceSingleAccounts →
      l.addTransaction tx = .error "invalid state (duplicate account) while adding tx in TxQueueLimiter") ∧
    (tx.sourceID ∉ l.enforceSingleAccounts →
      l.txs.laneCurrentCount (l.txs.laneConfig.getLane tx) + l.txs.laneConfig.getTxResources tx ≤
        (fun _ => INT64_MAX) →
      ∃ l', l.addTransaction tx = .ok l' ∧ l'.Ok ∧ l.txs.Changes l'.txs [] [l.stackOf tx] ∧
        l'.stackForTx = l.stackForTx.insert tx (l.stackOf tx)) ∧
    (tx.sourceID ∉ l.enforceSingleAccounts →
      ¬ l.txs.laneCurrentCount (l.txs.laneConfig.getLane tx) + l.txs.laneConfig.getTxResources tx ≤
        (fun _ => INT64_MAX) →
      l.addTransaction tx = .error "canAdd(other)") := by
  have hs : (l.stackOf tx).Ok := ok_singleTxStack hops hres
  have hsfee : (l.stackOf tx).FeeBidsNonneg := by
    intro t ht
    rw [stackOf, singleTxStack_txs, List.mem_singleton] at ht
    rw [ht]
    exact hfee
  have hadd := h.wf.add_eq h.feeBidsNonneg hs hsfee (h.fresh_stackOf hfresh)
  simp only [stackOf_top, stackOf_getResources] at hadd
  refine ⟨fun hsrc => ?_, fun hsrc hle => ?_, fun hsrc hgt => ?_⟩
  · simp only [TxQueueLimiter.addTransaction, if_pos hsrc]
    rfl
  · rw [Resource.add_eq_ok hle, Except.ok_bind] at hadd
    obtain ⟨txs, hadd⟩ : ∃ txs, l.txs.add (l.stackOf tx) = .ok txs := ⟨_, hadd⟩
    have hr : l.addTransaction tx = .ok { l with
        enforceSingleAccounts := insert tx.sourceID l.enforceSingleAccounts
        stackForTx := l.stackForTx.insert tx (l.stackOf tx)
        txs := txs } := by
      simp only [TxQueueLimiter.addTransaction, if_neg hsrc]
      rw [show SingleTxStack l.txs.laneConfig.getTxResources tx = l.stackOf tx from rfl, hadd]
      rfl
    exact ⟨_, hr, h.addTransaction hops hres hfee hfresh hr, h.wf.add hs (h.fresh_stackOf hfresh) hadd, rfl⟩
  · have herr : l.txs.add (l.stackOf tx) = .error "canAdd(other)" :=
      h.wf.add_eq_error h.feeBidsNonneg hs hsfee (h.fresh_stackOf hfresh) hgt
    simp only [TxQueueLimiter.addTransaction, if_neg hsrc]
    rw [show SingleTxStack l.txs.laneConfig.getTxResources tx = l.stackOf tx from rfl, herr]
    rfl

/-- Adding a second transaction to lane 1 after a reset: `add` compares its stack with the first
one's. -/
theorem addTransaction_spec_second : ∃ (l : TxQueueLimiter ℕ 2 1) (tx : TxFrame ℕ),
    (TxQueueLimiter.reset sampleLimiterConfig 3).addTransaction (SurgePricingPriorityQueue.sampleTx 3 1 7) = .ok l ∧
    tx = SurgePricingPriorityQueue.sampleTx 5 2 8 ∧
    l.txs.laneConfig.getLane tx = l.txs.laneConfig.getLane (SurgePricingPriorityQueue.sampleTx 3 1 7) ∧
    l.Ok ∧ 0 < tx.numOperations ∧ 0 ≤ l.txs.laneConfig.getTxResources tx ∧ 0 ≤ tx.inclusionFee ∧
    tx.address ∉ l.txs.allTxs.map TxFrame.address ∧
    (tx.sourceID ∈ l.enforceSingleAccounts →
      l.addTransaction tx = .error "invalid state (duplicate account) while adding tx in TxQueueLimiter") ∧
    (tx.sourceID ∉ l.enforceSingleAccounts →
      l.txs.laneCurrentCount (l.txs.laneConfig.getLane tx) + l.txs.laneConfig.getTxResources tx ≤
        (fun _ => INT64_MAX) →
      ∃ l', l.addTransaction tx = .ok l' ∧ l'.Ok ∧ l.txs.Changes l'.txs [] [l.stackOf tx] ∧
        l'.stackForTx = l.stackForTx.insert tx (l.stackOf tx)) ∧
    (tx.sourceID ∉ l.enforceSingleAccounts →
      ¬ l.txs.laneCurrentCount (l.txs.laneConfig.getLane tx) + l.txs.laneConfig.getTxResources tx ≤
        (fun _ => INT64_MAX) →
      l.addTransaction tx = .error "canAdd(other)") := by
  obtain ⟨l, h⟩ : ∃ l : TxQueueLimiter ℕ 2 1,
      (TxQueueLimiter.reset sampleLimiterConfig 3).addTransaction (SurgePricingPriorityQueue.sampleTx 3 1 7) = .ok l :=
    ⟨_, rfl⟩
  obtain ⟨hl, hfresh, hcfg⟩ := addTransaction_sampleTx_reset h
  have hres : 0 ≤ l.txs.laneConfig.getTxResources (SurgePricingPriorityQueue.sampleTx 5 2 8) := by
    rw [hcfg]
    exact fun _ => zero_le_one
  exact ⟨l, _, h, rfl, by rw [hcfg]; rfl, hl, by decide, hres, by decide, hfresh,
    addTransaction_spec hl (by decide) hres (by decide) hfresh⟩

omit [DecidableEq A] in
theorem computeBetterFee_nonpos {bid : ℤ × ℕ} {tx : TxFrame A} {v : ℤ} (hbid : 0 ≤ bid.1)
    (h : computeBetterFee bid tx = .ok v) (hv : v ≤ 0) :
    bid.2 = 0 ∨ feeRate3WayCompare bid.1 bid.2 tx.inclusionFee tx.numOperations = .ok .lt := by
  unfold TxQueueLimiter.computeBetterFee at h
  split at h
  case isTrue hne =>
    obtain ⟨cmp, hcmp, h⟩ := Except.bind_eq_ok.mp h
    split at h
    case isTrue =>
      -- a bid the new transaction does not beat asks for a positive fee
      obtain ⟨w, hw, hpos⟩ := computeBetterFee_pos tx hbid (Nat.pos_of_ne_zero hne)
      rw [hw] at h
      cases h
      omega
    case isFalse hlt =>
      rw [not_not] at hlt
      exact .inr (hlt ▸ hcmp)
  case isFalse hzero => exact .inl (not_not.mp hzero)

theorem mem_of_removeTransaction {tx : TxFrame A} {l' : TxQueueLimiter A L n}
    (hr : l.removeTransaction tx = .ok l') : tx ∈ l.stackForTx := by
  obtain ⟨txStack, -, hlookup, -⟩ := removeTransaction_cases hr
  exact AList.lookup_isSome.mp (by simp [hlookup])

theorem Ok.setEvicted (h : l.Ok) (lane : Fin L) {bid : ℤ × ℕ} (hbid : 0 ≤ bid.1) :
    ({ l with laneEvictedInclusionFee := Function.update l.laneEvictedInclusionFee lane bid } :
      TxQueueLimiter A L n).Ok :=
  { h with
    evicted_nonneg := fun lane' => by
      by_cases hl : lane' = lane
      · subst hl
        simpa using hbid
      · simpa [Function.update_of_ne hl] using h.evicted_nonneg lane' }

section Lanes

variable [NeZero L]

theorem canAddTx_cases {newTx : TxFrame A} {oldTx : Option (TxFrame A)} {txsToEvict : List (TxStack A n × Bool)}
    {maxScaledLedgerResources : Resource n} {l' : TxQueueLimiter A L n} {res : Bool × ℤ}
    {evs : List (TxStack A n × Bool)}
    (hr : l.canAddTx newTx oldTx txsToEvict maxScaledLedgerResources = .ok (l', res, evs)) :
    ∃ laneFee genericFee,
      computeBetterFee (l.laneEvictedInclusionFee (l.txs.laneConfig.getLane newTx)) newTx = .ok laneFee ∧
      computeBetterFee (l.laneEvictedInclusionFee GENERIC_LANE) newTx = .ok genericFee ∧
      (0 < max laneFee genericFee ∧ l' = l ∧
          res = (false, max laneFee genericFee + (newTx.fullFee - newTx.inclusionFee)) ∧ evs = txsToEvict ∨
        max laneFee genericFee ≤ 0 ∧
          l' = { l with txs := { l.txs with
            laneConfig := l.txs.laneConfig.updateGenericLaneLimit maxScaledLedgerResources } } ∧
          l'.txs.canFitWithEviction newTx (oldTx.map l.txs.laneConfig.getTxResources) txsToEvict =
            .ok (res, evs)) := by
  unfold TxQueueLimiter.canAddTx at hr
  obtain ⟨laneFee, hlane, hr⟩ := Except.bind_eq_ok.mp hr
  obtain ⟨genericFee, hgeneric, hr⟩ := Except.bind_eq_ok.mp hr
  refine ⟨laneFee, genericFee, hlane, hgeneric, ?_⟩
  dsimp only at hr
  split at hr
  case isTrue hpos =>
    simp only [Except.pure_eq_ok, Prod.mk.injEq] at hr
    exact .inl ⟨hpos, hr.1.symm, hr.2.1.symm, hr.2.2.symm⟩
  case isFalse hle =>
    obtain ⟨⟨res', evs'⟩, hfit, hr⟩ := Except.bind_eq_ok.mp hr
    simp only [Except.pure_eq_ok, Prod.mk.injEq] at hr
    obtain ⟨rfl, rfl, rfl⟩ := hr
    exact .inr ⟨not_lt.mp hle, rfl, hfit⟩

theorem Ok.updateGenericLaneLimit (h : l.Ok) (limit : Resource n) :
    ({ l with txs := { l.txs with laneConfig := l.txs.laneConfig.updateGenericLaneLimit limit } } :
      TxQueueLimiter A L n).Ok :=
  { h with wf := h.wf.setLaneLimits _ }

theorem Ok.canAddTx (h : l.Ok) {newTx : TxFrame A} {oldTx : Option (TxFrame A)}
    {txsToEvict : List (TxStack A n × Bool)} {maxScaledLedgerResources : Resource n}
    {l' : TxQueueLimiter A L n} {r : (Bool × ℤ) × List (TxStack A n × Bool)}
    (hr : l.canAddTx newTx oldTx txsToEvict maxScaledLedgerResources = .ok (l', r)) : l'.Ok := by
  obtain ⟨_, _, -, -, ⟨-, rfl, -⟩ | ⟨-, rfl, -⟩⟩ := canAddTx_cases hr
  · exact h
  · exact h.updateGenericLaneLimit _

/-- `canAddTx` admits a transaction only when its fee rate beats the rate of each bid evicted
from its lane and from the generic lane: a transaction never takes the place of evicted ones that
bid as much for each operation. -/
theorem canAddTx_beats_evicted (hbids : ∀ lane, 0 ≤ (l.laneEvictedInclusionFee lane).1) {newTx : TxFrame A}
    (hops : 0 < newTx.numOperations) {oldTx : Option (TxFrame A)} {txsToEvict : List (TxStack A n × Bool)}
    {maxScaledLedgerResources : Resource n} {l' : TxQueueLimiter A L n} {fee : ℤ}
    {evs : List (TxStack A n × Bool)}
    (hr : l.canAddTx newTx oldTx txsToEvict maxScaledLedgerResources = .ok (l', (true, fee), evs)) :
    ∀ lane ∈ [l.txs.laneConfig.getLane newTx, GENERIC_LANE], (l.laneEvictedInclusionFee lane).2 ≠ 0 →
      ((l.laneEvictedInclusionFee lane).1 : ℚ) / (l.laneEvictedInclusionFee lane).2 <
        TxStackComparator.feeRate newTx := by
  obtain ⟨laneFee, genericFee, hlane, hgeneric, ⟨-, -, hres, -⟩ | ⟨hle, -, -⟩⟩ := canAddTx_cases hr
  · simp at hres
  -- neither fee asked for is positive, so neither bid needed beating
  have hfees : ∀ lane ∈ [l.txs.laneConfig.getLane newTx, GENERIC_LANE],
      ∃ v, computeBetterFee (l.laneEvictedInclusionFee lane) newTx = .ok v ∧ v ≤ 0 := by
    intro lane hmem
    rcases List.mem_pair.mp hmem with rfl | rfl
    · exact ⟨laneFee, hlane, (le_max_left _ _).trans hle⟩
    · exact ⟨genericFee, hgeneric, (le_max_right _ _).trans hle⟩
  intro lane hmem hne
  obtain ⟨v, hv, hv0⟩ := hfees lane hmem
  have hlt := (computeBetterFee_nonpos (hbids lane) hv hv0).resolve_left hne
  -- the comparison returned, so both bids are non-negative and compare as the fee rates
  obtain ⟨hbid, hnew, hcmp⟩ := feeRate3WayCompare_eq_ok_iff.mp hlt
  rw [compare_mul_eq_compare_div hbid hnew (Nat.pos_of_ne_zero hne) hops] at hcmp
  exact compare_lt_iff_lt.mp hcmp.symm

/-- A transaction of rate 3 asked about after a bid of rate 1 was evicted from every lane. -/
theorem canAddTx_beats_evicted_reset : ∃ (l : TxQueueLimiter ℕ 2 1) (newTx : TxFrame ℕ),
    l = { TxQueueLimiter.reset ⟨fun tx => if tx.sourceID = 0 then 0 else 1, fun _ _ => 10, fun _ _ => 1⟩ 3 with
      laneEvictedInclusionFee := fun _ => (1, 1) } ∧
    newTx = ⟨3, 3, 1, 0, 7, 0, 1, none, 0, 0, .ENVELOPE_TYPE_TX, 7, 0, [], true⟩ ∧ (∀ lane, 0 ≤ (l.laneEvictedInclusionFee lane).1) ∧ 0 < newTx.numOperations ∧
    ∃ (l' : TxQueueLimiter ℕ 2 1) (fee : ℤ) (evs : List (TxStack ℕ 1 × Bool)),
      l.canAddTx newTx none [] (fun _ => 10) = .ok (l', (true, fee), evs) ∧
      ∀ lane ∈ [l.txs.laneConfig.getLane newTx, GENERIC_LANE], (l.laneEvictedInclusionFee lane).2 ≠ 0 →
        ((l.laneEvictedInclusionFee lane).1 : ℚ) / (l.laneEvictedInclusionFee lane).2 <
          TxStackComparator.feeRate newTx := by
  obtain ⟨l', fee, evs, hr⟩ : ∃ (l' : TxQueueLimiter ℕ 2 1) (fee : ℤ) (evs : List (TxStack ℕ 1 × Bool)),
      ({ TxQueueLimiter.reset ⟨fun tx => if tx.sourceID = 0 then 0 else 1, fun _ _ => 10, fun _ _ => 1⟩ 3 with
        laneEvictedInclusionFee := fun _ => (1, 1) } : TxQueueLimiter ℕ 2 1).canAddTx
        ⟨3, 3, 1, 0, 7, 0, 1, none, 0, 0, .ENVELOPE_TYPE_TX, 7, 0, [], true⟩ none [] (fun _ => 10) = .ok (l', (true, fee), evs) := ⟨_, _, _, rfl⟩
  exact ⟨_, _, rfl, rfl, fun _ => zero_le_one, by decide, l', fee, evs, hr,
    canAddTx_beats_evicted (fun _ => zero_le_one) (by decide) hr⟩
section Eviction

variable {σ : Type} {limiter : σ → TxQueueLimiter A L n} {setLimiter : σ → TxQueueLimiter A L n → σ}
  {evict : TxFrame A → σ → Except String σ} {resourcesToFit : Resource n} {txToFitLane : Fin L}
  {maxLimits : Resource n}

theorem evictLoop_induction (P : σ → Prop) {txsToEvict : List (TxStack A n × Bool)}
    (hstep : ∀ w (s : TxStack A n) (lane : Fin L) w', s ∈ txsToEvict.map Prod.fst → P w →
      evict s.top (setLimiter w { limiter w with
        laneEvictedInclusionFee := Function.update (limiter w).laneEvictedInclusionFee lane
          (s.top.inclusionFee, s.top.numOperations) }) = .ok w' → P w')
    {w w' : σ} (hw : P w)
    (hr : evictLoop limiter setLimiter evict resourcesToFit txToFitLane maxLimits w txsToEvict = .ok w') :
    P w' := by
  induction txsToEvict generalizing w with
  | nil =>
    cases hr
    exact hw
  | cons e rest ih =>
    obtain ⟨evictedStack, evictedDueToLaneLimit⟩ := e
    simp only [TxQueueLimiter.evictLoop] at hr
    obtain ⟨w₂, hev, hr⟩ := Except.bind_eq_ok.mp hr
    have h₂ := hstep _ _ _ _ (by simp only [List.map_cons]; exact List.mem_cons_self) hw hev
    have hrest := ih (w := w₂)
      (fun w s lane w' hs => hstep w s lane w' (by simp only [List.map_cons]; exact List.mem_cons_of_mem _ hs))
    obtain ⟨total, -, hr⟩ := Except.bind_eq_ok.mp hr
    obtain ⟨sum, -, hr⟩ := Except.bind_eq_ok.mp hr
    -- the loop either stops at the world it reached or goes on from it
    split at hr
    · split at hr
      · exact Except.pure_eq_ok.mp hr ▸ h₂
      · obtain ⟨laneSum, -, hr⟩ := Except.bind_eq_ok.mp hr
        split at hr
        · exact Except.pure_eq_ok.mp hr ▸ h₂
        · exact hrest h₂ hr
    · exact hrest h₂ hr

theorem evictTransactions_cases {w w' : σ} {txsToEvict : List (TxStack A n × Bool)} {txToFit : TxFrame A}
    (hr : evictTransactions limiter setLimiter evict w txsToEvict txToFit maxLimits = .ok w') :
    evictLoop limiter setLimiter evict ((limiter w).txs.laneConfig.getTxResources txToFit)
      ((limiter w).txs.laneConfig.getLane txToFit) maxLimits w txsToEvict = .ok w' := by
  unfold TxQueueLimiter.evictTransactions at hr
  obtain ⟨w₁, hloop, hr⟩ := Except.bind_eq_ok.mp hr
  obtain ⟨total, -, hr⟩ := Except.bind_eq_ok.mp hr
  obtain ⟨sum, -, hr⟩ := Except.bind_eq_ok.mp hr
  obtain ⟨_, -, hr⟩ := Except.bind_eq_ok.mp hr
  exact Except.pure_eq_ok.mp hr ▸ hloop

end Eviction

theorem Ok.evictTransactions (h : l.Ok) {txsToEvict : List (TxStack A n × Bool)} {txToFit : TxFrame A}
    {maxLimits : Resource n} {l' : TxQueueLimiter A L n}
    (hr : evictTransactions id (fun _ l => l) (fun tx l => l.removeTransaction tx) l txsToEvict txToFit
      maxLimits = .ok l') :
    l'.Ok := by
  refine evictLoop_induction TxQueueLimiter.Ok (fun w s lane w' _ hw hrem => ?_) h (evictTransactions_cases hr)
  have hmem := mem_of_removeTransaction hrem
  exact (hw.setEvicted lane (hw.fee_nonneg _ hmem)).removeTransaction hrem

/-- The limiters the operations reach from a `reset`, each where it returns: adding a transaction
with operations, resources and a fee bid that are not negative, at an address the queue does not
hold; removing any transaction; asking whether any transaction can be added; evicting any listed
stacks with `removeTransaction`; and forgetting the evicted bids. -/
inductive Reachable : TxQueueLimiter A L n → Prop
  | reset (laneConfig : SurgePricingLaneConfig A L n) (seed : ℕ) :
      Reachable (TxQueueLimiter.reset laneConfig seed)
  | addTransaction {l l' : TxQueueLimiter A L n} {tx : TxFrame A} (hl : Reachable l)
      (hops : 0 < tx.numOperations) (hres : 0 ≤ l.txs.laneConfig.getTxResources tx) (hfee : 0 ≤ tx.inclusionFee)
      (hfresh : tx.address ∉ l.txs.allTxs.map TxFrame.address) (h : l.addTransaction tx = .ok l') : Reachable l'
  | removeTransaction {l l' : TxQueueLimiter A L n} {tx : TxFrame A} (hl : Reachable l)
      (h : l.removeTransaction tx = .ok l') : Reachable l'
  | canAddTx {l l' : TxQueueLimiter A L n} {newTx : TxFrame A} {oldTx : Option (TxFrame A)}
      {txsToEvict : List (TxStack A n × Bool)} {maxScaledLedgerResources : Resource n}
      {r : (Bool × ℤ) × List (TxStack A n × Bool)} (hl : Reachable l)
      (h : l.canAddTx newTx oldTx txsToEvict maxScaledLedgerResources = .ok (l', r)) : Reachable l'
  | evictTransactions {l l' : TxQueueLimiter A L n} {txsToEvict : List (TxStack A n × Bool)}
      {txToFit : TxFrame A} {maxLimits : Resource n} (hl : Reachable l)
      (h : evictTransactions id (fun _ l => l) (fun tx l => l.removeTransaction tx) l txsToEvict txToFit
        maxLimits = .ok l') :
      Reachable l'
  | resetEvictionState {l : TxQueueLimiter A L n} (hl : Reachable l) : Reachable l.resetEvictionState

/-- Every limiter the operations reach from a `reset` keeps the invariant: its queue holds
exactly the stacks of the transactions of `mStackForTx`, the accounts of
`mEnforceSingleAccounts` are their source accounts with one transaction each, and the fee bids
held and evicted are not negative. -/
theorem ok_of_reachable (h : Reachable l) : l.Ok := by
  induction h with
  | reset laneConfig seed => exact ok_reset laneConfig seed
  | addTransaction _ hops hres hfee hfresh h ih => exact ih.addTransaction hops hres hfee hfresh h
  | removeTransaction _ h ih => exact ih.removeTransaction h
  | canAddTx _ h ih => exact ih.canAddTx h
  | evictTransactions _ h ih => exact ih.evictTransactions h
  | resetEvictionState _ ih => exact ih.resetEvictionState

/-- A limiter reached by adding two transactions of lane 1 after a reset. -/
theorem ok_of_reachable_add_add : ∃ l : TxQueueLimiter ℕ 2 1,
    ((TxQueueLimiter.reset sampleLimiterConfig 3).addTransaction (SurgePricingPriorityQueue.sampleTx 3 1 7) >>= fun l =>
      l.addTransaction (SurgePricingPriorityQueue.sampleTx 5 2 8)) = .ok l ∧ Reachable l ∧ l.Ok := by
  obtain ⟨l, h⟩ : ∃ l : TxQueueLimiter ℕ 2 1,
      ((TxQueueLimiter.reset sampleLimiterConfig 3).addTransaction (SurgePricingPriorityQueue.sampleTx 3 1 7) >>= fun l =>
        l.addTransaction (SurgePricingPriorityQueue.sampleTx 5 2 8)) = .ok l := ⟨_, rfl⟩
  obtain ⟨l₁, h₁, h₂⟩ := Except.bind_eq_ok.mp h
  obtain ⟨-, hfresh, hcfg⟩ := addTransaction_sampleTx_reset h₁
  have hr₁ : Reachable l₁ := Reachable.addTransaction (Reachable.reset _ _) (by decide) (fun _ => zero_le_one)
    (by decide) (by simp [TxQueueLimiter.reset, SurgePricingPriorityQueue.allTxs,
      SurgePricingPriorityQueue.allStacks_create]) h₁
  have hr : Reachable l := Reachable.addTransaction hr₁ (by decide) (by rw [hcfg]; exact fun _ => zero_le_one)
    (by decide) hfresh h₂
  exact ⟨l, h, hr, ok_of_reachable hr⟩
end Lanes

end TxQueueLimiter

end HcnetCore.Herder
