import HcnetCore.Herder.TransactionQueueBooks

/-! # Adding to the transaction queue keeps its books

`tryAdd` asks `canAdd` whether a transaction may come in, puts it in its account's list in place of
the transaction it replaces, counts its operations and charges its fee, evicts the stacks the
limiter listed by banning their transactions, and last gives it to the limiter and the known
hashes. Each stage is a lemma about `Books`: `Books.canAdd`; `Books.enqueue`, after which the
transaction is pending; `Books.evictTransactions`; and `Books.register`, after which nothing is.
`Books.tryAdd` composes them. On a queue `tryAdd` filled, `ban` is then seen at work.
-/

namespace HcnetCore.Herder

set_option autoImplicit false

variable {A : Type} {L n : ℕ}

namespace TransactionQueue

variable [DecidableEq A] {q q' : TransactionQueue A L n} {pending dropping : Finset (TxFrame A)}

section Enqueue

theorem queued_sub_of_filter {p : TxFrame A → Bool}
    (h : ∀ c, (q'.accountState c).transactions = (q.accountState c).transactions.filter p) :
    ∀ t ∈ q'.queued, t ∈ q.queued := fun t ht => by
  obtain ⟨acct, hacct⟩ := (mem_queued _).mp ht
  rw [h] at hacct
  exact (mem_queued _).mpr ⟨acct, (List.mem_filter.mp hacct).1⟩

theorem Books.enqueue_of (hb : q.Books ∅ dropping) {tx : TxFrame A}
    (hdrop : ∀ t, t ∈ dropping ↔ t ∈ (q.accountState tx.sourceID).transactions) (hfee : 0 < tx.fullFee)
    (hhash : ∀ t ∈ q.queued, t.fullHash = tx.fullHash → t = tx)
    (hlim : q'.txQueueLimiter = q.txQueueLimiter) (hknown : q'.knownTxHashes = q.knownTxHashes)
    (hbanned : q'.bannedTransactions = q.bannedTransactions) (hdepth : q'.pendingDepth = q.pendingDepth)
    (hsrc : q'.accountState tx.sourceID =
      { q.accountState tx.sourceID with
        transactions := [tx]
        queueSizeOps := (q.accountState tx.sourceID).queueSizeOps + tx.numOperations
        totalFees := (q.accountState tx.sourceID).totalFees + if tx.feeSourceID = tx.sourceID then tx.fullFee else 0 })
    (hfs : tx.feeSourceID ≠ tx.sourceID → q'.accountState tx.feeSourceID =
      { q.accountState tx.feeSourceID with totalFees := (q.accountState tx.feeSourceID).totalFees + tx.fullFee })
    (hother : ∀ b, b ≠ tx.sourceID → b ≠ tx.feeSourceID → q'.accountState b = q.accountState b)
    (hmem : ∀ b ∈ q'.accountStates, b = tx.sourceID ∨ b = tx.feeSourceID ∨ b ∈ q.accountStates) :
    q'.Books {tx} ∅ ∧ ∀ t ∈ q'.queued, t = tx ∨ t ∈ q.queued := by
  have hlist : ∀ b, (q'.accountState b).transactions =
      if b = tx.sourceID then [tx] else (q.accountState b).transactions := by
    intro b
    by_cases hs : b = tx.sourceID
    · simp [hs, hsrc]
    · by_cases hf : b = tx.feeSourceID
      · subst hf
        simp [hs, hfs hs]
      · simp [hs, hother b hs hf]
  have hage : ∀ b, (q'.accountState b).age = (q.accountState b).age := by
    intro b
    by_cases hs : b = tx.sourceID
    · simp [hs, hsrc]
    · by_cases hf : b = tx.feeSourceID
      · subst hf
        simp [hfs hs]
      · simp [hother b hs hf]
  have hsrc_of : ∀ t ∈ q.queued, t.sourceID = tx.sourceID → t ∈ dropping := fun t ht hts => by
    obtain ⟨acct, hacct⟩ := (mem_queued q).mp ht
    have hsrc_t := hb.sourceID_eq acct t hacct
    exact (hdrop t).mpr (by rw [← hts, hsrc_t]; exact hacct)
  have hqueued : ∀ t, t ∈ q'.queued ↔ t = tx ∨ (t ∈ q.queued ∧ t ∉ dropping) := by
    intro t
    rw [mem_queued q']
    simp only [hlist]
    constructor
    · rintro ⟨b, hb'⟩
      split at hb'
      · exact .inl (List.mem_singleton.mp hb')
      · next hbs =>
        refine .inr ⟨(mem_queued q).mpr ⟨b, hb'⟩, fun htd => hbs ?_⟩
        rw [← hb.sourceID_eq b t hb', hb.sourceID_eq _ t ((hdrop t).mp htd)]
    · rintro (h | ⟨ht, htd⟩)
      · exact ⟨tx.sourceID, by simp [h]⟩
      · obtain ⟨b, hb'⟩ := (mem_queued q).mp ht
        refine ⟨b, ?_⟩
        rw [if_neg fun (hbs : b = tx.sourceID) => htd ((hdrop t).mpr (hbs ▸ hb'))]
        exact hb'
  have htx_not : tx ∉ q.queued ∨ tx ∈ dropping := by
    by_cases ht : tx ∈ q.queued
    · exact .inr (hsrc_of tx ht rfl)
    · exact .inl ht
  refine ⟨⟨hlim ▸ hb.limiter, hlim ▸ hb.resources_nonneg, fun b t ht => ?_, fun b => ?_, fun b hnil => ?_,
    fun b => ?_, hbanned ▸ hb.banned_ne_nil, fun t ht => ?_, fun t ht t' ht' heq => ?_,
    fun t ht => ?_, fun t ht => absurd ht (Finset.notMem_empty t), fun t => ?_, fun h t => ?_,
    fun b => ?_, fun b => ?_, fun b hb' => ?_⟩, fun t ht => ((hqueued t).mp ht).imp_right And.left⟩
  · rw [hlist] at ht
    split at ht
    · next hbs => rw [List.mem_singleton.mp ht, hbs]
    · exact hb.sourceID_eq b t ht
  · rw [hlist]
    split
    · simp
    · exact hb.length_le b
  · rw [hlist] at hnil
    split at hnil
    · exact absurd hnil (List.cons_ne_nil _ _)
    · rw [hage]
      exact hb.age_zero b hnil
  · rw [hage, hdepth]
    exact hb.age_lt b
  · rcases (hqueued t).mp ht with rfl | ⟨ht, -⟩
    · exact hfee
    · exact hb.fullFee_pos t ht
  · rcases (hqueued t).mp ht with rfl | ⟨ht, -⟩ <;> rcases (hqueued t').mp ht' with rfl | ⟨ht', -⟩
    · rfl
    · exact (hhash t' ht' heq.symm).symm
    · exact hhash t ht heq
    · exact hb.hash_injective t ht t' ht' heq
  · rw [Finset.mem_singleton.mp ht]
    exact (hqueued tx).mpr (.inl rfl)
  · -- the limiter holds the queued transactions but those being dropped and `tx`
    rw [hlim, hb.mem_stackForTx, hqueued, Finset.mem_singleton]
    simp only [Finset.notMem_empty, not_false_eq_true, and_true, true_and]
    constructor
    · rintro ⟨ht, htd⟩
      refine ⟨.inr ⟨ht, htd⟩, fun heq => ?_⟩
      subst heq
      rcases htx_not with h | h
      · exact h ht
      · exact htd h
    · rintro ⟨(rfl | h), hne⟩
      · exact absurd rfl hne
      · exact h
  · rw [hknown, hb.lookup_knownTxHashes, hqueued, Finset.mem_singleton]
    simp only [Finset.notMem_empty, not_false_eq_true, and_true, true_and]
    constructor
    · rintro ⟨⟨ht, htd⟩, rfl⟩
      refine ⟨⟨.inr ⟨ht, htd⟩, fun heq => ?_⟩, rfl⟩
      subst heq
      rcases htx_not with h | h
      · exact h ht
      · exact htd h
    · rintro ⟨⟨(rfl | h), hne⟩, rfl⟩
      · exact absurd rfl hne
      · exact ⟨h, rfl⟩
  · -- `tx`'s fee goes to its fee source
    have hnot : tx ∉ q.queued.toFinset \ dropping := fun h => by
      rcases htx_not with h' | h'
      · exact h' (List.mem_toFinset.mp (Finset.mem_sdiff.mp h).1)
      · exact (Finset.mem_sdiff.mp h).2 h'
    have hfin : q'.queued.toFinset \ ∅ = insert tx (q.queued.toFinset \ dropping) := by
      ext t
      simp [hqueued]
    rw [hfin, feesOf_insert hnot, ← hb.totalFees_eq]
    by_cases hs : b = tx.sourceID
    · subst hs
      rw [hsrc]
      by_cases hf : tx.feeSourceID = tx.sourceID <;> simp [hf, add_comm]
    · by_cases hf : b = tx.feeSourceID
      · subst hf
        rw [hfs hs]
        simp [add_comm]
      · rw [hother b hs hf, if_neg (Ne.symm hf), zero_add]
  · -- `tx`'s operations go to its account, whose other transactions are all being dropped
    have hnil : ∀ b, ((q.accountState b).transactions.filter fun t => t ∉ dropping) =
        if b = tx.sourceID then [] else (q.accountState b).transactions := by
      intro b
      split
      · next hbs =>
        subst hbs
        exact List.filter_eq_nil_iff.mpr fun t ht => by simpa using (hdrop t).mpr ht
      · next hbs =>
        exact List.filter_eq_self.mpr fun t ht => by
          simpa using fun htd => hbs ((hb.sourceID_eq b t ht).symm.trans
            (hb.sourceID_eq _ t ((hdrop t).mp htd)))
    have hops := hb.queueSizeOps_eq b
    rw [hnil] at hops
    simp only [Finset.notMem_empty, not_false_eq_true, decide_true, List.filter_true, hlist]
    by_cases hs : b = tx.sourceID
    · subst hs
      simp only [if_true] at hops
      rw [hsrc]
      simp [hops]
    · rw [if_neg hs] at hops ⊢
      by_cases hf : b = tx.feeSourceID
      · subst hf
        rw [hfs hs, ← hops]
      · rw [hother b hs hf, ← hops]
  · -- the source holds `tx`, and the fee source owes at least `tx`'s fee
    rcases hmem b hb' with rfl | rfl | hbq
    · exact .inl (by rw [hlist, if_pos rfl]; exact List.cons_ne_nil _ _)
    · by_cases hs : tx.feeSourceID = tx.sourceID
      · exact .inl (by rw [hlist, if_pos hs]; exact List.cons_ne_nil _ _)
      · right
        rw [hfs hs]
        have := hb.totalFees_nonneg tx.feeSourceID
        simp only
        linarith
    · by_cases hs : b = tx.sourceID
      · exact .inl (by rw [hlist, if_pos hs]; exact List.cons_ne_nil _ _)
      · by_cases hf : b = tx.feeSourceID
        · right
          subst hf
          rw [hfs hs]
          have := hb.totalFees_nonneg tx.feeSourceID
          simp only
          linarith
        · rw [hlist, if_neg hs, hother b hs hf]
          exact hb.present b hbq

/-- The states of `tryAdd` from `tx`'s account on: once `tx` is the one transaction of its
account, in place of those being dropped, its operations are counted and its fee charged, and the
books hold with `tx` pending. -/
theorem Books.enqueue (hb : q.Books ∅ dropping) {tx : TxFrame A}
    (hdrop : ∀ t, t ∈ dropping ↔ t ∈ (q.accountState tx.sourceID).transactions) (hfee : 0 < tx.fullFee)
    (hhash : ∀ t ∈ q.queued, t.fullHash = tx.fullHash → t = tx) {q₄ : TransactionQueue A L n}
    (hlim : q₄.txQueueLimiter = q.txQueueLimiter) (hknown : q₄.knownTxHashes = q.knownTxHashes)
    (hbanned : q₄.bannedTransactions = q.bannedTransactions) (hdepth : q₄.pendingDepth = q.pendingDepth)
    (hsrc : q₄.accountState tx.sourceID = { q.accountState tx.sourceID with transactions := [tx] })
    (hother : ∀ b, b ≠ tx.sourceID → q₄.accountState b = q.accountState b)
    (hmem : ∀ b ∈ q₄.accountStates, b = tx.sourceID ∨ b ∈ q.accountStates) :
    let q₅ := q₄.setAccountState tx.sourceID { q₄.accountState tx.sourceID with
      queueSizeOps := (q₄.accountState tx.sourceID).queueSizeOps + tx.numOperations }
    let q₆ := q₅.setAccountState tx.feeSourceID { q₅.accountState tx.feeSourceID with
      totalFees := (q₅.accountState tx.feeSourceID).totalFees + tx.fullFee }
    q₆.Books {tx} ∅ ∧ ∀ t ∈ q₆.queued, t = tx ∨ t ∈ q.queued := by
  intro q₅ q₆
  refine hb.enqueue_of hdrop hfee hhash hlim hknown hbanned hdepth ?_ (fun hne => ?_) (fun b hs hf => ?_)
    (fun b hb' => ?_)
  · by_cases hf : tx.feeSourceID = tx.sourceID
    · simp [q₆, q₅, hf, hsrc]
    · simp [q₆, q₅, hf, Ne.symm hf, hsrc]
  · simp [q₆, q₅, hne, hother _ hne]
  · simp [q₆, q₅, hs, hf, hother b hs]
  · simp only [q₆, q₅, mem_setAccountState] at hb'
    rcases hb' with rfl | rfl | hb'
    · exact .inr (.inl rfl)
    · exact .inl rfl
    · exact (hmem b hb').elim .inl (.inr ∘ .inr)

theorem ensureAccount_keeps (acct : A) :
    let q₂ := if acct ∈ q.accountStates then q else q.setAccountState acct {}
    (∀ b, q₂.accountState b = q.accountState b) ∧ (∀ b ∈ q₂.accountStates, b = acct ∨ b ∈ q.accountStates) ∧
      q₂.txQueueLimiter = q.txQueueLimiter ∧ q₂.knownTxHashes = q.knownTxHashes ∧
      q₂.bannedTransactions = q.bannedTransactions ∧ q₂.pendingDepth = q.pendingDepth := by
  intro q₂
  by_cases hacct : acct ∈ q.accountStates
  · have hq : q₂ = q := if_pos hacct
    rw [hq]
    exact ⟨fun _ => rfl, fun b hb => .inr hb, rfl, rfl, rfl, rfl⟩
  · have hq : q₂ = q.setAccountState acct {} := if_neg hacct
    rw [hq]
    refine ⟨fun b => ?_, fun b hb => (mem_setAccountState q _).mp hb, rfl, rfl, rfl, rfl⟩
    by_cases hb : b = acct
    · subst hb
      rw [accountState_setAccountState_self, accountState_of_not_mem q hacct]
    · exact accountState_setAccountState_of_ne q _ hb

end Enqueue

section Register

theorem Books.setEvicted (hb : q.Books pending dropping) (lane : Fin L) {bid : ℤ × ℕ} (hbid : 0 ≤ bid.1) :
    ({ q with txQueueLimiter := { q.txQueueLimiter with
        laneEvictedInclusionFee := Function.update q.txQueueLimiter.laneEvictedInclusionFee lane bid } } :
      TransactionQueue A L n).Books pending dropping :=
  { hb with limiter := hb.limiter.setEvicted lane hbid }

/-- Once the pending `tx` goes into the limiter and the known hashes, nothing is pending: this
needs `tx`'s operations, its fee bid not negative, and an address no other queued transaction has. -/
theorem Books.register {tx : TxFrame A} (hb : q.Books {tx} ∅) (hops : 0 < tx.numOperations)
    (hfee : 0 ≤ tx.inclusionFee) (haddr : ∀ t ∈ q.queued, t.address = tx.address → t = tx)
    {l' : TxQueueLimiter A L n} (hr : q.txQueueLimiter.addTransaction tx = .ok l') :
    ({ q with txQueueLimiter := l', knownTxHashes := q.knownTxHashes.insert tx.fullHash tx } :
      TransactionQueue A L n).Books ∅ ∅ := by
  have htx : tx ∈ q.queued := hb.pending_sub tx (Finset.mem_singleton_self tx)
  have hfresh : tx.address ∉ q.txQueueLimiter.txs.allTxs.map TxFrame.address := fun hmem => by
    obtain ⟨t, ht, heq⟩ := List.mem_map.mp hmem
    obtain ⟨htq, htp, -⟩ := (hb.mem_stackForTx t).mp (hb.limiter.mem_stackForTx_of_mem_allTxs ht)
    exact htp (Finset.mem_singleton.mpr (haddr t htq heq))
  have hok := hb.limiter.addTransaction hops (hb.resources_nonneg tx) hfee hfresh hr
  obtain ⟨-, txs, -, rfl⟩ := TxQueueLimiter.addTransaction_cases hr
  refine { hb with
    limiter := hok
    resources_nonneg := TxQueueLimiter.addTransaction_laneConfig hr ▸ hb.resources_nonneg
    pending_sub := fun t ht => absurd ht (Finset.notMem_empty t)
    mem_stackForTx := fun t => ?_
    lookup_knownTxHashes := fun h t => ?_ }
  · simp only [AList.mem_insert, hb.mem_stackForTx, Finset.mem_singleton, Finset.notMem_empty,
      not_false_eq_true, and_true]
    constructor
    · rintro (rfl | ⟨ht, -⟩)
      · exact htx
      · exact ht
    · intro ht
      by_cases heq : t = tx
      · exact .inl heq
      · exact .inr ⟨ht, heq⟩
  · -- `tx`'s hash now finds `tx`, which no other queued transaction shares
    by_cases hh : h = tx.fullHash
    · subst hh
      simp only [AList.lookup_insert, Option.some.injEq, Finset.notMem_empty, not_false_eq_true, and_true]
      constructor
      · rintro rfl
        exact ⟨htx, rfl⟩
      · rintro ⟨ht, heq⟩
        exact (hb.hash_injective t ht tx htx heq).symm
    · simp only [AList.lookup_insert_ne hh, hb.lookup_knownTxHashes, Finset.mem_singleton,
        Finset.notMem_empty, not_false_eq_true, and_true]
      constructor
      · rintro ⟨⟨ht, -⟩, rfl⟩
        exact ⟨ht, rfl⟩
      · rintro ⟨ht, rfl⟩
        exact ⟨⟨ht, fun heq => hh (heq ▸ rfl)⟩, rfl⟩

end Register

section Add

variable [NeZero L]

/-- Evicting listed stacks of fee bids that are not negative, each by banning its top transaction,
keeps the books and only takes transactions out of the queue. -/
theorem Books.evictTransactions (hb : q.Books pending ∅) {evs : List (TxStack A n × Bool)}
    (hbids : ∀ s ∈ evs.map Prod.fst, 0 ≤ s.top.inclusionFee) {txToFit : TxFrame A} {maxLimits : Resource n}
    (hr : TxQueueLimiter.evictTransactions (fun q => q.txQueueLimiter) (fun q l => { q with txQueueLimiter := l })
      (fun txToEvict q => q.ban [txToEvict]) q evs txToFit maxLimits = .ok q') :
    q'.Books pending ∅ ∧ ∀ t ∈ q'.queued, t ∈ q.queued := by
  refine TxQueueLimiter.evictLoop_induction (fun w => w.Books pending ∅ ∧ ∀ t ∈ w.queued, t ∈ q.queued)
    (fun w s lane w' hs hw hban => ?_) ⟨hb, fun t ht => ht⟩ (TxQueueLimiter.evictTransactions_cases hr)
  obtain ⟨hbw, hsub⟩ := hw
  obtain ⟨hb', hl, -⟩ := (hbw.setEvicted lane (hbids s hs)).ban_lists hban
  exact ⟨hb', fun t ht => hsub t (queued_sub_of_filter hl t ht)⟩

theorem Books.canAddTx (hb : q.Books pending dropping) {tx : TxFrame A} {oldTx : Option (TxFrame A)}
    {evs : List (TxStack A n × Bool)} {maxLimits : Resource n} {l' : TxQueueLimiter A L n}
    {r : (Bool × ℤ) × List (TxStack A n × Bool)}
    (h : q.txQueueLimiter.canAddTx tx oldTx evs maxLimits = .ok (l', r)) :
    ({ q with txQueueLimiter := l' } : TransactionQueue A L n).Books pending dropping :=
  { hb with
    limiter := hb.limiter.canAddTx h
    resources_nonneg := (TxQueueLimiter.canAddTx_keeps h).2 ▸ hb.resources_nonneg
    mem_stackForTx := fun t => (TxQueueLimiter.canAddTx_keeps h).1 ▸ hb.mem_stackForTx t }

omit [DecidableEq A] [NeZero L] in
theorem isDuplicateTx_self (tx : TxFrame A) : isDuplicateTx tx tx = true := by
  simp [isDuplicateTx]

/-- Whatever `canAdd` answers, the queue it leaves keeps the books. When it lets `tx` in, its fee
bid is not negative, the limiter has only been asked whether `tx` fits in place of the
transaction it replaces, and that is the one transaction of its account, or it has none. -/
theorem Books.canAdd (hb : q.Books ∅ ∅) {view : LedgerView A n} {tx : TxFrame A}
    {r : TransactionQueue A L n × AddResult × Option TxResult × Option (ℕ × TxFrame A) × List (TxStack A n × Bool)}
    (h : q.canAdd view tx = .ok r) :
    r.1.Books ∅ ∅ ∧ (∀ t ∈ r.1.queued, t ∈ q.queued) ∧ (r.2.1 = .ADD_STATUS_PENDING → 0 ≤ tx.inclusionFee ∧
      (∃ l' minFee, q.txQueueLimiter.canAddTx tx (r.2.2.2.1.map Prod.snd) [] view.maxScaledLedgerResources =
          .ok (l', (true, minFee), r.2.2.2.2) ∧ r.1 = { q with txQueueLimiter := l' }) ∧
      (r.2.2.2.1 = none ∧ (q.accountState tx.sourceID).transactions = [] ∨
        ∃ old, r.2.2.2.1 = some (0, old) ∧ (q.accountState tx.sourceID).transactions = [old] ∧ old ≠ tx)) := by
  unfold TransactionQueue.canAdd at h
  -- the banned and the filtered are turned away before anything is looked at
  by_cases hbanned : q.isBanned tx.fullHash = true
  · rw [if_pos hbanned] at h
    cases Except.pure_eq_ok.mp h
    exact ⟨hb, fun _ => id, fun h => by cases h⟩
  rw [if_neg hbanned] at h
  by_cases hfiltered : q.isFiltered tx = true
  · rw [if_pos hfiltered] at h
    cases Except.pure_eq_ok.mp h
    exact ⟨hb, fun _ => id, fun h => by cases h⟩
  rw [if_neg hfiltered] at h
  revert h
  extract_lets newFullFee seqNum oldTx txToReplace tail jp
  intro h
  split at h
  · cases Except.pure_eq_ok.mp h
    exact ⟨hb, fun _ => id, fun h => by cases h⟩
  next hfee =>
  have hincl : 0 ≤ tx.inclusionFee := by
    simp only [not_or, not_lt] at hfee
    exact hfee.2
  -- the part after the account is looked at, shared by every way `tx` may be let in
  have htail : ∀ nf sn ot tr r, tail () nf sn ot tr = .ok r → r.1.Books ∅ ∅ ∧ (∀ t ∈ r.1.queued, t ∈ q.queued) ∧
      (r.2.1 = .ADD_STATUS_PENDING → ∃ l' minFee,
        q.txQueueLimiter.canAddTx tx ot [] view.maxScaledLedgerResources = .ok (l', (true, minFee), r.2.2.2.2) ∧
        r.1 = { q with txQueueLimiter := l' } ∧ r.2.2.2.1 = tr) := by
    intro nf sn ot tr r h
    simp only [tail] at h
    obtain ⟨⟨l', ⟨canAddRes, minFee⟩, evs⟩, hcan, h⟩ := Except.bind_eq_ok.mp h
    have hb' := hb.canAddTx hcan
    cases canAddRes
    · -- refused: `tx` is banned
      obtain ⟨q₂, hban, h⟩ := Except.bind_eq_ok.mp h
      obtain ⟨hb₂, hl₂, -⟩ := hb'.ban_lists hban
      split at h <;> cases Except.pure_eq_ok.mp h <;> exact ⟨hb₂, queued_sub_of_filter hl₂, fun h => by cases h⟩
    · simp only [Bool.not_true, Bool.false_eq_true, ↓reduceIte] at h
      split at h
      · cases Except.pure_eq_ok.mp h
        exact ⟨hb', fun _ => id, fun h => by cases h⟩
      split at h
      · cases Except.pure_eq_ok.mp h
        exact ⟨hb', fun _ => id, fun h => by cases h⟩
      · cases Except.pure_eq_ok.mp h
        exact ⟨hb', fun _ => id, fun _ => ⟨l', minFee, hcan, rfl, rfl⟩⟩
  have hfresh : ∀ r, (q.accountState tx.sourceID).transactions = [] →
      tail () newFullFee seqNum oldTx txToReplace = .ok r → r.1.Books ∅ ∅ ∧ (∀ t ∈ r.1.queued, t ∈ q.queued) ∧
        (r.2.1 = .ADD_STATUS_PENDING → 0 ≤ tx.inclusionFee ∧
          (∃ l' minFee, q.txQueueLimiter.canAddTx tx (r.2.2.2.1.map Prod.snd) [] view.maxScaledLedgerResources =
            .ok (l', (true, minFee), r.2.2.2.2) ∧ r.1 = { q with txQueueLimiter := l' }) ∧
          (r.2.2.2.1 = none ∧ (q.accountState tx.sourceID).transactions = [] ∨
            ∃ old, r.2.2.2.1 = some (0, old) ∧ (q.accountState tx.sourceID).transactions = [old] ∧ old ≠ tx)) :=
      fun r hnil h => by
    obtain ⟨hb₁, hsub, hp⟩ := htail _ _ _ _ r h
    exact ⟨hb₁, hsub, fun hpend => by
      obtain ⟨l', minFee, hcan, hr, htr⟩ := hp hpend
      exact ⟨hincl, ⟨l', minFee, by rw [htr]; exact hcan, hr⟩, .inl ⟨htr, hnil⟩⟩⟩
  split at h
  case h_2 hnone =>
    exact hfresh r (by simp [accountState, Option.eq_none_iff_forall_ne_some.mpr fun st hst => hnone st hst]) h
  case h_1 st hst =>
  have hstate : q.accountState tx.sourceID = st := by simp [accountState, hst]
  revert h
  extract_lets transactions lastSeq jp₂
  intro h
  split at h
  · obtain ⟨_, h₁, -⟩ := Except.bind_eq_ok.mp h
    exact absurd h₁ Except.throw_ne_ok
  next hlen =>
  simp only [jp₂] at h
  split at h
  case isFalse hnil =>
    exact hfresh r (by rw [hstate]; exact not_not.mp hnil) h
  case isTrue hne =>
  split at h
  case isTrue hnb =>
    -- not a fee bump: the account has its transaction already
    split at h
    · split at h
      · cases Except.pure_eq_ok.mp h
        exact ⟨hb, fun _ => id, fun h => by cases h⟩
      · simp only [jp] at h
        cases Except.pure_eq_ok.mp h
        exact ⟨hb, fun _ => id, fun h => by cases h⟩
    · simp only [jp] at h
      cases Except.pure_eq_ok.mp h
      exact ⟨hb, fun _ => id, fun h => by cases h⟩
  case isFalse hbump =>
  rcases hfs : findBySeq tx.seqNum tx.minSeqNum transactions with ⟨found, it⟩
  rw [hfs] at h
  dsimp only at h
  split at h
  · cases Except.pure_eq_ok.mp h
    exact ⟨hb, fun _ => id, fun h => by cases h⟩
  split at h
  next i old =>
    obtain ⟨t, ht⟩ : ∃ t, transactions = [t] := by
      have hlen_pos := List.length_pos_iff.mpr hne
      exact List.length_eq_one_iff.mp (by omega)
    have hpos : transactions[i]? = some old := findBySeq_getElem? (by rw [hfs])
    obtain ⟨rfl, rfl⟩ : i = 0 ∧ t = old := by
      rw [ht] at hpos
      rcases i with _ | i
      · exact ⟨rfl, Option.some.inj hpos⟩
      · simp at hpos
    split at h
    · cases Except.pure_eq_ok.mp h
      exact ⟨hb, fun _ => id, fun h => by cases h⟩
    next hdup =>
    have hne_tx : t ≠ tx := fun heq => hdup (heq ▸ isDuplicateTx_self t)
    obtain ⟨lift, -, h⟩ := Except.bind_eq_ok.mp h
    split at h
    · cases Except.pure_eq_ok.mp h
      exact ⟨hb, fun _ => id, fun h => by cases h⟩
    -- whether or not the fee sources agree, `tx` replaces `t` when it passes the age check
    have hleaf : ∀ nf, tail () nf seqNum (some t) (some (0, t)) = .ok r → r.1.Books ∅ ∅ ∧
        (∀ t ∈ r.1.queued, t ∈ q.queued) ∧ (r.2.1 = .ADD_STATUS_PENDING → 0 ≤ tx.inclusionFee ∧
          (∃ l' minFee, q.txQueueLimiter.canAddTx tx (r.2.2.2.1.map Prod.snd) [] view.maxScaledLedgerResources =
            .ok (l', (true, minFee), r.2.2.2.2) ∧ r.1 = { q with txQueueLimiter := l' }) ∧
          (r.2.2.2.1 = none ∧ (q.accountState tx.sourceID).transactions = [] ∨
            ∃ old, r.2.2.2.1 = some (0, old) ∧ (q.accountState tx.sourceID).transactions = [old] ∧ old ≠ tx)) :=
      fun nf h => by
        obtain ⟨hb₁, hsub, hp⟩ := htail _ _ _ _ r h
        refine ⟨hb₁, hsub, fun hpend => ?_⟩
        obtain ⟨l', minFee, hcan, hr, htr⟩ := hp hpend
        exact ⟨hincl, ⟨l', minFee, by rw [htr]; exact hcan, hr⟩, .inr ⟨t, htr, by rw [hstate]; exact ht, hne_tx⟩⟩
    split at h <;> split at h
    all_goals first
      | (cases Except.pure_eq_ok.mp h
         exact ⟨hb, fun _ => id, fun h => by cases h⟩)
      | exact hleaf _ h
  next hnone =>
    obtain rfl : it = none := by
      cases it with
      | none => rfl
      | some p => exact absurd rfl (hnone p.1 p.2)
    split at h <;> cases Except.pure_eq_ok.mp h <;> exact ⟨hb, fun _ => id, fun h => by cases h⟩

theorem Books.canAddTx_bids (hb : q.Books pending dropping) {tx : TxFrame A} {oldTx : Option (TxFrame A)}
    {maxLimits : Resource n} {l' : TxQueueLimiter A L n} {minFee : ℤ} {evs : List (TxStack A n × Bool)}
    (h : q.txQueueLimiter.canAddTx tx oldTx [] maxLimits = .ok (l', (true, minFee), evs)) :
    ∀ s ∈ evs.map Prod.fst, 0 ≤ s.top.inclusionFee := by
  obtain ⟨_, _, -, -, ⟨-, -, hres, -⟩ | ⟨-, rfl, hfit⟩⟩ := TxQueueLimiter.canAddTx_cases h
  · simp at hres
  intro s hs
  obtain ⟨e, he, rfl⟩ := List.mem_map.mp hs
  have hlisted := (SurgePricingPriorityQueue.canFitWithEviction_listed hfit e he).resolve_left List.not_mem_nil
  exact (hb.limiter.feeBidsNonneg e.1 hlisted).top

/-- Whenever `tryAdd` returns, the queue keeps the books, nothing pending nor being dropped, and
holds no transaction but `tx` that it did not hold before: the transaction must have operations
and a positive fee, and share its address and its hash with no other queued transaction. -/
theorem Books.tryAdd (hb : q.Books ∅ ∅) {view : LedgerView A n} {tx : TxFrame A}
    (hops : 0 < tx.numOperations) (hfee : 0 < tx.fullFee)
    (haddr : ∀ t ∈ q.queued, t.address = tx.address → t = tx)
    (hhash : ∀ t ∈ q.queued, t.fullHash = tx.fullHash → t = tx)
    {r : TransactionQueue A L n × AddResult × Option TxResult} (hr : q.tryAdd view tx = .ok r) :
    r.1.Books ∅ ∅ ∧ ∀ t ∈ r.1.queued, t = tx ∨ t ∈ q.queued := by
  unfold TransactionQueue.tryAdd at hr
  split at hr
  · cases Except.pure_eq_ok.mp hr
    exact ⟨hb, fun _ => .inr⟩
  obtain ⟨⟨q₁, res, txResult, oldTxIter, evs⟩, hcan, hr⟩ := Except.bind_eq_ok.mp hr
  obtain ⟨hb₁, hsub₁, hpend⟩ := hb.canAdd hcan
  dsimp -zeta only at hr
  split at hr
  · cases Except.pure_eq_ok.mp hr
    exact ⟨hb₁, fun t ht => .inr (hsub₁ t ht)⟩
  next hres =>
  obtain ⟨hincl, ⟨l', minFee, hcanTx, rfl⟩, hold⟩ := hpend (not_not.mp hres)
  revert hr
  extract_lets q₂ jp
  intro hr
  obtain ⟨hq₂, hmem₂, hlim₂, hknown₂, hbanned₂, hdepth₂⟩ :=
    ensureAccount_keeps (q := { q with txQueueLimiter := l' }) tx.sourceID
  -- what follows once `tx` is in its account's list, in place of the transactions being dropped
  have hjp : ∀ (q₃ : TransactionQueue A L n) (dropping : Finset (TxFrame A)) (q₄ : TransactionQueue A L n),
      q₃.Books ∅ dropping → (∀ t, t ∈ dropping ↔ t ∈ (q₃.accountState tx.sourceID).transactions) →
      (∀ t ∈ q₃.queued, t ∈ q.queued) → q₄.txQueueLimiter = q₃.txQueueLimiter →
      q₄.knownTxHashes = q₃.knownTxHashes → q₄.bannedTransactions = q₃.bannedTransactions →
      q₄.pendingDepth = q₃.pendingDepth →
      q₄.accountState tx.sourceID = { q₃.accountState tx.sourceID with transactions := [tx] } →
      (∀ b, b ≠ tx.sourceID → q₄.accountState b = q₃.accountState b) →
      (∀ b ∈ q₄.accountStates, b = tx.sourceID ∨ b ∈ q₃.accountStates) →
      jp q₄ = .ok r → r.1.Books ∅ ∅ ∧ ∀ t ∈ r.1.queued, t = tx ∨ t ∈ q.queued := by
    intro q₃ dropping q₄ hb₃ hdrop hsub₃ hlim hknown hbanned hdepth hsrc hother hmem h
    dsimp -zeta only [jp] at h
    revert h
    extract_lets st q₅ feeSource q₆ jp₂
    intro h
    split at h
    · obtain ⟨_, hthrow, -⟩ := Except.bind_eq_ok.mp h
      exact absurd hthrow Except.throw_ne_ok
    simp only [jp₂] at h
    obtain ⟨hb₆, hsub₆⟩ := hb₃.enqueue hdrop hfee (fun t ht => hhash t (hsub₃ t ht)) hlim hknown hbanned
      hdepth hsrc hother hmem
    obtain ⟨q₇, hev, h⟩ := Except.bind_eq_ok.mp h
    obtain ⟨hb₇, hsub₇⟩ := hb₆.evictTransactions (hb.canAddTx_bids hcanTx) hev
    obtain ⟨lim, hadd, h⟩ := Except.bind_eq_ok.mp h
    cases Except.pure_eq_ok.mp h
    have hsub : ∀ t ∈ q₇.queued, t = tx ∨ t ∈ q.queued := fun t ht =>
      (hsub₆ t (hsub₇ t ht)).imp_right (hsub₃ t)
    refine ⟨hb₇.register hops hincl (fun t ht heq => ?_) hadd, hsub⟩
    rcases hsub t ht with rfl | ht
    · rfl
    · exact haddr t ht heq
  rcases hold with ⟨hnone, hnil⟩ | ⟨old, hsome, hlist, -⟩
  · -- `tx` is the first transaction of its account
    dsimp only at hnone
    subst hnone
    simp only [pure_bind] at hr
    have hnil₁ : (({ q with txQueueLimiter := l' } : TransactionQueue A L n).accountState tx.sourceID).transactions =
        [] := hnil
    refine hjp _ ∅ _ hb₁ (fun t => by simp [hnil₁]) (fun t ht => ht) ?_ ?_ ?_ ?_ ?_ (fun b hb => ?_)
      (fun b hb => ?_) hr
    · exact hlim₂
    · exact hknown₂
    · exact hbanned₂
    · exact hdepth₂
    · simp +zetaDelta [hq₂, hnil₁]
    · rw [accountState_setAccountState_of_ne _ _ hb, hq₂]
    · exact ((mem_setAccountState _ _).mp hb).elim .inl (hmem₂ b)
  · -- `tx` replaces the one transaction of its account, which is dropped first
    dsimp only at hsome
    subst hsome
    obtain ⟨q₃, hdropTx, hr⟩ := Except.bind_eq_ok.mp hr
    simp only [pure_bind] at hr
    have hin : tx.sourceID ∈ q.accountStates := by
      by_contra h
      simp [accountState_of_not_mem q h] at hlist
    have hq₂' : q₂ = { q with txQueueLimiter := l' } := if_pos hin
    rw [hq₂'] at hdropTx
    obtain ⟨hb₃, hsame, -, -⟩ :=
      hb₁.prepareDropTransaction (hlist ▸ List.mem_singleton_self old : old ∈ (q.accountState tx.sourceID).transactions)
        hdropTx
    have hlist₃ : (q₃.accountState tx.sourceID).transactions = [old] := (hsame.transactions _).trans hlist
    refine hjp q₃ _ _ hb₃ (fun t => by simp [hlist₃]) (fun t ht => hsame.mem_queued.mp ht) ?_ ?_ ?_ ?_
      ?_ (fun b hb => ?_) (fun b hb => ?_) hr
    iterate 4 rfl
    · simp +zetaDelta [hlist₃]
    · exact accountState_setAccountState_of_ne _ _ hb
    · exact (mem_setAccountState _ _).mp hb

end Add

section Banning

/-- `ban` keeps the books; it drops the queued transactions that `banTxs` lists, releases their
fees, takes them out of the limiter and forgets their hashes, and bans the hashes of `banTxs` in
the newest set. -/
theorem Books.ban (hb : q.Books pending ∅) {banTxs : List (TxFrame A)} (hr : q.ban banTxs = .ok q') :
    q'.Books pending ∅ ∧ q.Drops q' (fun t => !bannedBy banTxs t) ∧
      q'.bannedTransactions = (q.banHashes (banTxs.map TxFrame.fullHash)).bannedTransactions := by
  obtain ⟨hb', hl, hbanned⟩ := hb.ban_lists hr
  exact ⟨hb', hb.drops hb' hl, hbanned⟩

/-- The transaction a new queue takes in is dropped by banning it: its account is empty again, and
its hash is banned in the newest set. -/
theorem ban_tryAdd : ∃ q₁ q' : TransactionQueue ℕ 2 1,
    (TransactionQueue.create 2 3 TxQueueLimiter.sampleLimiterConfig 3 ∅).tryAdd sampleLedgerView
      (SurgePricingPriorityQueue.sampleTx 3 0 7) = .ok (q₁, .ADD_STATUS_PENDING, none) ∧
    q₁.queued = [SurgePricingPriorityQueue.sampleTx 3 0 7] ∧
    q₁.ban [SurgePricingPriorityQueue.sampleTx 3 0 7] = .ok q' ∧ q'.Books ∅ ∅ ∧
    q₁.Drops q' (fun t => !bannedBy [SurgePricingPriorityQueue.sampleTx 3 0 7] t) ∧ q'.queued = [] ∧
    q'.bannedTransactions = [{7}, ∅, ∅] := by
  obtain ⟨q₁, q', h₁, hq₁, h', hq', hbanned⟩ : ∃ q₁ q' : TransactionQueue ℕ 2 1,
      (TransactionQueue.create 2 3 TxQueueLimiter.sampleLimiterConfig 3 ∅).tryAdd sampleLedgerView
        (SurgePricingPriorityQueue.sampleTx 3 0 7) = .ok (q₁, .ADD_STATUS_PENDING, none) ∧
      q₁.queued = [SurgePricingPriorityQueue.sampleTx 3 0 7] ∧
      q₁.ban [SurgePricingPriorityQueue.sampleTx 3 0 7] = .ok q' ∧ q'.queued = [] ∧
      (q₁.banHashes ([SurgePricingPriorityQueue.sampleTx 3 0 7].map TxFrame.fullHash)).bannedTransactions =
        [{7}, ∅, ∅] :=
    ⟨_, _, rfl, by decide, rfl, by decide, by decide⟩
  have hb₁ := ((books_create TxQueueLimiter.sampleLimiterConfig 3 ∅ (by decide) (by decide)
    (fun _ => zero_le_one)).tryAdd (by decide) (by decide) (by decide) (by decide) h₁).1
  obtain ⟨hb', hd, hbanned'⟩ := Books.ban hb₁ h'
  exact ⟨q₁, q', h₁, hq₁, h', hb', hd, hq', hbanned'.trans hbanned⟩

end Banning

end TransactionQueue

end HcnetCore.Herder
