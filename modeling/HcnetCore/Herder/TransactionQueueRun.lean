import HcnetCore.Herder.TransactionQueueAdd

/-! # The books of the transaction queue over whole runs

The herder calls the queue to add a transaction, to remove those a closed ledger applied, to ban,
and, at each ledger close, to shift. `removeApplied` drops the applied transactions and bans their
hashes; `shift` ages every account and, at the pending depth, drops and bans its transactions.
Both keep the books and only take transactions out of the queue. Aging an account to the pending
depth breaks the books for a moment: the drops that follow are proved one ledger deeper, where the
books hold, since none of them reads the depth (`Books.dropAged`). Every run of the calls from a
new queue then keeps the books, when the transactions offered have operations and a positive fee
and are told apart by their addresses and by their hashes (`books_run`).
-/

namespace HcnetCore.Herder

set_option autoImplicit false

variable {A : Type} {L n : ℕ}

namespace TransactionQueue

variable [DecidableEq A] {q q' : TransactionQueue A L n} {pending dropping : Finset (TxFrame A)}

theorem queued_sub_of_transactions_sub (acct : A)
    (hacct : ∀ t ∈ (q'.accountState acct).transactions, t ∈ (q.accountState acct).transactions)
    (hother : ∀ b, b ≠ acct → (q'.accountState b).transactions = (q.accountState b).transactions) :
    ∀ t ∈ q'.queued, t ∈ q.queued := fun t ht => by
  obtain ⟨b, hbt⟩ := (mem_queued _).mp ht
  by_cases hba : b = acct
  · subst hba
    exact (mem_queued q).mpr ⟨b, hacct t hbt⟩
  · exact (mem_queued q).mpr ⟨b, hother b hba ▸ hbt⟩

section Depth

theorem releaseFee_withDepth (tx : TxFrame A) (d : ℕ) :
    ({ q with pendingDepth := d } : TransactionQueue A L n).releaseFeeMaybeEraseAccountState tx =
      (q.releaseFeeMaybeEraseAccountState tx).map fun q' => { q' with pendingDepth := d } := by
  unfold releaseFeeMaybeEraseAccountState
  dsimp only
  cases q.accountStates.lookup tx.feeSourceID with
  | none => rfl
  | some st =>
    dsimp only
    split_ifs <;> rfl

theorem prepareDropTransaction_withDepth (acct : A) (tx : TxFrame A) (d : ℕ) :
    ({ q with pendingDepth := d } : TransactionQueue A L n).prepareDropTransaction acct tx =
      (q.prepareDropTransaction acct tx).map fun q' => { q' with pendingDepth := d } := by
  unfold prepareDropTransaction
  simp only [setAccountState_txQueueLimiter]
  cases q.txQueueLimiter.removeTransaction tx with
  | error e => rfl
  | ok lim =>
    exact releaseFee_withDepth (q := { q.setAccountState acct { q.accountState acct with
      queueSizeOps := (q.accountState acct).queueSizeOps - tx.numOperations } with
        txQueueLimiter := lim, knownTxHashes := q.knownTxHashes.erase tx.fullHash }) tx d

theorem keepTransactions_withDepth (acct : A) (ts : List (TxFrame A)) (d : ℕ) :
    ({ q with pendingDepth := d } : TransactionQueue A L n).keepTransactions acct ts =
      { q.keepTransactions acct ts with pendingDepth := d } := by
  have hst : ({ q with pendingDepth := d } : TransactionQueue A L n).accountState acct = q.accountState acct := rfl
  unfold keepTransactions
  dsimp only
  rw [hst]
  split_ifs <;> rfl

theorem Books.of_ages (hb : q.Books pending dropping)
    (hst : ∀ b, (q'.accountState b).transactions = (q.accountState b).transactions ∧
      (q'.accountState b).totalFees = (q.accountState b).totalFees ∧
      (q'.accountState b).queueSizeOps = (q.accountState b).queueSizeOps)
    (hmem : ∀ b, b ∈ q'.accountStates ↔ b ∈ q.accountStates)
    (hlim : q'.txQueueLimiter = q.txQueueLimiter) (hknown : q'.knownTxHashes = q.knownTxHashes)
    (hbanned : q'.bannedTransactions = q.bannedTransactions)
    (hage_zero : ∀ b, (q'.accountState b).transactions = [] → (q'.accountState b).age = 0)
    (hage_lt : ∀ b, (q'.accountState b).age < q'.pendingDepth) :
    q'.Books pending dropping := by
  have hq : ∀ t, t ∈ q'.queued ↔ t ∈ q.queued := fun t => by
    simp only [mem_queued, fun b => (hst b).1]
  have hfin : q'.queued.toFinset = q.queued.toFinset := by
    ext t
    simp [hq]
  refine ⟨hlim ▸ hb.limiter, hlim ▸ hb.resources_nonneg, fun b t ht => hb.sourceID_eq b t ((hst b).1 ▸ ht),
    fun b => (hst b).1 ▸ hb.length_le b, hage_zero, hage_lt, hbanned ▸ hb.banned_ne_nil,
    fun t ht => hb.fullFee_pos t ((hq t).mp ht),
    fun t ht t' ht' => hb.hash_injective t ((hq t).mp ht) t' ((hq t').mp ht'),
    fun t ht => (hq t).mpr (hb.pending_sub t ht), fun t ht => (hq t).mpr (hb.dropping_sub t ht),
    fun t => ?_, fun h t => ?_, fun b => ?_, fun b => ?_, fun b hb' => ?_⟩
  · rw [hlim, hb.mem_stackForTx, hq]
  · rw [hknown, hb.lookup_knownTxHashes, hq]
  · rw [(hst b).2.1, hb.totalFees_eq, hfin]
  · rw [(hst b).2.2, hb.queueSizeOps_eq, (hst b).1]
  · rw [(hst b).1, (hst b).2.1]
    exact hb.present b ((hmem b).mp hb')

theorem Books.setAge (hb : q.Books pending dropping) {acct : A} (hacct : acct ∈ q.accountStates) {d a : ℕ}
    (hd : q.pendingDepth ≤ d) (ha : a < d) (hnil : (q.accountState acct).transactions = [] → a = 0) :
    ({ q.setAccountState acct { q.accountState acct with age := a } with pendingDepth := d } :
      TransactionQueue A L n).Books pending dropping := by
  set q₁ := q.setAccountState acct { q.accountState acct with age := a }
  have hst : ∀ b, q₁.accountState b = if b = acct then { q.accountState acct with age := a } else q.accountState b := by
    intro b
    by_cases hb' : b = acct
    · subst hb'
      simp [q₁]
    · simp [q₁, hb']
  refine hb.of_ages (fun b => ?_) (fun b => ?_) rfl rfl rfl
    (fun b hnil' => ?_) (fun b => ?_)
  · show (q₁.accountState b).transactions = _ ∧ (q₁.accountState b).totalFees = _ ∧ (q₁.accountState b).queueSizeOps = _
    rw [hst]
    split <;> simp_all
  · show b ∈ q₁.accountStates ↔ _
    rw [mem_setAccountState]
    exact ⟨fun h => h.elim (· ▸ hacct) id, .inr⟩
  · change (q₁.accountState b).transactions = [] at hnil'
    show (q₁.accountState b).age = 0
    rw [hst] at hnil' ⊢
    split at hnil' <;> simp_all [hb.age_zero]
  · show (q₁.accountState b).age < d
    rw [hst]
    split
    · exact ha
    · exact (hb.age_lt b).trans_le hd

theorem Books.of_withDepth {d : ℕ} (hb : ({ q with pendingDepth := d } : TransactionQueue A L n).Books pending dropping)
    (hage : ∀ b, (q.accountState b).age < q.pendingDepth) : q.Books pending dropping :=
  hb.of_ages (fun _ => ⟨rfl, rfl, rfl⟩) (fun _ => Iff.rfl) rfl rfl rfl hb.age_zero hage

end Depth

section Shift

theorem Books.dropAged {acct : A} {ts : List (TxFrame A)} {q₂ : TransactionQueue A L n}
    (hb : ({ q with pendingDepth := q.pendingDepth + 1 } : TransactionQueue A L n).Books ∅ ∅)
    (hts : (q.accountState acct).transactions = ts)
    (hage : ∀ b, b ≠ acct → (q.accountState b).age < q.pendingDepth) (hpos : 0 < q.pendingDepth)
    (hr : ts.foldlM (fun q toBan => do
        let q ← q.prepareDropTransaction acct toBan
        pure (q.banHashes [toBan.fullHash])) q = .ok q₂) :
    (q₂.keepTransactions acct []).Books ∅ ∅ ∧ ∀ t ∈ (q₂.keepTransactions acct []).queued, t ∈ q.queued := by
  set f := fun (q : TransactionQueue A L n) (toBan : TxFrame A) => do
    let q ← q.prepareDropTransaction acct toBan
    pure (q.banHashes [toBan.fullHash])
  set d := q.pendingDepth
  -- the fold does not read the depth, so it runs the same one ledger deeper
  have hf : ∀ w x, f { w with pendingDepth := d + 1 } x = (f w x).map fun w => { w with pendingDepth := d + 1 } := by
    intro w x
    simp only [f]
    rw [prepareDropTransaction_withDepth]
    cases w.prepareDropTransaction acct x <;> rfl
  have hfold : ts.foldlM f { q with pendingDepth := d + 1 } = .ok { q₂ with pendingDepth := d + 1 } := by
    rw [Except.foldlM_map_comm f _ hf, hr]
    rfl
  have hstep : ∀ {w w' : TransactionQueue A L n} {dropping : Finset (TxFrame A)} {tx : TxFrame A},
      w.Books ∅ dropping → tx ∈ (w.accountState acct).transactions → f w tx = .ok w' →
        w'.Books ∅ (insert tx dropping) ∧ w.SameLists w' ∧ tx ∉ (∅ : Finset (TxFrame A)) := fun hb htx h => by
    obtain ⟨w₁, h₁, h⟩ := Except.bind_eq_ok.mp h
    cases Except.pure_eq_ok.mp h
    obtain ⟨hb₁, hs, hp, -⟩ := hb.prepareDropTransaction htx h₁
    exact ⟨hb₁.banHashes _, hs.trans ⟨fun _ => rfl, fun _ => rfl, rfl⟩, hp⟩
  obtain ⟨hb₂, hs₂, -⟩ := Books.foldlM_drop hstep ts hb (fun t ht => hts ▸ ht) hfold
  have hts₂ : (q₂.accountState acct).transactions = ts := (hs₂.transactions acct).trans hts
  have hd₂ : q₂.pendingDepth = d := (foldlM_dropBan ts hr).2.2
  have hkeep : (({ q₂ with pendingDepth := d + 1 } : TransactionQueue A L n).keepTransactions acct []).Books ∅ ∅ :=
    hb₂.keepTransactions (fun t ht => ?_) (fun t ht => ?_) ?_
  rotate_left
  · show t ∈ (q₂.accountState acct).transactions
    rw [hts₂]
    simpa using ht
  · simp
  · show [] = (q₂.accountState acct).transactions.filter _
    rw [hts₂]
    exact (List.filter_eq_nil_iff.mpr fun t ht => by simpa using ht).symm
  rw [keepTransactions_withDepth] at hkeep
  refine ⟨hkeep.of_withDepth fun b => ?_, fun t ht => ?_⟩
  · rw [(keepTransactions_keeps q₂ []).2.2.2, hd₂]
    by_cases hba : b = acct
    · subst hba
      rw [keepTransactions_age]
      exact hpos
    · rw [keepTransactions_accountState_of_ne q₂ _ hba]
      exact (hs₂.age b).trans_lt (hage b hba)
  · refine queued_sub_of_transactions_sub acct (fun t ht => by simp at ht) (fun b hba => ?_) t ht
    rw [keepTransactions_accountState_of_ne q₂ _ hba]
    exact hs₂.transactions b

theorem Books.shiftAccount (hb : q.Books ∅ ∅) {acct : A} (hr : q.shiftAccount acct = .ok q') :
    q'.Books ∅ ∅ ∧ ∀ t ∈ q'.queued, t ∈ q.queued := by
  unfold TransactionQueue.shiftAccount at hr
  split at hr
  · cases Except.pure_eq_ok.mp hr
    exact ⟨hb, fun _ => id⟩
  next st hst =>
  have hacct : acct ∈ q.accountStates := AList.lookup_isSome.mp (by simp [hst])
  obtain rfl : q.accountState acct = st := by simp [accountState, hst]
  have hpos : 0 < q.pendingDepth := (Nat.zero_le _).trans_lt (hb.age_lt acct)
  have hsame : ∀ a, ∀ t ∈ (q.setAccountState acct { q.accountState acct with age := a }).queued, t ∈ q.queued :=
    fun a => queued_sub_of_transactions_sub acct (fun t ht => by simpa using ht) fun b hba => by simp [hba]
  by_cases hnil : (q.accountState acct).transactions = []
  · have hage0 := hb.age_zero acct hnil
    simp only [ne_eq, hnil, not_true_eq_false, ↓reduceIte, setAccountState_pendingDepth, hage0] at hr
    rw [if_neg hpos.ne'] at hr
    cases Except.pure_eq_ok.mp hr
    exact ⟨hb.setAge hacct le_rfl (hb.age_lt acct) (fun _ => hage0), hsame _⟩
  · simp only [ne_eq, hnil, not_false_eq_true, ↓reduceIte, setAccountState_pendingDepth] at hr
    by_cases hd : q.pendingDepth = (q.accountState acct).age + 1
    · rw [if_pos hd] at hr
      obtain ⟨q₂, hfold, hr⟩ := Except.bind_eq_ok.mp hr
      cases Except.pure_eq_ok.mp hr
      have hb₁ := hb.setAge hacct (d := q.pendingDepth + 1) (a := (q.accountState acct).age + 1) (by omega)
        (by omega) (fun h => absurd h hnil)
      obtain ⟨hb', hsub⟩ := Books.dropAged hb₁ (by simp) (fun b hba => by simpa [hba] using hb.age_lt b)
        (by simpa using hpos) hfold
      exact ⟨hb', fun t ht => hsame _ t (hsub t ht)⟩
    · rw [if_neg hd] at hr
      cases Except.pure_eq_ok.mp hr
      exact ⟨hb.setAge hacct le_rfl (by have := hb.age_lt acct; omega) (fun h => absurd h hnil), hsame _⟩

theorem Books.shift (hb : q.Books ∅ ∅) (hr : q.shift = .ok q') :
    q'.Books ∅ ∅ ∧ ∀ t ∈ q'.queued, t ∈ q.queued := by
  unfold TransactionQueue.shift at hr
  obtain ⟨q₂, hfold, hr⟩ := Except.bind_eq_ok.mp hr
  cases Except.pure_eq_ok.mp hr
  have hb₀ : ({ q with bannedTransactions := ∅ :: q.bannedTransactions.dropLast } : TransactionQueue A L n).Books ∅ ∅ :=
    { hb with banned_ne_nil := List.cons_ne_nil _ _ }
  -- each account in turn, whether or not an earlier turn erased its state
  have hstep : ∀ (w : TransactionQueue A L n) (acct : A) (w' : TransactionQueue A L n),
      (w.Books ∅ ∅ ∧ ∀ t ∈ w.queued, t ∈ q.queued) → w.shiftAccount acct = .ok w' →
        w'.Books ∅ ∅ ∧ ∀ t ∈ w'.queued, t ∈ q.queued := by
    rintro w acct w' ⟨hbw, hsubw⟩ h
    obtain ⟨hb', hsub'⟩ := hbw.shiftAccount h
    exact ⟨hb', fun t ht => hsubw t (hsub' t ht)⟩
  obtain ⟨hb₂, hsub₂⟩ := Except.foldlM_induction _ (fun w acct w' _ => hstep w acct w') ⟨hb₀, fun _ => id⟩ hfold
  exact ⟨{ hb₂ with limiter := hb₂.limiter.resetEvictionState }, hsub₂⟩

end Shift

section RemoveApplied

theorem Books.removeAppliedAccount (hb : q.Books ∅ ∅) {acct : A} {seq : ℤ}
    (hr : q.removeAppliedAccount acct seq = .ok q') : q'.Books ∅ ∅ ∧ ∀ t ∈ q'.queued, t ∈ q.queued := by
  unfold TransactionQueue.removeAppliedAccount at hr
  split at hr
  · cases Except.pure_eq_ok.mp hr
    exact ⟨hb, fun _ => id⟩
  next st hst =>
  have hacct : acct ∈ q.accountStates := AList.lookup_isSome.mp (by simp [hst])
  obtain rfl : q.accountState acct = st := by simp [accountState, hst]
  split at hr
  · cases Except.pure_eq_ok.mp hr
    exact ⟨hb, fun _ => id⟩
  split at hr
  · -- the account is young again, and its transactions up to `seq` go
    have hb₁ : (q.setAccountState acct { q.accountState acct with age := 0 }).Books ∅ ∅ :=
      hb.setAge hacct le_rfl ((Nat.zero_le _).trans_lt (hb.age_lt acct)) fun _ => rfl
    obtain ⟨hb', hother, hlist⟩ := hb₁.dropTransactions (Nat.zero_le _) hr
    refine ⟨hb', queued_sub_of_transactions_sub acct (fun t ht => ?_) fun b hba => ?_⟩
    · rw [hlist, List.take_zero, List.nil_append] at ht
      simpa using List.mem_of_mem_drop ht
    · rw [hother b hba]
      simp [hba]
  · cases Except.pure_eq_ok.mp hr
    exact ⟨hb, fun _ => id⟩

theorem Books.removeApplied (hb : q.Books ∅ ∅) {appliedTxs : List (TxFrame A)}
    (hr : q.removeApplied appliedTxs = .ok q') : q'.Books ∅ ∅ ∧ ∀ t ∈ q'.queued, t ∈ q.queued := by
  unfold TransactionQueue.removeApplied at hr
  obtain ⟨q₂, hfold, hr⟩ := Except.bind_eq_ok.mp hr
  cases Except.pure_eq_ok.mp hr
  have hstep : ∀ (w : TransactionQueue A L n) (acct : A) (seq : ℤ) (w' : TransactionQueue A L n),
      (w.Books ∅ ∅ ∧ ∀ t ∈ w.queued, t ∈ q.queued) → w.removeAppliedAccount acct seq = .ok w' →
        w'.Books ∅ ∅ ∧ ∀ t ∈ w'.queued, t ∈ q.queued := by
    rintro w acct seq w' ⟨hbw, hsubw⟩ h
    obtain ⟨hb', hsub'⟩ := hbw.removeAppliedAccount h
    exact ⟨hb', fun t ht => hsubw t (hsub' t ht)⟩
  obtain ⟨hb₂, hsub₂⟩ := Except.foldlM_induction _ (fun w acct w' _ => hstep w acct _ w') ⟨hb, fun _ => id⟩ hfold
  exact ⟨hb₂.banHashes _, hsub₂⟩

end RemoveApplied

section Run

variable [NeZero L]

/-- The calls the herder makes on the queue. -/
inductive Call (A : Type) (n : ℕ)
  | tryAdd (view : LedgerView A n) (tx : TxFrame A)
  | removeApplied (appliedTxs : List (TxFrame A))
  | ban (banTxs : List (TxFrame A))
  | shift

def Call.apply : Call A n → TransactionQueue A L n → Except String (TransactionQueue A L n)
  | .tryAdd view tx, q => Prod.fst <$> q.tryAdd view tx
  | .removeApplied appliedTxs, q => q.removeApplied appliedTxs
  | .ban banTxs, q => q.ban banTxs
  | .shift, q => q.shift

/-- The transactions a call offers the queue. -/
def Call.offered : Call A n → List (TxFrame A)
  | .tryAdd _ tx => [tx]
  | _ => []

def run (calls : List (Call A n)) : Except String (TransactionQueue A L n) :=
  calls.foldlM (fun q c => c.apply q) q

theorem Books.apply (hb : q.Books ∅ ∅) {c : Call A n}
    (hc : ∀ tx ∈ c.offered, 0 < tx.numOperations ∧ 0 < tx.fullFee)
    (haddr : ∀ tx ∈ c.offered, ∀ t ∈ q.queued, t.address = tx.address → t = tx)
    (hhash : ∀ tx ∈ c.offered, ∀ t ∈ q.queued, t.fullHash = tx.fullHash → t = tx)
    (hr : c.apply q = .ok q') : q'.Books ∅ ∅ ∧ ∀ t ∈ q'.queued, t ∈ c.offered ∨ t ∈ q.queued := by
  cases c with
  | tryAdd view tx =>
    obtain ⟨r, hr', rfl⟩ := Except.map_eq_ok.mp hr
    have htx : tx ∈ (Call.tryAdd view tx : Call A n).offered := List.mem_singleton_self tx
    obtain ⟨hb', hsub⟩ := hb.tryAdd (hc tx htx).1 (hc tx htx).2 (haddr tx htx) (hhash tx htx) hr'
    exact ⟨hb', fun t ht => (hsub t ht).imp (fun (h : t = tx) => h ▸ htx) id⟩
  | removeApplied appliedTxs =>
    obtain ⟨hb', hsub⟩ := hb.removeApplied hr
    exact ⟨hb', fun t ht => .inr (hsub t ht)⟩
  | ban banTxs =>
    obtain ⟨hb', hl, -⟩ := hb.ban_lists hr
    exact ⟨hb', fun t ht => .inr (queued_sub_of_filter hl t ht)⟩
  | shift =>
    obtain ⟨hb', hsub⟩ := hb.shift hr
    exact ⟨hb', fun t ht => .inr (hsub t ht)⟩

/-- Every run of the herder's calls from a new queue that returns keeps the books: each account
holds at most one transaction, owes the fees of the transactions it pays for and counts the
operations of its own, is kept while it has either, and is younger than the pending depth; the
limiter and the known hashes hold exactly the queued transactions. The transactions offered must
have operations and a positive fee, and be told apart by their addresses and by their hashes. -/
theorem books_run {pendingDepth banDepth : ℕ} (laneConfig : SurgePricingLaneConfig A L n) (seed : ℕ)
    (filteredTypes : Finset ℕ) (hdepth : 0 < pendingDepth) (hban : 0 < banDepth)
    (hres : ∀ tx, 0 ≤ laneConfig.getTxResources tx) {calls : List (Call A n)}
    (hcalls : ∀ tx ∈ calls.flatMap Call.offered, 0 < tx.numOperations ∧ 0 < tx.fullFee)
    (haddr : ∀ tx ∈ calls.flatMap Call.offered, ∀ tx' ∈ calls.flatMap Call.offered,
      tx.address = tx'.address → tx = tx')
    (hhash : ∀ tx ∈ calls.flatMap Call.offered, ∀ tx' ∈ calls.flatMap Call.offered,
      tx.fullHash = tx'.fullHash → tx = tx')
    {q : TransactionQueue A L n}
    (hr : (TransactionQueue.create pendingDepth banDepth laneConfig seed filteredTypes).run calls = .ok q) :
    q.Books ∅ ∅ := by
  -- the queue only ever holds transactions that were offered
  have hstep : ∀ (w : TransactionQueue A L n) c w', c ∈ calls →
      (w.Books ∅ ∅ ∧ ∀ t ∈ w.queued, t ∈ calls.flatMap Call.offered) → c.apply w = .ok w' →
        w'.Books ∅ ∅ ∧ ∀ t ∈ w'.queued, t ∈ calls.flatMap Call.offered := by
    rintro w c w' hc ⟨hbw, hsubw⟩ h
    have hoff : ∀ tx ∈ c.offered, tx ∈ calls.flatMap Call.offered := fun tx htx =>
      List.mem_flatMap.mpr ⟨c, hc, htx⟩
    obtain ⟨hb', hsub'⟩ := hbw.apply (fun tx htx => hcalls tx (hoff tx htx))
      (fun tx htx t ht heq => haddr t (hsubw t ht) tx (hoff tx htx) heq)
      (fun tx htx t ht heq => hhash t (hsubw t ht) tx (hoff tx htx) heq) h
    exact ⟨hb', fun t ht => (hsub' t ht).elim (hoff t) (hsubw t)⟩
  have hnil : (TransactionQueue.create pendingDepth banDepth laneConfig seed filteredTypes :
      TransactionQueue A L n).queued = [] := by
    simp [queued, TransactionQueue.create]
  exact (Except.foldlM_induction _ hstep
    ⟨books_create laneConfig seed filteredTypes hdepth hban hres, fun t ht => by simp [hnil] at ht⟩ hr).1

theorem books_run_sampleCalls : ∃ q : TransactionQueue ℕ 2 1,
    (TransactionQueue.create 2 3 TxQueueLimiter.sampleLimiterConfig 3 ∅).run
      [.tryAdd sampleLedgerView (SurgePricingPriorityQueue.sampleTx 3 0 7),
        .tryAdd sampleLedgerView (SurgePricingPriorityQueue.sampleTx 5 1 8),
        .removeApplied [SurgePricingPriorityQueue.sampleTx 5 1 8],
        .tryAdd sampleLedgerView (SurgePricingPriorityQueue.sampleTx 4 2 9),
        .ban [SurgePricingPriorityQueue.sampleTx 4 2 9], .shift] = .ok q ∧
    q.queued = [SurgePricingPriorityQueue.sampleTx 3 0 7] ∧ q.Books ∅ ∅ := by
  obtain ⟨q, hr, hq⟩ : ∃ q : TransactionQueue ℕ 2 1,
      (TransactionQueue.create 2 3 TxQueueLimiter.sampleLimiterConfig 3 ∅).run
        [.tryAdd sampleLedgerView (SurgePricingPriorityQueue.sampleTx 3 0 7),
          .tryAdd sampleLedgerView (SurgePricingPriorityQueue.sampleTx 5 1 8),
          .removeApplied [SurgePricingPriorityQueue.sampleTx 5 1 8],
          .tryAdd sampleLedgerView (SurgePricingPriorityQueue.sampleTx 4 2 9),
          .ban [SurgePricingPriorityQueue.sampleTx 4 2 9], .shift] = .ok q ∧
      q.queued = [SurgePricingPriorityQueue.sampleTx 3 0 7] :=
    ⟨_, rfl, by decide⟩
  exact ⟨q, hr, hq, books_run TxQueueLimiter.sampleLimiterConfig 3 ∅ (by decide) (by decide)
    (fun _ => zero_le_one) (by decide) (by decide) (by decide) hr⟩

end Run

end TransactionQueue

end HcnetCore.Herder
