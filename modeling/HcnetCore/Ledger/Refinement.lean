import HcnetCore.Ledger.EntryState
import HcnetCore.Ledger.Overlays

/-! # Nested `LedgerTxn`s refine a stack of overlays

Each `LedgerTxn` of a stack refines the overlay it stands for: at every key the overlay
records what `mEntry` records, except where `updateEntry` annihilated an INIT entry with
a deletion, and there the overlay records a deletion of a key that the parent never had.
The refinement needs the entry-state invariant of `EntryState`, and with it every
operation keeps it; what the innermost `LedgerTxn` shows is then what the overlays show.
The overlay a commit lays down is the child's with its entries stamped, as
`maybeUpdateLastModified` does before `commitChild`.
-/

namespace HcnetCore.Ledger

open OverlayStack

set_option autoImplicit false

variable {Asset K V : Type} [DecidableEq Asset] [DecidableEq K]

theorem refines_at_recordAt {E : Type} {parent : Option E} {old r : Option (LedgerEntryPtr E)}
    {p : LedgerEntryPtr E} (hOld : ∀ q, old = some q → q.Agrees parent) (h : recordAt old p = .ok r) :
    some p.get = r.map LedgerEntryPtr.get ∨ r = none ∧ some p.get = some none ∧ parent = none := by
  cases r with
  | none =>
    obtain ⟨e, rfl, rfl⟩ := recordAt_eq_none h
    exact .inr ⟨rfl, rfl, hOld _ rfl⟩
  | some q =>
    left
    rw [Option.map_some, recordAt_get h]

/-- `self` refines the overlay `o` over a parent showing `parentNewest`: at every key `o`
records what `self` records, or a deletion of a key that `self` annihilated and that the
parent does not have. -/
def Refines (parentNewest : InternalLedgerKey K → Option (InternalLedgerEntry Asset K V))
    (self : Impl Asset K V) (o : Overlay (InternalLedgerKey K) (InternalLedgerEntry Asset K V)) : Prop :=
  ∀ key, o key = (self.entry.lookup key).map LedgerEntryPtr.get ∨
    self.entry.lookup key = none ∧ o key = some none ∧ parentNewest key = none

section Refines

variable {parentNewest : InternalLedgerKey K → Option (InternalLedgerEntry Asset K V)}
  {self self' : Impl Asset K V} {o : Overlay (InternalLedgerKey K) (InternalLedgerEntry Asset K V)}

omit [DecidableEq Asset] in
theorem Refines.getNewestVersion (h : Refines parentNewest self o) (key : InternalLedgerKey K) :
    self.getNewestVersion parentNewest key = (o key).getD (parentNewest key) := by
  rw [Impl.getNewestVersion_eq_elim]
  rcases h key with hKey | ⟨hNone, hDeleted, hParent⟩
  · rw [hKey]
    cases self.entry.lookup key <;> rfl
  · rw [hNone, hDeleted, hParent]
    rfl

omit [DecidableEq Asset] in
theorem Refines.fresh (ledgerSeq : ℕ) (flag : Bool) :
    Refines parentNewest (Impl.fresh ledgerSeq flag : Impl Asset K V) Overlay.empty :=
  fun _ => .inl rfl

omit [DecidableEq Asset] in
theorem Refines.recordedAt (hs : EntriesAgree parentNewest self) (h : Refines parentNewest self o)
    {key : InternalLedgerKey K} {p : LedgerEntryPtr (InternalLedgerEntry Asset K V)}
    (hrec : RecordedAt self self' key p) : Refines parentNewest self' (o.record key p.get) := by
  obtain ⟨hAt, hFrame⟩ := hrec
  intro x
  by_cases hx : x = key
  · subst hx
    rw [Overlay.record_apply_self]
    exact refines_at_recordAt (hs.agrees x) hAt
  · rw [Overlay.record_apply_of_ne o _ hx, hFrame x hx]
    exact h x

theorem Refines.loadAndModify (h : Refines parentNewest self o) {key : InternalLedgerKey K}
    {modify : InternalLedgerEntry Asset K V → InternalLedgerEntry Asset K V} {e : InternalLedgerEntry Asset K V}
    (hload : self.loadAndModify parentNewest key modify = .ok (some e, self')) :
    Refines parentNewest self' (o.record key (some (modify e))) := by
  obtain ⟨-, -, -, hSome⟩ := Impl.loadAndModify_ok parentNewest hload
  obtain ⟨p, hpGet, -, hKey, hFrame⟩ := hSome e rfl
  intro x
  by_cases hx : x = key
  · subst hx
    left
    rw [Overlay.record_apply_self, hKey, Option.map_some, LedgerEntryPtr.get_map, hpGet, Option.map_some]
  · rw [Overlay.record_apply_of_ne o _ hx, hFrame x hx]
    exact h x

omit [DecidableEq Asset] in
theorem Refines.maybeUpdateLastModified {t : TxnOverlay Asset K V} (h : Refines parentNewest self t.overlay)
    (hSeq : t.ledgerSeq = self.ledgerSeq) (hFlag : t.shouldUpdateLastModified = self.shouldUpdateLastModified) :
    Refines parentNewest self.maybeUpdateLastModified t.stamped := by
  intro x
  rw [Impl.maybeUpdateLastModified_lookup, TxnOverlay.stamped, hSeq, hFlag]
  split
  · rw [Overlay.mapVal_apply]
    rcases h x with hKey | ⟨hNone, hDeleted, hParent⟩
    · left
      rw [hKey, Option.map_map, Option.map_map]
      exact Option.map_congr fun p _ => (LedgerEntryPtr.get_map _ p).symm
    · right
      rw [hNone, hDeleted]
      exact ⟨rfl, rfl, hParent⟩
  · exact h x

theorem Refines.commitChild (hs : EntriesAgree parentNewest self) (h : Refines parentNewest self o)
    {child : Impl Asset K V} {oc : Overlay (InternalLedgerKey K) (InternalLedgerEntry Asset K V)}
    (hc : Refines (self.getNewestVersion parentNewest) child oc)
    (hcommit : self.commitChild child = .ok self') : Refines parentNewest self' (o.layOver oc) := by
  obtain ⟨hOut, hIn, -, -⟩ := Impl.commitChild_ok hcommit
  intro x
  rw [Overlay.layOver_apply]
  cases hChild : child.entry.lookup x with
  | none =>
    rw [hOut x (AList.lookup_eq_none.mp hChild)]
    rcases hc x with hKey | ⟨-, hDeleted, hParent⟩
    · rw [hKey, hChild, Option.map_none, Option.none_or]
      exact h x
    · rw [hDeleted, Option.some_or]
      rw [Impl.getNewestVersion_eq_elim] at hParent
      cases hSelf : self.entry.lookup x with
      | none =>
        rw [hSelf] at hParent
        exact .inr ⟨rfl, rfl, hParent⟩
      | some q =>
        rw [hSelf] at hParent
        left
        rw [Option.map_some]
        exact congrArg some hParent.symm
  | some p =>
    have hKey : oc x = some p.get := by
      rcases hc x with hKey | ⟨hNone, -, -⟩
      · rw [hKey, hChild, Option.map_some]
      · rw [hChild] at hNone
        cases hNone
    rw [hKey, Option.some_or]
    exact refines_at_recordAt (hs.agrees x) (hIn x p hChild)

end Refines

/-- Every `LedgerTxn` of the stack refines the overlay at the same depth, under the same
header. -/
def StackRefines (root : Root Asset K V) : List (Impl Asset K V) → List (TxnOverlay Asset K V) → Prop
  | [], [] => True
  | self :: parents, t :: ts =>
    Refines (newest root parents) self t.overlay ∧ t.ledgerSeq = self.ledgerSeq ∧
      t.shouldUpdateLastModified = self.shouldUpdateLastModified ∧ StackRefines root parents ts
  | [], _ :: _ => False
  | _ :: _, [] => False

section StackRefines

variable {root : Root Asset K V}

omit [DecidableEq Asset] in
theorem StackRefines.newest_eq : ∀ {cs : List (Impl Asset K V)} {ts : List (TxnOverlay Asset K V)},
    StackRefines root cs ts → ∀ key, newest root cs key = visible root ts key
  | [], [], _, _ => rfl
  | _ :: _, _ :: _, ⟨h, _, _, hrest⟩, key => by
    rw [newest, h.getNewestVersion, hrest.newest_eq key]
    rfl

omit [DecidableEq Asset] in
theorem StackRefines.length_eq : ∀ {cs : List (Impl Asset K V)} {ts : List (TxnOverlay Asset K V)},
    StackRefines root cs ts → cs.length = ts.length
  | [], [], _ => rfl
  | _ :: _, _ :: _, ⟨_, _, _, hrest⟩ => by
    rw [List.length_cons, List.length_cons, hrest.length_eq]

omit [DecidableEq Asset] in
theorem StackRefines.headerSeq_eq {cs : List (Impl Asset K V)} {ts : List (TxnOverlay Asset K V)}
    (h : StackRefines root cs ts) : overlayHeaderSeq root ts = headerSeq root cs := by
  match cs, ts, h with
  | [], [], _ => rfl
  | _ :: _, _ :: _, ⟨_, hSeq, _, _⟩ => exact hSeq

omit [DecidableEq Asset] in
theorem StackRefines.nil (root : Root Asset K V) : StackRefines root [] [] := trivial

omit [DecidableEq Asset] in
theorem StackRefines.eq_nil {ts : List (TxnOverlay Asset K V)} (h : StackRefines root [] ts) : ts = [] := by
  cases ts with
  | nil => rfl
  | cons _ _ => exact h.elim

omit [DecidableEq Asset] in
theorem StackRefines.exists_cons {self : Impl Asset K V} {parents : List (Impl Asset K V)}
    {ts : List (TxnOverlay Asset K V)} (h : StackRefines root (self :: parents) ts) :
    ∃ t ts', ts = t :: ts' := by
  cases ts with
  | nil => exact h.elim
  | cons t ts' => exact ⟨t, ts', rfl⟩

variable {self : Impl Asset K V} {parents : List (Impl Asset K V)} {t : TxnOverlay Asset K V}
  {ts : List (TxnOverlay Asset K V)}

theorem StackRefines.create (h : StackRefines root (self :: parents) (t :: ts))
    (hs : EntriesAgree (newest root parents) self) (e : InternalLedgerEntry Asset K V) :
    StackRefines root (step root (.create e) (self :: parents))
      (overlayStep TxnOverlay.stamped root (.create e) (t :: ts)) := by
  have hvis := (h.newest_eq e.toKey).symm
  obtain ⟨hr, hSeq, hFlag, hrest⟩ := h
  cases hc : self.create (newest root parents) e with
  | error msg =>
    have hSome := (Impl.create_isError_iff _ self e).mp ⟨msg, hc⟩
    rw [newest] at hvis
    simp only [Ledger.step, overlayStep, hc, hvis, hSome, if_true]
    exact ⟨hr, hSeq, hFlag, hrest⟩
  | ok self' =>
    obtain ⟨hNone, hrec, hSeq', hFlag'⟩ := Impl.create_ok _ hc
    rw [newest] at hvis
    simp only [Ledger.step, overlayStep, hc, hvis, hNone, Option.isSome_none, Bool.false_eq_true,
      if_false]
    exact ⟨hr.recordedAt hs hrec, hSeq.trans hSeq'.symm, hFlag.trans hFlag'.symm, hrest⟩

theorem StackRefines.load (h : StackRefines root (self :: parents) (t :: ts)) (key : InternalLedgerKey K)
    (modify : InternalLedgerEntry Asset K V → InternalLedgerEntry Asset K V)
    (hmodify : ∀ e, (modify e).toKey = e.toKey) :
    StackRefines root (step root (.load key modify hmodify) (self :: parents))
      (overlayStep TxnOverlay.stamped root (.load key modify hmodify) (t :: ts)) := by
  have hvis := (h.newest_eq key).symm
  obtain ⟨hr, hSeq, hFlag, hrest⟩ := h
  rw [newest] at hvis
  obtain ⟨res, self', hl⟩ := Impl.loadAndModify_isOk (newest root parents) self key modify
  obtain ⟨hRes, ⟨hSeq', hFlag'⟩, hNone, -⟩ := Impl.loadAndModify_ok _ hl
  cases res with
  | none =>
    simp only [Ledger.step, overlayStep, hl, hvis, ← hRes]
    rw [hNone rfl]
    exact ⟨hr, hSeq, hFlag, hrest⟩
  | some e =>
    simp only [Ledger.step, overlayStep, hl, hvis, ← hRes]
    exact ⟨hr.loadAndModify hl, hSeq.trans hSeq'.symm, hFlag.trans hFlag'.symm, hrest⟩

theorem StackRefines.erase (h : StackRefines root (self :: parents) (t :: ts))
    (hs : EntriesAgree (newest root parents) self) (key : InternalLedgerKey K) :
    StackRefines root (step root (.erase key) (self :: parents))
      (overlayStep TxnOverlay.stamped root (.erase key) (t :: ts)) := by
  have hvis := (h.newest_eq key).symm
  obtain ⟨hr, hSeq, hFlag, hrest⟩ := h
  rw [newest] at hvis
  cases he : self.erase (newest root parents) key with
  | error msg =>
    -- the overlays do not record the deletion either: the key is not shown, or is a setting
    have hNot : ¬((self.getNewestVersion (newest root parents) key).isSome ∧ key.isConfigSetting = false) := by
      intro hOk
      obtain ⟨self', h'⟩ := (Impl.erase_isOk_iff _ self key).mpr hOk
      rw [he] at h'
      cases h'
    have hCond : ((self.getNewestVersion (newest root parents) key).isSome && !key.isConfigSetting) = false := by
      cases hc : key.isConfigSetting <;> simp_all
    simp only [Ledger.step, overlayStep, he, hvis, hCond, Bool.false_eq_true, if_false]
    exact ⟨hr, hSeq, hFlag, hrest⟩
  | ok self' =>
    obtain ⟨hSome, hConfig, hrec, hSeq', hFlag'⟩ := Impl.erase_ok _ he
    simp only [Ledger.step, overlayStep, he, hvis, hSome, hConfig, Bool.not_false, Bool.and_self,
      if_true]
    exact ⟨hr.recordedAt hs hrec, hSeq.trans hSeq'.symm, hFlag.trans hFlag'.symm, hrest⟩

theorem StackRefines.commit {child : Impl Asset K V} {c : TxnOverlay Asset K V}
    (h : StackRefines root (child :: self :: parents) (c :: t :: ts))
    (hagree : StackAgrees root (child :: self :: parents)) :
    StackRefines root (step root .commit (child :: self :: parents))
      (overlayStep TxnOverlay.stamped root .commit (c :: t :: ts)) := by
  obtain ⟨hcR, hcSeq, hcFlag, hr, hSeq, hFlag, hrest⟩ := h
  obtain ⟨hcA, hs, -⟩ := hagree
  obtain ⟨self', hcommit⟩ := commitChild_isOk_of_agrees hs hcA.maybeUpdateLastModified
  obtain ⟨-, -, hSeq', hFlag'⟩ := Impl.commitChild_ok hcommit
  simp only [Ledger.step, overlayStep, hcommit]
  refine ⟨hr.commitChild hs (hcR.maybeUpdateLastModified hcSeq hcFlag) hcommit, ?_, ?_, hrest⟩
  · rw [hSeq', (Impl.maybeUpdateLastModified_header child).1]
    exact hcSeq
  · rw [hFlag']
    exact hFlag

theorem StackRefines.openChild {cs : List (Impl Asset K V)} {ts : List (TxnOverlay Asset K V)}
    (h : StackRefines root cs ts) (flag : Bool) :
    StackRefines root (step root (.openChild flag) cs)
      (overlayStep TxnOverlay.stamped root (.openChild flag) ts) :=
  ⟨Refines.fresh _ _, h.headerSeq_eq, rfl, h⟩

theorem StackRefines.step {cs : List (Impl Asset K V)} {ts : List (TxnOverlay Asset K V)}
    (h : StackRefines root cs ts) (hagree : StackAgrees root cs) (op : Op Asset K V) :
    StackRefines root (step root op cs) (overlayStep TxnOverlay.stamped root op ts) := by
  -- every operation but `openChild` works on the innermost one or two levels
  rcases cs with _ | ⟨self, parents⟩
  · obtain rfl := h.eq_nil
    cases op with
    | openChild flag => exact h.openChild flag
    | _ => exact trivial
  · obtain ⟨t, ts, rfl⟩ := h.exists_cons
    cases op with
    | openChild flag => exact h.openChild flag
    | create e => exact h.create hagree.1 e
    | load key modify hmodify => exact h.load key modify hmodify
    | erase key => exact h.erase hagree.1 key
    | commit =>
      rcases parents with _ | ⟨self', parents⟩
      · obtain rfl := h.2.2.2.eq_nil
        exact h
      · obtain ⟨t', ts, rfl⟩ := h.2.2.2.exists_cons
        exact h.commit hagree
    | rollback => exact h.2.2.2

end StackRefines

theorem run_eq_run (root : Root Asset K V) (ops : List (Op Asset K V)) (stack : List (Impl Asset K V)) :
    run root ops stack = StackMachine.run (step root) ops stack := rfl

theorem StackRefines.run {root : Root Asset K V} (hroot : Keyed root.getNewestVersion)
    (ops : List (Op Asset K V)) {cs : List (Impl Asset K V)} {ts : List (TxnOverlay Asset K V)}
    (hagree : StackAgrees root cs) (h : StackRefines root cs ts) :
    StackAgrees root (run root ops cs) ∧
      StackRefines root (run root ops cs) (overlayRun TxnOverlay.stamped root ops ts) :=
  StackMachine.run_simulation (Ledger.step root) (overlayStep TxnOverlay.stamped root)
    (fun cs ts => StackAgrees root cs ∧ StackRefines root cs ts)
    (fun op _ _ hcs => ⟨hcs.1.step hroot op, hcs.2.step hcs.1 op⟩) ops cs ts ⟨hagree, h⟩

theorem step_topChange (root : Root Asset K V) (op : Op Asset K V) (cs : List (Impl Asset K V)) :
    StackMachine.TopChange cs (step root op cs) := by
  cases op with
  | openChild flag => exact .push _
  | commit =>
    rcases cs with _ | ⟨child, _ | ⟨self, parents⟩⟩
    · exact .same
    · exact .same
    · simp only [Ledger.step]
      split
      · exact .merge _ _ _ _ rfl
      · exact .same
  | rollback =>
    rcases cs with _ | ⟨self, parents⟩
    · exact .same
    · exact .pop _ _ rfl
  | _ =>
    rcases cs with _ | ⟨self, parents⟩
    · exact .same
    · simp only [Ledger.step]
      split <;> exact .replace _ _ _ rfl

omit [DecidableEq Asset] in
theorem overlayStep_topChange
    (committed : TxnOverlay Asset K V → Overlay (InternalLedgerKey K) (InternalLedgerEntry Asset K V))
    (root : Root Asset K V) (op : Op Asset K V) (ts : List (TxnOverlay Asset K V)) :
    StackMachine.TopChange ts (overlayStep committed root op ts) := by
  cases op with
  | openChild flag => exact .push _
  | commit =>
    rcases ts with _ | ⟨c, _ | ⟨t, ts⟩⟩
    · exact .same
    · exact .same
    · exact .merge _ _ _ _ rfl
  | rollback =>
    rcases ts with _ | ⟨t, ts⟩
    · exact .same
    · exact .pop _ _ rfl
  | _ =>
    rcases ts with _ | ⟨t, ts⟩
    · exact .same
    · simp only [overlayStep]
      split <;> exact .replace _ _ _ rfl

/-- With the overlays of the plain model, where a commit lays down the child's overlay as it
is, the innermost `LedgerTxn` can show another entry than the overlays: a child loads an entry
last modified in ledger 5 and commits it, and its parent now holds the entry stamped with the
header's ledger 10. -/
theorem newest_ne_plain_overlays :
    newest (⟨fun k => if k = .ledgerEntry (.other ()) then some (.ledgerEntry ⟨5, .other () ()⟩)
        else none, 10⟩ : Root Unit Unit Unit)
      (run ⟨fun k => if k = .ledgerEntry (.other ()) then some (.ledgerEntry ⟨5, .other () ()⟩)
          else none, 10⟩
        [.openChild true, .openChild true, .load (.ledgerEntry (.other ())) id (fun _ => rfl), .commit] [])
      (.ledgerEntry (.other ())) ≠
    visible (⟨fun k => if k = .ledgerEntry (.other ()) then some (.ledgerEntry ⟨5, .other () ()⟩)
        else none, 10⟩ : Root Unit Unit Unit)
      (overlayRun TxnOverlay.overlay ⟨fun k => if k = .ledgerEntry (.other ()) then
          some (.ledgerEntry ⟨5, .other () ()⟩) else none, 10⟩
        [.openChild true, .openChild true, .load (.ledgerEntry (.other ())) id (fun _ => rfl), .commit] [])
      (.ledgerEntry (.other ())) := by
  decide

/-- Nested `LedgerTxn`s refine the overlays whose commit lays down the child's entries stamped
with its header's `ledgerSeq`. After any run from no open `LedgerTxn`, the innermost one shows
what the overlays show; `create` throws exactly when the key is shown and `load` returns what is
shown; and opening a child, running operations that keep it open, and rolling it back gives
back the stack of `LedgerTxn`s and the overlays as they were. -/
theorem run_refines_stamped_overlays (root : Root Asset K V) (hroot : Keyed root.getNewestVersion)
    (ops : List (Op Asset K V)) :
    (∀ key, newest root (run root ops []) key =
        visible root (overlayRun TxnOverlay.stamped root ops []) key) ∧
      (∀ self parents, run root ops [] = self :: parents →
        (∀ e, (∃ msg, self.create (newest root parents) e = .error msg) ↔
          (visible root (overlayRun TxnOverlay.stamped root ops []) e.toKey).isSome) ∧
        ∀ key res self', self.load (newest root parents) key = .ok (res, self') →
          res = visible root (overlayRun TxnOverlay.stamped root ops []) key) ∧
      ∀ flag mid, (∀ n, n ≤ mid.length →
          (run root ops []).length < (run root (ops ++ .openChild flag :: mid.take n) []).length) →
        (run root (ops ++ .openChild flag :: mid) []).length = (run root ops []).length + 1 →
        run root (ops ++ .openChild flag :: mid ++ [.rollback]) [] = run root ops [] ∧
          overlayRun TxnOverlay.stamped root (ops ++ .openChild flag :: mid ++ [.rollback]) [] =
            overlayRun TxnOverlay.stamped root ops [] := by
  have hRuns := fun ops => (StackRefines.run hroot ops (StackAgrees.nil root) (StackRefines.nil root)).2
  have h := hRuns ops
  refine ⟨h.newest_eq, fun self parents hcs => ⟨fun e => ?_, fun key res self' hl => ?_⟩,
    fun flag mid hopen hlen => ⟨?_, ?_⟩⟩
  · rw [hcs] at h
    rw [← h.newest_eq, Impl.create_isError_iff]
    rfl
  · rw [hcs] at h
    rw [← h.newest_eq, (Impl.load_ok _ hl).1]
    rfl
  -- the rollback: both machines change only the top of the stack
  · show StackMachine.run (step root) _ [] = StackMachine.run (step root) ops []
    rw [List.append_assoc, List.cons_append, StackMachine.run_append]
    refine StackMachine.run_open_pop (step_topChange root) (StackMachine.above_cons _ [] _)
      (fun _ => rfl) (fun n hn => ?_) ?_
    · have hn' := hopen n hn
      simp only [run_eq_run, StackMachine.run_append] at hn'
      exact hn'
    · simp only [run_eq_run, StackMachine.run_append] at hlen
      exact hlen
  · have hLen : ∀ ops', (overlayRun TxnOverlay.stamped root ops' []).length = (run root ops' []).length :=
      fun ops' => (hRuns ops').length_eq.symm
    rw [overlayRun, overlayRun, List.append_assoc, List.cons_append, StackMachine.run_append]
    refine StackMachine.run_open_pop (overlayStep_topChange _ root) (StackMachine.above_cons _ [] _)
      (fun _ => rfl) (fun n hn => ?_) ?_
    · have hn' := hopen n hn
      rw [← hLen, ← hLen] at hn'
      simp only [overlayRun, StackMachine.run_append] at hn'
      exact hn'
    · rw [← hLen, ← hLen] at hlen
      simp only [overlayRun, StackMachine.run_append] at hlen
      exact hlen

/-- Over a root that holds one entry, a child that erases it is rolled back. -/
theorem run_refines_stamped_overlays_erase :
    Keyed (⟨fun k => if k = .internal () then some (.internal () ()) else none, 0⟩ :
        Root Unit Unit Unit).getNewestVersion ∧
      run ⟨fun k => if k = .internal () then some (.internal () ()) else none, 0⟩
          ([.openChild true] ++ .openChild true :: [.erase (.internal ())] ++ [.rollback]) [] =
        run (⟨fun k => if k = .internal () then some (.internal () ()) else none, 0⟩ :
          Root Unit Unit Unit) [.openChild true] [] := by
  have hroot : Keyed (⟨fun k => if k = .internal () then some (.internal () ()) else none, 0⟩ :
      Root Unit Unit Unit).getNewestVersion := by
    intro key e he
    cases key with
    | internal k =>
      cases he
      rfl
    | ledgerEntry k => cases he
  exact ⟨hroot, ((run_refines_stamped_overlays _ hroot [.openChild true]).2.2 true
    [.erase (.internal ())] (fun n hn => by rcases Nat.le_one_iff_eq_zero_or_eq_one.mp hn with rfl | rfl <;> decide)
    (by decide)).1⟩

end HcnetCore.Ledger
