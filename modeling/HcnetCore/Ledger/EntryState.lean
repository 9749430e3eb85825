import HcnetCore.Ledger.Pointwise

/-! # The tag of every recorded entry agrees with the parent

An entry that a `LedgerTxn` records is INIT only where its parent has no newest
version, and LIVE or DELETED only where it has one. Every operation keeps this, for
every `LedgerTxn` of the stack, and it is what `commitChild`, `getChanges` and
`getAllEntries` rely on: the merges they make never throw and their assertions hold.
-/

namespace HcnetCore.Ledger

set_option autoImplicit false

variable {Asset K V : Type} [DecidableEq Asset] [DecidableEq K]

namespace LedgerEntryPtr

variable {E : Type}

/-- INIT only where the parent has no version; LIVE and DELETED only where it has one. -/
def Agrees (parent : Option E) : LedgerEntryPtr E → Prop
  | .init _ => parent = none
  | .live _ => parent.isSome
  | .deleted => parent.isSome

@[simp] theorem agrees_map (f : E → E) (parent : Option E) (p : LedgerEntryPtr E) :
    (p.map f).Agrees parent ↔ p.Agrees parent := by
  cases p <;> rfl

theorem recordAt_agrees {parent : Option E} {old : Option (LedgerEntryPtr E)} {p : LedgerEntryPtr E}
    (hOld : ∀ q, old = some q → q.Agrees parent) (hNew : p.Agrees (old.elim parent get)) :
    ∃ r, recordAt old p = .ok r ∧ ∀ q, r = some q → q.Agrees parent := by
  rcases old with _ | q
  · exact ⟨some p, rfl, fun q hq => by cases hq; exact hNew⟩
  · have hq := hOld q rfl
    cases q <;> cases p <;>
      simp_all [Agrees, recordAt, mergeFrom, isDeleted, isInit, getState, Functor.map, Except.map,
        pure, Except.pure]

theorem Agrees.states {parent : Option E} {p : LedgerEntryPtr E} (h : p.Agrees parent) :
    (p.getState = .init → parent = none ∧ p.get.isSome) ∧
      (p.getState = .live → parent.isSome ∧ p.get.isSome) ∧
      (p.getState = .deleted → parent.isSome ∧ p.get = none) := by
  cases p <;> simp_all [Agrees, getState]

end LedgerEntryPtr

omit [DecidableEq Asset] in
theorem Impl.getNewestVersion_eq_elim (parentNewest : InternalLedgerKey K → Option (InternalLedgerEntry Asset K V))
    (self : Impl Asset K V) (key : InternalLedgerKey K) :
    self.getNewestVersion parentNewest key = (self.entry.lookup key).elim (parentNewest key) LedgerEntryPtr.get := by
  unfold Impl.getNewestVersion
  cases self.entry.lookup key <;> rfl

/-- Every entry a `LedgerTxn` records agrees with the parent's newest version of its key,
and holds an entry with that key. -/
structure EntriesAgree (parentNewest : InternalLedgerKey K → Option (InternalLedgerEntry Asset K V))
    (ltx : Impl Asset K V) : Prop where
  agrees : ∀ key p, ltx.entry.lookup key = some p → p.Agrees (parentNewest key)
  keyOf : ∀ key p e, ltx.entry.lookup key = some p → p.get = some e → e.toKey = key

/-- The newest versions a map shows are entries under their own keys. -/
def Keyed (newestOf : InternalLedgerKey K → Option (InternalLedgerEntry Asset K V)) : Prop :=
  ∀ key e, newestOf key = some e → e.toKey = key

section Agree

variable {parentNewest : InternalLedgerKey K → Option (InternalLedgerEntry Asset K V)}
  {self self' : Impl Asset K V}

omit [DecidableEq Asset] in
theorem EntriesAgree.fresh (ledgerSeq : ℕ) (flag : Bool) :
    EntriesAgree parentNewest (Impl.fresh ledgerSeq flag : Impl Asset K V) :=
  ⟨fun _ _ h => by simp [Impl.fresh] at h, fun _ _ _ h => by simp [Impl.fresh] at h⟩

omit [DecidableEq Asset] in
theorem EntriesAgree.keyed (hs : EntriesAgree parentNewest self) (hpn : Keyed parentNewest) :
    Keyed (self.getNewestVersion parentNewest) := by
  intro key e he
  rw [Impl.getNewestVersion_eq_elim] at he
  cases hLookup : self.entry.lookup key with
  | none =>
    rw [hLookup] at he
    exact hpn key e he
  | some p =>
    rw [hLookup] at he
    exact hs.keyOf key p e hLookup he

omit [DecidableEq Asset] in
theorem EntriesAgree.recordedAt (hs : EntriesAgree parentNewest self) {key : InternalLedgerKey K}
    {p : LedgerEntryPtr (InternalLedgerEntry Asset K V)} (hrec : RecordedAt self self' key p)
    (hp : p.Agrees (self.getNewestVersion parentNewest key))
    (hkey : ∀ e, p.get = some e → e.toKey = key) : EntriesAgree parentNewest self' := by
  obtain ⟨hAt, hFrame⟩ := hrec
  rw [Impl.getNewestVersion_eq_elim] at hp
  obtain ⟨r, hr, hrAgrees⟩ := LedgerEntryPtr.recordAt_agrees (hs.agrees key) hp
  rw [hr] at hAt
  cases hAt
  constructor
  · intro x q hq
    by_cases hx : x = key
    · subst hx
      exact hrAgrees q hq
    · rw [hFrame x hx] at hq
      exact hs.agrees x q hq
  · intro x q e hq he
    by_cases hx : x = key
    · subst hx
      rw [recordAt_get (hr.trans (congrArg Except.ok hq))] at he
      exact hkey e he
    · rw [hFrame x hx] at hq
      exact hs.keyOf x q e hq he

theorem EntriesAgree.create (hs : EntriesAgree parentNewest self) {e : InternalLedgerEntry Asset K V}
    (h : self.create parentNewest e = .ok self') : EntriesAgree parentNewest self' := by
  obtain ⟨hNone, hrec, -⟩ := Impl.create_ok parentNewest h
  refine hs.recordedAt hrec ?_ ?_
  · rw [hNone]
    rfl
  · intro e' he'
    cases he'
    rfl

omit [DecidableEq Asset] in
theorem EntriesAgree.of_lookup_eq (hs : EntriesAgree parentNewest self)
    (h : ∀ x, self'.entry.lookup x = self.entry.lookup x) : EntriesAgree parentNewest self' :=
  ⟨fun x q hq => hs.agrees x q ((h x).symm.trans hq), fun x q e hq he => hs.keyOf x q e ((h x).symm.trans hq) he⟩

theorem EntriesAgree.load (hs : EntriesAgree parentNewest self) (hpn : Keyed parentNewest)
    {key : InternalLedgerKey K} {res : Option (InternalLedgerEntry Asset K V)}
    (h : self.load parentNewest key = .ok (res, self')) : EntriesAgree parentNewest self' := by
  obtain ⟨hRes, -, hNone, hSome⟩ := Impl.load_ok parentNewest h
  cases res with
  | none =>
    rw [hNone rfl]
    exact hs
  | some e =>
    obtain ⟨p, hpGet, hpFrom, hKey, hFrame⟩ := hSome e rfl
    -- `load` records the pointer it found, or LIVE over the parent's entry
    have hpAgrees : p.Agrees (parentNewest key) := by
      rcases hpFrom with hp | ⟨hp, rfl⟩
      · exact hs.agrees key p hp
      · rw [Impl.getNewestVersion_eq_elim, hp] at hRes
        have hParent : parentNewest key = some e := hRes.symm
        simp [LedgerEntryPtr.Agrees, hParent]
    have heKey : e.toKey = key := (hs.keyed hpn) key e hRes.symm
    constructor
    · intro x q hq
      by_cases hx : x = key
      · subst hx
        rw [hKey] at hq
        cases hq
        exact hpAgrees
      · rw [hFrame x hx] at hq
        exact hs.agrees x q hq
    · intro x q e' hq he'
      by_cases hx : x = key
      · subst hx
        rw [hKey] at hq
        cases hq
        rw [hpGet] at he'
        cases he'
        exact heKey
      · rw [hFrame x hx] at hq
        exact hs.keyOf x q e' hq he'

omit [DecidableEq Asset] in
theorem EntriesAgree.modifyLoaded (hs : EntriesAgree parentNewest self) {key : InternalLedgerKey K}
    {modify : InternalLedgerEntry Asset K V → InternalLedgerEntry Asset K V}
    (hmodify : ∀ e, (modify e).toKey = e.toKey) : EntriesAgree parentNewest (self.modifyLoaded key modify) := by
  constructor
  · intro x q hq
    rw [Impl.modifyLoaded_lookup] at hq
    split at hq
    · obtain ⟨p, hp, rfl⟩ := Option.map_eq_some_iff.mp hq
      rename_i hx
      subst hx
      exact (LedgerEntryPtr.agrees_map modify _ p).mpr (hs.agrees _ p hp)
    · exact hs.agrees x q hq
  · intro x q e hq he
    rw [Impl.modifyLoaded_lookup] at hq
    split at hq
    · obtain ⟨p, hp, rfl⟩ := Option.map_eq_some_iff.mp hq
      rename_i hx
      subst hx
      rw [LedgerEntryPtr.get_map] at he
      obtain ⟨e₀, he₀, rfl⟩ := Option.map_eq_some_iff.mp he
      rw [hmodify]
      exact hs.keyOf _ p e₀ hp he₀
    · exact hs.keyOf x q e hq he

theorem EntriesAgree.deactivate (hs : EntriesAgree parentNewest self) {key : InternalLedgerKey K}
    (h : self.deactivate key = .ok self') : EntriesAgree parentNewest self' :=
  hs.of_lookup_eq (Impl.updateEntryIfRecorded_ok h).1

theorem EntriesAgree.loadAndModify (hs : EntriesAgree parentNewest self) (hpn : Keyed parentNewest)
    {key : InternalLedgerKey K} {modify : InternalLedgerEntry Asset K V → InternalLedgerEntry Asset K V}
    (hmodify : ∀ e, (modify e).toKey = e.toKey) {res : Option (InternalLedgerEntry Asset K V)}
    (h : self.loadAndModify parentNewest key modify = .ok (res, self')) :
    EntriesAgree parentNewest self' := by
  rcases Impl.loadAndModify_steps parentNewest h with ⟨-, rfl⟩ | ⟨e, self₁, -, h₁, h₂⟩
  · exact hs
  · exact ((hs.load hpn h₁).modifyLoaded hmodify).deactivate h₂

theorem EntriesAgree.erase (hs : EntriesAgree parentNewest self) {key : InternalLedgerKey K}
    (h : self.erase parentNewest key = .ok self') : EntriesAgree parentNewest self' := by
  obtain ⟨hSome, -, hrec, -⟩ := Impl.erase_ok parentNewest h
  exact hs.recordedAt hrec hSome (fun e he => by cases he)

omit [DecidableEq Asset] in
theorem EntriesAgree.maybeUpdateLastModified (hs : EntriesAgree parentNewest self) :
    EntriesAgree parentNewest self.maybeUpdateLastModified := by
  constructor
  · intro key q hq
    rw [Impl.maybeUpdateLastModified_lookup] at hq
    split at hq
    · obtain ⟨p, hp, rfl⟩ := Option.map_eq_some_iff.mp hq
      exact (LedgerEntryPtr.agrees_map _ _ p).mpr (hs.agrees key p hp)
    · exact hs.agrees key q hq
  · intro key q e hq he
    rw [Impl.maybeUpdateLastModified_lookup] at hq
    split at hq
    · obtain ⟨p, hp, rfl⟩ := Option.map_eq_some_iff.mp hq
      cases p with
      | init e' =>
        cases he
        simp only [InternalLedgerEntry.toKey_setLastModified]
        exact hs.keyOf key _ e' hp rfl
      | live e' =>
        cases he
        simp only [InternalLedgerEntry.toKey_setLastModified]
        exact hs.keyOf key _ e' hp rfl
      | deleted => cases he
    · exact hs.keyOf key q e hq he

theorem commitChild_isOk_of_agrees (hs : EntriesAgree parentNewest self) {child : Impl Asset K V}
    (hc : EntriesAgree (self.getNewestVersion parentNewest) child) :
    ∃ self', self.commitChild child = .ok self' := by
  apply Impl.commitChild_isOk
  intro x p hp
  have hNew := hc.agrees x p hp
  rw [Impl.getNewestVersion_eq_elim] at hNew
  obtain ⟨r, hr, -⟩ := LedgerEntryPtr.recordAt_agrees (hs.agrees x) hNew
  exact ⟨r, hr⟩

theorem EntriesAgree.commitChild (hs : EntriesAgree parentNewest self) {child : Impl Asset K V}
    (hc : EntriesAgree (self.getNewestVersion parentNewest) child)
    (h : self.commitChild child = .ok self') : EntriesAgree parentNewest self' := by
  obtain ⟨hOut, hIn, -, -⟩ := Impl.commitChild_ok h
  constructor
  · intro x q hq
    cases hChild : child.entry.lookup x with
    | none =>
      rw [hOut x (AList.lookup_eq_none.mp hChild)] at hq
      exact hs.agrees x q hq
    | some p =>
      have hNew := hc.agrees x p hChild
      rw [Impl.getNewestVersion_eq_elim] at hNew
      obtain ⟨r, hr, hrAgrees⟩ := LedgerEntryPtr.recordAt_agrees (hs.agrees x) hNew
      rw [hIn x p hChild, hq] at hr
      cases hr
      exact hrAgrees q rfl
  · intro x q e hq he
    cases hChild : child.entry.lookup x with
    | none =>
      rw [hOut x (AList.lookup_eq_none.mp hChild)] at hq
      exact hs.keyOf x q e hq he
    | some p =>
      have hr := hIn x p hChild
      rw [hq] at hr
      rw [recordAt_get hr] at he
      exact hc.keyOf x p e hChild he

end Agree

/-- Every `LedgerTxn` of the stack agrees with the one below it. -/
def StackAgrees (root : Root Asset K V) : List (Impl Asset K V) → Prop
  | [] => True
  | self :: parents => EntriesAgree (newest root parents) self ∧ StackAgrees root parents

omit [DecidableEq Asset] in
theorem StackAgrees.nil (root : Root Asset K V) : StackAgrees root [] := trivial

omit [DecidableEq Asset] in
theorem StackAgrees.keyed {root : Root Asset K V} (hroot : Keyed root.getNewestVersion) :
    ∀ {stack : List (Impl Asset K V)}, StackAgrees root stack → Keyed (newest root stack)
  | [], _ => hroot
  | _ :: _, ⟨hs, hparents⟩ => hs.keyed (hparents.keyed hroot)

theorem StackAgrees.step {root : Root Asset K V} (hroot : Keyed root.getNewestVersion)
    {stack : List (Impl Asset K V)} (h : StackAgrees root stack) (op : Op Asset K V) :
    StackAgrees root (step root op stack) := by
  cases op with
  | openChild flag => exact ⟨EntriesAgree.fresh _ _, h⟩
  | create e =>
    rcases stack with _ | ⟨self, parents⟩
    · exact h
    · obtain ⟨hs, hparents⟩ := h
      simp only [Ledger.step]
      split
      · rename_i self' h'
        exact ⟨hs.create h', hparents⟩
      · exact ⟨hs, hparents⟩
  | load key modify hmodify =>
    rcases stack with _ | ⟨self, parents⟩
    · exact h
    · obtain ⟨hs, hparents⟩ := h
      simp only [Ledger.step]
      split
      · rename_i res self' h'
        exact ⟨hs.loadAndModify (hparents.keyed hroot) hmodify h', hparents⟩
      · exact ⟨hs, hparents⟩
  | erase key =>
    rcases stack with _ | ⟨self, parents⟩
    · exact h
    · obtain ⟨hs, hparents⟩ := h
      simp only [Ledger.step]
      split
      · rename_i self' h'
        exact ⟨hs.erase h', hparents⟩
      · exact ⟨hs, hparents⟩
  | commit =>
    rcases stack with _ | ⟨child, _ | ⟨self, parents⟩⟩
    · exact h
    · exact h
    · obtain ⟨hc, hs, hparents⟩ := h
      simp only [Ledger.step]
      split
      · rename_i self' h'
        exact ⟨hs.commitChild hc.maybeUpdateLastModified h', hparents⟩
      · exact ⟨hc, hs, hparents⟩
  | rollback =>
    rcases stack with _ | ⟨self, parents⟩
    · exact h
    · exact h.2

theorem StackAgrees.run {root : Root Asset K V} (hroot : Keyed root.getNewestVersion)
    (ops : List (Op Asset K V)) : ∀ {stack : List (Impl Asset K V)}, StackAgrees root stack →
      StackAgrees root (run root ops stack) := by
  induction ops with
  | nil => exact fun h => h
  | cons op ops ih => exact fun h => ih (h.step hroot op)

omit [DecidableEq Asset] in
theorem StackAgrees.of_suffix {root : Root Asset K V} {self : Impl Asset K V}
    {parents stack : List (Impl Asset K V)} (h : StackAgrees root stack)
    (hsuf : self :: parents <:+ stack) : EntriesAgree (newest root parents) self ∧ StackAgrees root parents := by
  induction stack with
  | nil => exact absurd hsuf (by simp)
  | cons t ts ih =>
    obtain ⟨ht, hts⟩ := h
    rcases List.suffix_cons_iff.mp hsuf with heq | hsuf'
    · cases heq
      exact ⟨ht, hts⟩
    · exact ih hts hsuf'

section Changes

variable {parentNewest : InternalLedgerKey K → Option (InternalLedgerEntry Asset K V)}
  {self : Impl Asset K V}

omit [DecidableEq Asset] in
theorem getChanges_isOk (hs : EntriesAgree parentNewest self) :
    ∃ changes, self.getChanges parentNewest = .ok changes := by
  have hu := hs.maybeUpdateLastModified
  unfold Impl.getChanges
  apply AList.foldlM_isOk
  rintro changes ⟨key, p⟩ hmem
  have hAgrees := hu.agrees key p (AList.mem_lookup_iff.mpr hmem)
  cases key with
  | internal k => exact ⟨changes, rfl⟩
  | ledgerEntry lk =>
    cases p with
    | init e => exact ⟨_, rfl⟩
    | live e =>
      obtain ⟨prev, hprev⟩ := Option.isSome_iff_exists.mp hAgrees
      exact ⟨_, by simp only [hprev]; rfl⟩
    | deleted =>
      obtain ⟨prev, hprev⟩ := Option.isSome_iff_exists.mp hAgrees
      exact ⟨_, by simp only [hprev]; rfl⟩

omit [DecidableEq Asset] in
theorem mem_keys_filterMap (u : EntryMap Asset K V)
    (hk : ∀ key p e, u.lookup key = some p → p.get = some e → e.toKey = key)
    (sel : LedgerEntryPtr (InternalLedgerEntry Asset K V) → Option (InternalLedgerEntry Asset K V))
    (hsel : ∀ p e, sel p = some e → p.get = some e) (lk : LedgerKey K) :
    lk ∈ (u.entries.filterMap fun s =>
        match s.1 with
        | .ledgerEntry _ => (sel s.2).bind InternalLedgerEntry.ledgerEntry?
        | .internal _ => none).map LedgerEntry.key ↔
      ∃ p e, u.lookup (.ledgerEntry lk) = some p ∧ sel p = some e := by
  simp only [List.mem_map, List.mem_filterMap]
  constructor
  · rintro ⟨le, ⟨⟨k, p⟩, hmem, hle⟩, rfl⟩
    cases k with
    | internal k => cases hle
    | ledgerEntry lk' =>
      obtain ⟨e, hsp, he⟩ := Option.bind_eq_some_iff.mp hle
      have hlookup : u.lookup (.ledgerEntry lk') = some p := AList.mem_lookup_iff.mpr hmem
      have hkey := hk _ p e hlookup (hsel p e hsp)
      cases e with
      | internal _ _ => cases he
      | ledgerEntry le' =>
        cases he
        injection hkey with hkey
        rw [hkey]
        exact ⟨p, _, hlookup, hsp⟩
  · rintro ⟨p, e, hlookup, hsp⟩
    have hkey := hk _ p e hlookup (hsel p e hsp)
    cases e with
    | internal _ _ => cases hkey
    | ledgerEntry le =>
      refine ⟨le, ⟨⟨.ledgerEntry lk, p⟩, AList.mem_lookup_iff.mp hlookup, ?_⟩, ?_⟩
      · simp [hsp, InternalLedgerEntry.ledgerEntry?]
      · injection hkey

omit [DecidableEq Asset] in
theorem mem_getAllEntries_dead (lk : LedgerKey K) :
    lk ∈ self.getAllEntries.2.2 ↔ self.maybeUpdateLastModified.entry.lookup (.ledgerEntry lk) = some .deleted := by
  dsimp only [Impl.getAllEntries]
  simp only [List.mem_filterMap]
  constructor
  · rintro ⟨⟨k, p⟩, hmem, hlk⟩
    have hlookup := AList.mem_lookup_iff.mpr hmem
    cases k <;> cases p <;> cases hlk
    exact hlookup
  · intro hlookup
    exact ⟨⟨.ledgerEntry lk, .deleted⟩, AList.mem_lookup_iff.mp hlookup, rfl⟩

omit [DecidableEq Asset] in
theorem maybeUpdateLastModified_state (x : InternalLedgerKey K) :
    (self.maybeUpdateLastModified.entry.lookup x).map LedgerEntryPtr.getState =
      (self.entry.lookup x).map LedgerEntryPtr.getState := by
  rw [Impl.maybeUpdateLastModified_lookup]
  split
  · rw [Option.map_map]
    exact Option.map_congr fun p _ => LedgerEntryPtr.getState_map _ p
  · rfl

omit [DecidableEq Asset] [DecidableEq K] in
theorem get_of_state (st : EntryPtrState) (p : LedgerEntryPtr (InternalLedgerEntry Asset K V))
    (e : InternalLedgerEntry Asset K V) (h : (if p.getState = st then p.get else none) = some e) :
    p.get = some e := by
  split at h
  · exact h
  · cases h

omit [DecidableEq Asset] in
theorem getAllEntries_keys (hs : EntriesAgree parentNewest self) (lk : LedgerKey K) :
    (lk ∈ self.getAllEntries.1.map LedgerEntry.key ↔
        (self.entry.lookup (.ledgerEntry lk)).map LedgerEntryPtr.getState = some .init) ∧
      (lk ∈ self.getAllEntries.2.1.map LedgerEntry.key ↔
        (self.entry.lookup (.ledgerEntry lk)).map LedgerEntryPtr.getState = some .live) ∧
      (lk ∈ self.getAllEntries.2.2 ↔
        (self.entry.lookup (.ledgerEntry lk)).map LedgerEntryPtr.getState = some .deleted) := by
  have hu := hs.maybeUpdateLastModified
  set u := self.maybeUpdateLastModified.entry with hu_def
  -- the INIT and LIVE lists are `mem_keys_filterMap` with the pointers of one state picked
  have hPicked : ∀ st : EntryPtrState, st ≠ .deleted →
      ((∃ p e, u.lookup (.ledgerEntry lk) = some p ∧ (if p.getState = st then p.get else none) = some e) ↔
        (self.entry.lookup (.ledgerEntry lk)).map LedgerEntryPtr.getState = some st) := by
    intro st hst
    rw [← maybeUpdateLastModified_state]
    constructor
    · rintro ⟨p, e, hp, hpe⟩
      split at hpe
      · rename_i hState
        rw [← hu_def, hp, Option.map_some, hState]
      · cases hpe
    · intro hState
      obtain ⟨p, hp, hpState⟩ := Option.map_eq_some_iff.mp hState
      rw [← hu_def] at hp
      cases p <;> simp_all [LedgerEntryPtr.getState]
  refine ⟨?_, ?_, ?_⟩
  · rw [← hPicked .init (by decide), ← mem_keys_filterMap u hu.keyOf _ (get_of_state .init)]
    dsimp only [Impl.getAllEntries]
    congr! 2
    apply List.filterMap_congr
    rintro ⟨k, p⟩ -
    cases k <;> cases p <;> rfl
  · rw [← hPicked .live (by decide), ← mem_keys_filterMap u hu.keyOf _ (get_of_state .live)]
    dsimp only [Impl.getAllEntries]
    congr! 2
    apply List.filterMap_congr
    rintro ⟨k, p⟩ -
    cases k <;> cases p <;> rfl
  · rw [← maybeUpdateLastModified_state, Option.map_eq_some_iff, mem_getAllEntries_dead]
    constructor
    · intro hp
      exact ⟨_, hp, rfl⟩
    · rintro ⟨p, hp, hpState⟩
      cases p <;> cases hpState
      exact hp

omit [DecidableEq Asset] in
theorem EntriesAgree.init_iff (hs : EntriesAgree parentNewest self) (key : InternalLedgerKey K) :
    (self.entry.lookup key).map LedgerEntryPtr.getState = some .init ↔
      (self.entry.lookup key).isSome ∧ parentNewest key = none := by
  cases hp : self.entry.lookup key with
  | none => simp
  | some p =>
    have h := hs.agrees key p hp
    cases p <;> simp_all [LedgerEntryPtr.Agrees, LedgerEntryPtr.getState, Option.isSome_iff_ne_none]

omit [DecidableEq Asset] in
theorem EntriesAgree.existed_iff (hs : EntriesAgree parentNewest self) (key : InternalLedgerKey K) :
    ((self.entry.lookup key).map LedgerEntryPtr.getState = some .live ∨
        (self.entry.lookup key).map LedgerEntryPtr.getState = some .deleted) ↔
      (self.entry.lookup key).isSome ∧ (parentNewest key).isSome := by
  cases hp : self.entry.lookup key with
  | none => simp
  | some p =>
    have h := hs.agrees key p hp
    cases p <;> simp_all [LedgerEntryPtr.Agrees, LedgerEntryPtr.getState]

end Changes

/-- Over any run from no open `LedgerTxn`, an entry that a `LedgerTxn` of the stack records is
INIT only where its parent has no newest version, and LIVE or DELETED only where the parent has
one. So committing the innermost `LedgerTxn` never aborts, its `getChanges` never fails
`releaseAssert(previous)`, and its `getAllEntries` lists as INIT exactly the keys new to the
parent and as LIVE or DEAD exactly the keys the parent had. -/
theorem run_entry_states (root : Root Asset K V) (hroot : Keyed root.getNewestVersion)
    (ops : List (Op Asset K V)) :
    (∀ self parents, self :: parents <:+ run root ops [] → ∀ key p, self.entry.lookup key = some p →
        (p.getState = .init → newest root parents key = none ∧ p.get.isSome) ∧
        (p.getState = .live → (newest root parents key).isSome ∧ p.get.isSome) ∧
        (p.getState = .deleted → (newest root parents key).isSome ∧ p.get = none)) ∧
      (∀ child self parents, run root ops [] = child :: self :: parents →
        ∃ self', self.commitChild child.maybeUpdateLastModified = .ok self') ∧
      (∀ self parents, run root ops [] = self :: parents →
        (∃ changes, self.getChanges (newest root parents) = .ok changes) ∧
        ∀ lk : LedgerKey K,
          (lk ∈ self.getAllEntries.1.map LedgerEntry.key ↔
            (self.entry.lookup (.ledgerEntry lk)).isSome ∧ newest root parents (.ledgerEntry lk) = none) ∧
          (lk ∈ self.getAllEntries.2.1.map LedgerEntry.key ++ self.getAllEntries.2.2 ↔
            (self.entry.lookup (.ledgerEntry lk)).isSome ∧
              (newest root parents (.ledgerEntry lk)).isSome)) := by
  have hStack : StackAgrees root (run root ops []) := StackAgrees.run hroot ops (StackAgrees.nil root)
  refine ⟨?_, ?_, ?_⟩
  · intro self parents hsuf key p hp
    exact ((hStack.of_suffix hsuf).1.agrees key p hp).states
  · intro child self parents hrun
    rw [hrun] at hStack
    obtain ⟨hc, hs, -⟩ := hStack
    exact commitChild_isOk_of_agrees hs hc.maybeUpdateLastModified
  · intro self parents hrun
    rw [hrun] at hStack
    obtain ⟨hs, -⟩ := hStack
    refine ⟨getChanges_isOk hs, fun lk => ?_⟩
    obtain ⟨hInit, hLive, hDead⟩ := getAllEntries_keys hs lk
    rw [hInit, List.mem_append, hLive, hDead]
    exact ⟨hs.init_iff _, hs.existed_iff _⟩

/-- Over a root with no entries, a child that creates an entry and a grandchild that erases it
commit into each other without an abort. -/
theorem run_entry_states_create_erase :
    Keyed (⟨fun _ => none, 0⟩ : Root Unit Unit Unit).getNewestVersion ∧
      ∀ child self parents,
        run (⟨fun _ => none, 0⟩ : Root Unit Unit Unit) [.openChild true, .create (.internal () ()),
          .openChild true, .erase (.internal ())] [] = child :: self :: parents →
        ∃ self', self.commitChild child.maybeUpdateLastModified = .ok self' := by
  have hroot : Keyed (⟨fun _ => none, 0⟩ : Root Unit Unit Unit).getNewestVersion := by
    intro key e he
    cases he
  exact ⟨hroot, (run_entry_states _ hroot _).2.1⟩

end HcnetCore.Ledger
