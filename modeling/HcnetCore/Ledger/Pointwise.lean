import HcnetCore.Ledger.LedgerTxn

/-! # What each `LedgerTxn` operation does to one key

Every operation on a `LedgerTxn` changes `mEntry` at one key at most, by one
`recordAt`, or leaves it unchanged; `commitChild` makes one `recordAt` at each key
the child records. These lemmas say so operation by operation, so that later proofs
reason about keys one at a time and never unfold an operation again.
-/

namespace HcnetCore.Ledger

set_option autoImplicit false

variable {Asset K V : Type} [DecidableEq Asset] [DecidableEq K]

/-- `self'` is `self` after one `recordAt` of `lePtr` at `key`. -/
def RecordedAt (self self' : Impl Asset K V) (key : InternalLedgerKey K)
    (lePtr : LedgerEntryPtr (InternalLedgerEntry Asset K V)) : Prop :=
  recordAt (self.entry.lookup key) lePtr = .ok (self'.entry.lookup key) ∧
    ∀ x, x ≠ key → self'.entry.lookup x = self.entry.lookup x

/-- The header fields of a `LedgerTxn` are as they were. -/
def SameHeader (self self' : Impl Asset K V) : Prop :=
  self'.ledgerSeq = self.ledgerSeq ∧ self'.shouldUpdateLastModified = self.shouldUpdateLastModified

theorem recordAt_self {E : Type} {p : LedgerEntryPtr E} {r : Option (LedgerEntryPtr E)}
    (h : recordAt (some p) p = .ok r) : r = some p := by
  cases p <;> simp_all [recordAt, LedgerEntryPtr.mergeFrom, LedgerEntryPtr.isDeleted,
    LedgerEntryPtr.isInit, LedgerEntryPtr.getState, Functor.map, Except.map]

theorem recordAt_get {E : Type} {old : Option (LedgerEntryPtr E)} {p q : LedgerEntryPtr E}
    (h : recordAt old p = .ok (some q)) : q.get = p.get := by
  rcases old with _ | old
  · simp only [recordAt, pure, Except.pure, Except.ok.injEq, Option.some.injEq] at h
    rw [h]
  · cases old <;> cases p <;>
      simp [recordAt, LedgerEntryPtr.mergeFrom, LedgerEntryPtr.isDeleted, LedgerEntryPtr.isInit,
        LedgerEntryPtr.getState, Functor.map, Except.map, pure, Except.pure] at h <;>
      simp [← h]

theorem recordAt_eq_none {E : Type} {old : Option (LedgerEntryPtr E)} {p : LedgerEntryPtr E}
    (h : recordAt old p = .ok none) : ∃ e, old = some (.init e) ∧ p = .deleted := by
  rcases old with _ | old
  · simp [recordAt, pure, Except.pure] at h
  · cases old <;> cases p <;>
      simp_all [recordAt, LedgerEntryPtr.mergeFrom, LedgerEntryPtr.isDeleted, LedgerEntryPtr.isInit,
        LedgerEntryPtr.getState, Functor.map, Except.map, pure, Except.pure]

theorem recordAt_bind_get {E : Type} {old r : Option (LedgerEntryPtr E)} {p : LedgerEntryPtr E}
    (h : recordAt old p = .ok r) : r.bind LedgerEntryPtr.get = p.get := by
  cases r with
  | none =>
    obtain ⟨-, -, rfl⟩ := recordAt_eq_none h
    rfl
  | some q => exact recordAt_get h

theorem recordAt_self_ok {E : Type} {p : LedgerEntryPtr E} (hp : p ≠ .deleted) :
    recordAt (some p) p = .ok (some p) := by
  cases p <;> simp_all [recordAt, LedgerEntryPtr.mergeFrom, LedgerEntryPtr.isDeleted,
    LedgerEntryPtr.isInit, LedgerEntryPtr.getState, Functor.map, Except.map]

namespace Impl

variable (parentNewest : InternalLedgerKey K → Option (InternalLedgerEntry Asset K V))

theorem updateEntry_recordedAt {self self' : Impl Asset K V} {key : InternalLedgerKey K}
    {lePtr : LedgerEntryPtr (InternalLedgerEntry Asset K V)} {effectiveActive : Bool}
    (h : self.updateEntry key lePtr effectiveActive = .ok self') :
    RecordedAt self self' key lePtr ∧ SameHeader self self' := by
  obtain ⟨hRecord, -, hSeq, hFlag⟩ := updateEntry_ok h
  exact ⟨recordEntry_ok hRecord, hSeq, hFlag⟩

theorem updateEntryIfRecorded_ok {self self' : Impl Asset K V} {key : InternalLedgerKey K}
    {effectiveActive : Bool} (h : self.updateEntryIfRecorded key effectiveActive = .ok self') :
    (∀ x, self'.entry.lookup x = self.entry.lookup x) ∧ SameHeader self self' := by
  unfold updateEntryIfRecorded at h
  split at h
  · cases h
    exact ⟨fun _ => rfl, rfl, rfl⟩
  · split at h
    · rename_i lePtr hLookup
      obtain ⟨⟨hAt, hFrame⟩, hHeader⟩ := updateEntry_recordedAt h
      rw [hLookup] at hAt
      have hKeep := recordAt_self hAt
      refine ⟨fun x => ?_, hHeader⟩
      by_cases hx : x = key
      · subst hx
        rw [hKeep, hLookup]
      · exact hFrame x hx
    · cases h
      exact ⟨fun _ => rfl, rfl, rfl⟩

theorem create_steps {self self' : Impl Asset K V} {e : InternalLedgerEntry Asset K V}
    (h : self.create parentNewest e = .ok self') :
    self.getNewestVersion parentNewest e.toKey = none ∧
      ∃ self₁, self.updateEntry e.toKey (.init e) true = .ok self₁ ∧
        self₁.updateEntryIfRecorded e.toKey false = .ok self' := by
  unfold create at h
  by_cases hNew : (self.getNewestVersion parentNewest e.toKey).isSome
  · simp [hNew, throw, throwThe, MonadExceptOf.throw, bind, Except.bind] at h
  · simp only [hNew, Bool.false_eq_true, ↓reduceIte, bind, Except.bind] at h
    cases h₁ : self.updateEntry e.toKey (.init e) true with
    | error msg => simp [h₁] at h
    | ok self₁ =>
      simp only [h₁] at h
      exact ⟨Option.not_isSome_iff_eq_none.mp hNew, self₁, rfl, h⟩

theorem create_ok {self self' : Impl Asset K V} {e : InternalLedgerEntry Asset K V}
    (h : self.create parentNewest e = .ok self') :
    self.getNewestVersion parentNewest e.toKey = none ∧ RecordedAt self self' e.toKey (.init e) ∧
      SameHeader self self' := by
  obtain ⟨hNone, self₁, h₁, h₂⟩ := create_steps parentNewest h
  obtain ⟨⟨hAt, hFrame⟩, hSeq₁, hFlag₁⟩ := updateEntry_recordedAt h₁
  obtain ⟨hSame, hSeq₂, hFlag₂⟩ := updateEntryIfRecorded_ok h₂
  refine ⟨hNone, ⟨?_, fun x hx => ?_⟩, ?_, ?_⟩
  · rw [hSame]
    exact hAt
  · rw [hSame]
    exact hFrame x hx
  · rw [hSeq₂, hSeq₁]
  · rw [hFlag₂, hFlag₁]

theorem updateEntry_ok_of_recordAt {self : Impl Asset K V} {key : InternalLedgerKey K}
    {lePtr : LedgerEntryPtr (InternalLedgerEntry Asset K V)} (effectiveActive : Bool)
    {r : Option (LedgerEntryPtr (InternalLedgerEntry Asset K V))}
    (h : recordAt (self.entry.lookup key) lePtr = .ok r) :
    ∃ self', self.updateEntry key lePtr effectiveActive = .ok self' := by
  cases hu : self.updateEntry key lePtr effectiveActive with
  | ok self' => exact ⟨self', rfl⟩
  | error msg =>
    rw [updateEntry_error_iff, recordEntry_error_iff, h] at hu
    cases hu

theorem updateEntryIfRecorded_ok_of_live (self : Impl Asset K V) (key : InternalLedgerKey K)
    (effectiveActive : Bool) (h : ∀ p, self.entry.lookup key = some p → p ≠ .deleted) :
    ∃ self', self.updateEntryIfRecorded key effectiveActive = .ok self' := by
  unfold updateEntryIfRecorded
  split
  · exact ⟨self, rfl⟩
  · split
    · rename_i p hp
      apply updateEntry_ok_of_recordAt effectiveActive
      rw [hp]
      exact recordAt_self_ok (h p hp)
    · exact ⟨self, rfl⟩

theorem create_isOk_iff (self : Impl Asset K V) (e : InternalLedgerEntry Asset K V) :
    (∃ self', self.create parentNewest e = .ok self') ↔
      self.getNewestVersion parentNewest e.toKey = none := by
  constructor
  · rintro ⟨self', h⟩
    exact (create_ok parentNewest h).1
  · intro hNone
    have hRecord : ∃ r, recordAt (self.entry.lookup e.toKey) (.init e) = .ok (some r) ∧
        r ≠ .deleted := by
      cases hOld : self.entry.lookup e.toKey with
      | none => exact ⟨.init e, rfl, by simp⟩
      | some p =>
        simp only [getNewestVersion, hOld] at hNone
        rw [(LedgerEntryPtr.get_eq_none_iff p).mp hNone]
        exact ⟨.live e, rfl, by simp⟩
    obtain ⟨r, hr, hrLive⟩ := hRecord
    obtain ⟨self₁, h₁⟩ := updateEntry_ok_of_recordAt true hr
    obtain ⟨⟨hAt, -⟩, -⟩ := updateEntry_recordedAt h₁
    rw [hr] at hAt
    obtain ⟨self₂, h₂⟩ := updateEntryIfRecorded_ok_of_live self₁ e.toKey false
      (fun p hp => by
        rw [hp] at hAt
        cases hAt
        exact hrLive)
    refine ⟨self₂, ?_⟩
    simp only [create, hNone, Option.isSome_none, Bool.false_eq_true, ↓reduceIte, bind,
      Except.bind, h₁, h₂]

theorem create_isError_iff (self : Impl Asset K V) (e : InternalLedgerEntry Asset K V) :
    (∃ msg, self.create parentNewest e = .error msg) ↔
      (self.getNewestVersion parentNewest e.toKey).isSome := by
  rw [Option.isSome_iff_ne_none, ne_eq, ← create_isOk_iff]
  constructor
  · rintro ⟨msg, hErr⟩ ⟨self', hOk⟩
    rw [hErr] at hOk
    cases hOk
  · intro hNotOk
    cases h : self.create parentNewest e with
    | error msg => exact ⟨msg, rfl⟩
    | ok self' => exact absurd ⟨self', h⟩ hNotOk

theorem load_ok {self self' : Impl Asset K V} {key : InternalLedgerKey K}
    {res : Option (InternalLedgerEntry Asset K V)} (h : self.load parentNewest key = .ok (res, self')) :
    res = self.getNewestVersion parentNewest key ∧ SameHeader self self' ∧
      (res = none → self' = self) ∧
      ∀ e, res = some e → ∃ p, p.get = some e ∧
        (self.entry.lookup key = some p ∨ self.entry.lookup key = none ∧ p = .live e) ∧
        self'.entry.lookup key = some p ∧ ∀ x, x ≠ key → self'.entry.lookup x = self.entry.lookup x := by
  unfold load at h
  split at h
  · rename_i p hp
    split at h
    · rename_i e he
      cases h₁ : self.updateEntry key p true with
      | error msg => simp [h₁, bind, Except.bind] at h
      | ok self₁ =>
        simp only [h₁, bind, Except.bind, pure, Except.pure, Except.ok.injEq, Prod.mk.injEq] at h
        obtain ⟨rfl, rfl⟩ := h
        obtain ⟨⟨hAt, hFrame⟩, hHeader⟩ := updateEntry_recordedAt h₁
        rw [hp] at hAt
        refine ⟨by simp [getNewestVersion, hp, he], hHeader, by simp, ?_⟩
        rintro e' ⟨⟩
        exact ⟨p, he, .inl hp, recordAt_self hAt, hFrame⟩
    · rename_i he
      simp only [pure, Except.pure, Except.ok.injEq, Prod.mk.injEq] at h
      obtain ⟨rfl, rfl⟩ := h
      exact ⟨by simp [getNewestVersion, hp, he], ⟨rfl, rfl⟩, fun _ => rfl, by simp⟩
  · rename_i hp
    split at h
    · rename_i e he
      cases h₁ : self.updateEntry key (.live e) true with
      | error msg => simp [h₁, bind, Except.bind] at h
      | ok self₁ =>
        simp only [h₁, bind, Except.bind, pure, Except.pure, Except.ok.injEq, Prod.mk.injEq] at h
        obtain ⟨rfl, rfl⟩ := h
        obtain ⟨⟨hAt, hFrame⟩, hHeader⟩ := updateEntry_recordedAt h₁
        rw [hp] at hAt
        simp only [recordAt, pure, Except.pure, Except.ok.injEq] at hAt
        refine ⟨by simp [getNewestVersion, hp, he], hHeader, by simp, ?_⟩
        rintro e' ⟨⟩
        exact ⟨.live e, rfl, .inr ⟨hp, rfl⟩, hAt.symm, hFrame⟩
    · rename_i he
      simp only [pure, Except.pure, Except.ok.injEq, Prod.mk.injEq] at h
      obtain ⟨rfl, rfl⟩ := h
      exact ⟨by simp [getNewestVersion, hp, he], ⟨rfl, rfl⟩, fun _ => rfl, by simp⟩

theorem load_steps {self self' : Impl Asset K V} {key : InternalLedgerKey K}
    {res : Option (InternalLedgerEntry Asset K V)} (h : self.load parentNewest key = .ok (res, self')) :
    res = none ∧ self' = self ∨
      ∃ p e, res = some e ∧ p.get = some e ∧ self.getNewestVersion parentNewest key = some e ∧
        self.updateEntry key p true = .ok self' := by
  unfold load at h
  split at h
  · rename_i p hp
    split at h
    · rename_i e he
      cases h₁ : self.updateEntry key p true with
      | error msg => simp [h₁, bind, Except.bind] at h
      | ok self₁ =>
        simp only [h₁, bind, Except.bind, pure, Except.pure, Except.ok.injEq, Prod.mk.injEq] at h
        obtain ⟨rfl, rfl⟩ := h
        exact .inr ⟨p, e, rfl, he, by simp [getNewestVersion, hp, he], h₁⟩
    · simp only [pure, Except.pure, Except.ok.injEq, Prod.mk.injEq] at h
      exact .inl ⟨h.1.symm, h.2.symm⟩
  · rename_i hp
    split at h
    · rename_i e he
      cases h₁ : self.updateEntry key (.live e) true with
      | error msg => simp [h₁, bind, Except.bind] at h
      | ok self₁ =>
        simp only [h₁, bind, Except.bind, pure, Except.pure, Except.ok.injEq, Prod.mk.injEq] at h
        obtain ⟨rfl, rfl⟩ := h
        exact .inr ⟨.live e, e, rfl, rfl, by simp [getNewestVersion, hp, he], h₁⟩
    · simp only [pure, Except.pure, Except.ok.injEq, Prod.mk.injEq] at h
      exact .inl ⟨h.1.symm, h.2.symm⟩

theorem loadAndModify_steps {self self' : Impl Asset K V} {key : InternalLedgerKey K}
    {modify : InternalLedgerEntry Asset K V → InternalLedgerEntry Asset K V}
    {res : Option (InternalLedgerEntry Asset K V)}
    (h : self.loadAndModify parentNewest key modify = .ok (res, self')) :
    res = none ∧ self' = self ∨
      ∃ e self₁, res = some e ∧ self.load parentNewest key = .ok (some e, self₁) ∧
        (self₁.modifyLoaded key modify).deactivate key = .ok self' := by
  unfold loadAndModify at h
  cases h₁ : self.load parentNewest key with
  | error msg => simp [h₁, bind, Except.bind] at h
  | ok r =>
    obtain ⟨loaded, self₁⟩ := r
    simp only [h₁, bind, Except.bind] at h
    cases loaded with
    | none =>
      simp only [pure, Except.pure, Except.ok.injEq, Prod.mk.injEq] at h
      obtain ⟨rfl, rfl⟩ := h
      rcases load_steps parentNewest h₁ with ⟨-, rfl⟩ | ⟨p, e, he, -⟩
      · exact .inl ⟨rfl, rfl⟩
      · cases he
    | some e =>
      cases h₂ : (self₁.modifyLoaded key modify).deactivate key with
      | error msg => simp [h₂] at h
      | ok self₂ =>
        simp only [h₂, pure, Except.pure, Except.ok.injEq, Prod.mk.injEq] at h
        obtain ⟨rfl, rfl⟩ := h
        exact .inr ⟨e, self₁, rfl, rfl, h₂⟩

theorem load_isOk (self : Impl Asset K V) (key : InternalLedgerKey K) :
    ∃ res self', self.load parentNewest key = .ok (res, self') := by
  unfold load
  split
  · rename_i p hp
    split
    · rename_i e he
      have hLive : p ≠ .deleted := by
        intro hDel
        rw [hDel] at he
        cases he
      have hAt : recordAt (self.entry.lookup key) p = .ok (some p) := by
        rw [hp]
        exact recordAt_self_ok hLive
      obtain ⟨self₁, h₁⟩ := updateEntry_ok_of_recordAt true hAt
      exact ⟨some e, self₁, by simp [h₁, bind, Except.bind, pure, Except.pure]⟩
    · exact ⟨none, self, rfl⟩
  · rename_i hp
    split
    · rename_i e he
      have hAt : recordAt (self.entry.lookup key) (.live e) = .ok (some (.live e)) := by
        rw [hp]
        rfl
      obtain ⟨self₁, h₁⟩ := updateEntry_ok_of_recordAt true hAt
      exact ⟨some e, self₁, by simp [h₁, bind, Except.bind, pure, Except.pure]⟩
    · exact ⟨none, self, rfl⟩

omit [DecidableEq Asset] in
@[simp] theorem modifyLoaded_header (self : Impl Asset K V) (key : InternalLedgerKey K)
    (modify : InternalLedgerEntry Asset K V → InternalLedgerEntry Asset K V) :
    (self.modifyLoaded key modify).ledgerSeq = self.ledgerSeq ∧
      (self.modifyLoaded key modify).shouldUpdateLastModified = self.shouldUpdateLastModified := by
  unfold modifyLoaded
  split <;> exact ⟨rfl, rfl⟩

omit [DecidableEq Asset] in
theorem modifyLoaded_lookup (self : Impl Asset K V) (key : InternalLedgerKey K)
    (modify : InternalLedgerEntry Asset K V → InternalLedgerEntry Asset K V) (x : InternalLedgerKey K) :
    (self.modifyLoaded key modify).entry.lookup x =
      if x = key then (self.entry.lookup key).map (·.map modify) else self.entry.lookup x := by
  unfold modifyLoaded
  split
  · rename_i p hp
    split
    · rename_i hx
      subst hx
      simp [AList.lookup_insert, hp]
    · rename_i hx
      exact AList.lookup_insert_ne hx
  · rename_i hp
    split
    · rename_i hx
      subst hx
      simp [hp]
    · rfl

theorem loadAndModify_ok {self self' : Impl Asset K V} {key : InternalLedgerKey K}
    {modify : InternalLedgerEntry Asset K V → InternalLedgerEntry Asset K V}
    {res : Option (InternalLedgerEntry Asset K V)}
    (h : self.loadAndModify parentNewest key modify = .ok (res, self')) :
    res = self.getNewestVersion parentNewest key ∧ SameHeader self self' ∧
      (res = none → self' = self) ∧
      ∀ e, res = some e → ∃ p, p.get = some e ∧
        (self.entry.lookup key = some p ∨ self.entry.lookup key = none ∧ p = .live e) ∧
        self'.entry.lookup key = some (p.map modify) ∧
        ∀ x, x ≠ key → self'.entry.lookup x = self.entry.lookup x := by
  unfold loadAndModify at h
  cases h₁ : self.load parentNewest key with
  | error msg => simp [h₁, bind, Except.bind] at h
  | ok r =>
    obtain ⟨loaded, self₁⟩ := r
    obtain ⟨hRes, hHeader₁, hNone, hSome⟩ := load_ok parentNewest h₁
    simp only [h₁, bind, Except.bind] at h
    cases loaded with
    | none =>
      simp only [pure, Except.pure, Except.ok.injEq, Prod.mk.injEq] at h
      obtain ⟨rfl, rfl⟩ := h
      exact ⟨hRes, hHeader₁, fun _ => hNone rfl, by simp⟩
    | some e =>
      cases h₂ : (self₁.modifyLoaded key modify).deactivate key with
      | error msg => simp [h₂] at h
      | ok self₂ =>
        simp only [h₂, pure, Except.pure, Except.ok.injEq, Prod.mk.injEq] at h
        obtain ⟨rfl, rfl⟩ := h
        obtain ⟨p, hpGet, hpFrom, hKey, hFrame⟩ := hSome e rfl
        obtain ⟨hSame, hSeq₂, hFlag₂⟩ := updateEntryIfRecorded_ok h₂
        refine ⟨hRes, ⟨?_, ?_⟩, by simp, fun e' he' => ?_⟩
        · rw [hSeq₂, (modifyLoaded_header self₁ key modify).1]
          exact hHeader₁.1
        · rw [hFlag₂, (modifyLoaded_header self₁ key modify).2]
          exact hHeader₁.2
        · cases he'
          refine ⟨p, hpGet, hpFrom, ?_, fun x hx => ?_⟩
          · rw [hSame, modifyLoaded_lookup, if_pos rfl, hKey]
            rfl
          · rw [hSame, modifyLoaded_lookup, if_neg hx]
            exact hFrame x hx

theorem loadAndModify_isOk (self : Impl Asset K V) (key : InternalLedgerKey K)
    (modify : InternalLedgerEntry Asset K V → InternalLedgerEntry Asset K V) :
    ∃ res self', self.loadAndModify parentNewest key modify = .ok (res, self') := by
  obtain ⟨res, self₁, h₁⟩ := load_isOk parentNewest self key
  obtain ⟨-, -, -, hSome⟩ := load_ok parentNewest h₁
  unfold loadAndModify
  simp only [h₁, bind, Except.bind]
  cases res with
  | none => exact ⟨none, self₁, rfl⟩
  | some e =>
    obtain ⟨p, hpGet, -, hKept, -⟩ := hSome e rfl
    have hLive : p.map modify ≠ .deleted := by
      cases p <;> simp_all [LedgerEntryPtr.map]
    obtain ⟨self₂, h₂⟩ := updateEntryIfRecorded_ok_of_live (self₁.modifyLoaded key modify) key
      false (fun q hq => by
        rw [modifyLoaded_lookup, if_pos rfl] at hq
        rw [hKept] at hq
        cases hq
        exact hLive)
    exact ⟨some e, self₂, by simp [deactivate, h₂, pure, Except.pure]⟩

theorem erase_ok {self self' : Impl Asset K V} {key : InternalLedgerKey K}
    (h : self.erase parentNewest key = .ok self') :
    (self.getNewestVersion parentNewest key).isSome ∧ key.isConfigSetting = false ∧
      RecordedAt self self' key .deleted ∧ SameHeader self self' := by
  unfold erase at h
  split at h
  · cases h
  · rename_i e he
    split at h
    · cases h
    · rename_i hConfig
      exact ⟨by simp [he], by simpa using hConfig, updateEntry_recordedAt h⟩

theorem erase_isOk_iff (self : Impl Asset K V) (key : InternalLedgerKey K) :
    (∃ self', self.erase parentNewest key = .ok self') ↔
      (self.getNewestVersion parentNewest key).isSome ∧ key.isConfigSetting = false := by
  constructor
  · rintro ⟨self', h⟩
    exact ⟨(erase_ok parentNewest h).1, (erase_ok parentNewest h).2.1⟩
  · rintro ⟨hSome, hConfig⟩
    obtain ⟨e, he⟩ := Option.isSome_iff_exists.mp hSome
    have hRecord : ∃ r, recordAt (self.entry.lookup key) .deleted = .ok r := by
      cases hOld : self.entry.lookup key with
      | none => exact ⟨some .deleted, rfl⟩
      | some p =>
        simp only [getNewestVersion, hOld] at he
        cases p with
        | init e' => exact ⟨none, rfl⟩
        | live e' => exact ⟨some .deleted, rfl⟩
        | deleted => cases he
    obtain ⟨r, hr⟩ := hRecord
    obtain ⟨self', h'⟩ := updateEntry_ok_of_recordAt false hr
    exact ⟨self', by simp [erase, he, hConfig, h']⟩

omit [DecidableEq Asset] in
@[simp] theorem maybeUpdateLastModified_lookup (self : Impl Asset K V) (x : InternalLedgerKey K) :
    self.maybeUpdateLastModified.entry.lookup x =
      if self.shouldUpdateLastModified then
        (self.entry.lookup x).map (·.map (·.setLastModified self.ledgerSeq))
      else self.entry.lookup x := by
  unfold maybeUpdateLastModified
  split <;> simp_all

omit [DecidableEq Asset] [DecidableEq K] in
@[simp] theorem maybeUpdateLastModified_header (self : Impl Asset K V) :
    self.maybeUpdateLastModified.ledgerSeq = self.ledgerSeq ∧
      self.maybeUpdateLastModified.shouldUpdateLastModified = self.shouldUpdateLastModified ∧
      self.maybeUpdateLastModified.worstBestOffer = self.worstBestOffer := by
  unfold maybeUpdateLastModified
  split <;> exact ⟨rfl, rfl, rfl⟩

omit [DecidableEq K] in
theorem updateWorstBestOffer_fields (self : Impl Asset K V) (assets : AssetPair Asset)
    (offerDesc : Option OfferDescriptor) :
    (self.updateWorstBestOffer assets offerDesc).entry = self.entry ∧
      (self.updateWorstBestOffer assets offerDesc).multiOrderBook = self.multiOrderBook ∧
      (self.updateWorstBestOffer assets offerDesc).shouldUpdateLastModified =
        self.shouldUpdateLastModified := by
  unfold updateWorstBestOffer
  split
  · split <;> exact ⟨rfl, rfl, rfl⟩
  · exact ⟨rfl, rfl, rfl⟩

omit [DecidableEq K] in
theorem foldl_updateWorstBestOffer_fields (l : List (Sigma fun _ : AssetPair Asset => Option OfferDescriptor))
    (self : Impl Asset K V) :
    (l.foldl (fun acc s => acc.updateWorstBestOffer s.1 s.2) self).entry = self.entry ∧
      (l.foldl (fun acc s => acc.updateWorstBestOffer s.1 s.2) self).multiOrderBook = self.multiOrderBook ∧
      (l.foldl (fun acc s => acc.updateWorstBestOffer s.1 s.2) self).shouldUpdateLastModified =
        self.shouldUpdateLastModified := by
  induction l generalizing self with
  | nil => exact ⟨rfl, rfl, rfl⟩
  | cons s l ih =>
    obtain ⟨hEntry, hBooks, hFlag⟩ := updateWorstBestOffer_fields self s.1 s.2
    obtain ⟨ihEntry, ihBooks, ihFlag⟩ := ih (self.updateWorstBestOffer s.1 s.2)
    exact ⟨ihEntry.trans hEntry, ihBooks.trans hBooks, ihFlag.trans hFlag⟩

theorem commitChild_steps {self child self' : Impl Asset K V} (h : self.commitChild child = .ok self') :
    ∃ self₁, child.entry.entries.foldlM (fun acc s => acc.updateEntry s.1 s.2 false) self = .ok self₁ ∧
      self' = { child.worstBestOffer.entries.foldl (fun acc s => acc.updateWorstBestOffer s.1 s.2) self₁ with
        ledgerSeq := child.ledgerSeq } := by
  unfold commitChild at h
  cases h₁ : child.entry.entries.foldlM (fun acc s => acc.updateEntry s.1 s.2 false) self with
  | error msg => simp [h₁, bind, Except.bind] at h
  | ok self₁ =>
    simp only [h₁, bind, Except.bind, pure, Except.pure, Except.ok.injEq] at h
    exact ⟨self₁, rfl, h.symm⟩

theorem commitChild_ok {self child self' : Impl Asset K V} (h : self.commitChild child = .ok self') :
    (∀ x, x ∉ child.entry → self'.entry.lookup x = self.entry.lookup x) ∧
      (∀ x p, child.entry.lookup x = some p →
        recordAt (self.entry.lookup x) p = .ok (self'.entry.lookup x)) ∧
      self'.ledgerSeq = child.ledgerSeq ∧
      self'.shouldUpdateLastModified = self.shouldUpdateLastModified := by
  unfold commitChild at h
  cases h₁ : child.entry.entries.foldlM (fun acc s => acc.updateEntry s.1 s.2 false) self with
  | error msg => simp [h₁, bind, Except.bind] at h
  | ok self₁ =>
    simp only [h₁, bind, Except.bind, pure, Except.pure, Except.ok.injEq] at h
    subst h
    obtain ⟨hEntry, -, hFlag⟩ := foldl_updateWorstBestOffer_fields child.worstBestOffer.entries self₁
    have hFold := AList.foldlM_lookup Impl.entry (fun acc a b => acc.updateEntry a b false)
      (fun _ old b new => recordAt old b = .ok new)
      (fun s a b s' hs => (updateEntry_recordedAt hs).1) child.entry.entries child.entry.nodupKeys
      self self₁ h₁
    have hFlag₁ : self₁.shouldUpdateLastModified = self.shouldUpdateLastModified :=
      AList.foldlM_invariant (fun s : Impl Asset K V => s.shouldUpdateLastModified = self.shouldUpdateLastModified)
        _ _ (fun s _ s' _ hs hStep => (updateEntry_recordedAt hStep).2.2.trans hs) self self₁ rfl h₁
    refine ⟨fun x hx => ?_, fun x p hp => ?_, rfl, ?_⟩
    · simp only [hEntry]
      exact (hFold x).1 hx
    · simp only [hEntry]
      exact (hFold x).2 p hp
    · simp only [hFlag, hFlag₁]

theorem commitChild_isOk (self child : Impl Asset K V)
    (hok : ∀ x p, child.entry.lookup x = some p → ∃ r, recordAt (self.entry.lookup x) p = .ok r) :
    ∃ self', self.commitChild child = .ok self' := by
  obtain ⟨self₁, h₁⟩ := AList.foldlM_ok Impl.entry (fun acc a b => acc.updateEntry a b false) self
    (fun s a b s' hs => (updateEntry_recordedAt hs).1.2) child.entry.entries child.entry.nodupKeys
    (fun s a b hb hsa => by
      obtain ⟨r, hr⟩ := hok a b hb
      rw [← hsa] at hr
      exact updateEntry_ok_of_recordAt false hr)
    self (fun _ _ => rfl)
  exact ⟨{ child.worstBestOffer.entries.foldl (fun acc s => acc.updateWorstBestOffer s.1 s.2) self₁ with
    ledgerSeq := child.ledgerSeq }, by simp only [commitChild, h₁, bind, Except.bind, pure, Except.pure]⟩

end Impl

end HcnetCore.Ledger
