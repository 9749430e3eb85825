import HcnetCore.Ledger.Entry
import HcnetCore.Library.AListMap

/-! # Nested `LedgerTxn`s

`LedgerTxn::Impl` as a record: the entry map `mEntry`, the order book of the live
offers it records, its worst-best-offer cache and the two header fields the
operations read. A stack of them, innermost first, stands over a root whose newest
versions are a fixed map. Operations act on the innermost `LedgerTxn`; the handle
that `create` and `load` return is dropped at the end of the operation, so no
entry stays active between operations.
-/

namespace HcnetCore.Ledger

set_option autoImplicit false

variable {Asset K V : Type}

abbrev EntryMap (Asset K V : Type) :=
  AList (fun _ : InternalLedgerKey K => LedgerEntryPtr (InternalLedgerEntry Asset K V))

/-- `OrderBook`: a `std::map` from descriptors to offer keys ordered by
`IsBetterOfferComparator`, kept as the list of its elements, best first. -/
abbrev OrderBook (K : Type) := List (OfferDescriptor × LedgerKey K)

abbrev MultiOrderBook (Asset K : Type) := Asset → Asset → OrderBook K

structure AssetPair (Asset : Type) where
  buying : Asset
  selling : Asset
deriving DecidableEq

abbrev WorstBestOfferMap (Asset : Type) :=
  AList (fun _ : AssetPair Asset => Option OfferDescriptor)

namespace OrderBook

def equiv (a b : OfferDescriptor) : Bool := !isBetterOffer a b && !isBetterOffer b a

def emplace (d : OfferDescriptor) (k : LedgerKey K) : OrderBook K → OrderBook K
  | [] => [(d, k)]
  | (d', k') :: rest =>
    if isBetterOffer d d' then (d, k) :: (d', k') :: rest
    else if isBetterOffer d' d then (d', k') :: emplace d k rest
    else (d', k') :: rest

def erase (d : OfferDescriptor) (ob : OrderBook K) : OrderBook K :=
  ob.eraseP fun e => equiv e.1 d

def upperBound (worseThan : OfferDescriptor) (ob : OrderBook K) :
    Option (OfferDescriptor × LedgerKey K) :=
  ob.find? fun e => isBetterOffer worseThan e.1

end OrderBook

def MultiOrderBook.modify [DecidableEq Asset] (mob : MultiOrderBook Asset K) (buying selling : Asset)
    (f : OrderBook K → OrderBook K) : MultiOrderBook Asset K :=
  Function.update mob buying (Function.update (mob buying) selling (f (mob buying selling)))

def removeFromOrderBookIfExists [DecidableEq Asset] (mob : MultiOrderBook Asset K)
    (oe : OfferEntry Asset) : MultiOrderBook Asset K :=
  mob.modify oe.buying oe.selling (OrderBook.erase oe.descriptor)

def isWorseThan : Option OfferDescriptor → Option OfferDescriptor → Bool
  | _, none => false
  | none, some _ => true
  | some lhs, some rhs => isBetterOffer rhs lhs

/-- `recordEntry`, the lambda inside `updateEntry` that writes `mEntry`: insert a new key,
annihilate an INIT entry that is deleted, and `mergeFrom` otherwise. -/
def recordEntry [DecidableEq K] (entry : EntryMap Asset K V) (key : InternalLedgerKey K)
    (lePtr : LedgerEntryPtr (InternalLedgerEntry Asset K V)) : Except String (EntryMap Asset K V) :=
  match entry.lookup key with
  | none => pure (entry.insert key lePtr)
  | some old =>
    if lePtr.isDeleted && old.isInit then pure (entry.erase key)
    else do
      let merged ← old.mergeFrom lePtr
      pure (entry.insert key merged)

def recordAt {E : Type} : Option (LedgerEntryPtr E) → LedgerEntryPtr E → Except String (Option (LedgerEntryPtr E))
  | none, lePtr => pure (some lePtr)
  | some old, lePtr =>
    if lePtr.isDeleted && old.isInit then pure none else some <$> old.mergeFrom lePtr

section RecordEntry

variable [DecidableEq K] {entry m : EntryMap Asset K V} {key : InternalLedgerKey K}
  {lePtr : LedgerEntryPtr (InternalLedgerEntry Asset K V)}

theorem recordEntry_ok (h : recordEntry entry key lePtr = .ok m) :
    recordAt (entry.lookup key) lePtr = .ok (m.lookup key) ∧
      ∀ x, x ≠ key → m.lookup x = entry.lookup x := by
  unfold recordEntry at h
  split at h
  · rename_i hNone
    cases h
    refine ⟨by simp [recordAt, hNone, AList.lookup_insert, pure, Except.pure], ?_⟩
    intro x hx
    exact AList.lookup_insert_ne hx
  · rename_i old hOld
    split at h
    · rename_i hAnnihilate
      cases h
      refine ⟨by simp [recordAt, hOld, hAnnihilate, AList.lookup_erase, pure, Except.pure], ?_⟩
      intro x hx
      exact AList.lookup_erase_ne hx
    · rename_i hMerge
      cases hm : old.mergeFrom lePtr with
      | error msg => simp [hm, bind, Except.bind] at h
      | ok merged =>
        simp only [hm] at h
        cases h
        refine ⟨by simp [recordAt, hOld, hMerge, hm, AList.lookup_insert], ?_⟩
        intro x hx
        exact AList.lookup_insert_ne hx

theorem recordEntry_error_iff (msg : String) :
    recordEntry entry key lePtr = .error msg ↔ recordAt (entry.lookup key) lePtr = .error msg := by
  unfold recordEntry recordAt
  split <;> rename_i hLookup <;> simp only [hLookup]
  · simp [pure, Except.pure]
  · split
    · simp [pure, Except.pure]
    · cases (LedgerEntryPtr.mergeFrom _ lePtr) <;> simp [bind, Except.bind, Functor.map, Except.map, pure, Except.pure]

end RecordEntry

structure Impl (Asset K V : Type) where
  entry : EntryMap Asset K V
  multiOrderBook : MultiOrderBook Asset K
  worstBestOffer : WorstBestOfferMap Asset
  /-- `mHeader->ledgerSeq`. -/
  ledgerSeq : ℕ
  shouldUpdateLastModified : Bool

namespace Impl

variable [DecidableEq Asset] [DecidableEq K]

def fresh (ledgerSeq : ℕ) (shouldUpdateLastModified : Bool) : Impl Asset K V :=
  ⟨∅, fun _ _ => [], ∅, ledgerSeq, shouldUpdateLastModified⟩

def updatedOrderBook (self : Impl Asset K V) (key : InternalLedgerKey K)
    (lePtr : LedgerEntryPtr (InternalLedgerEntry Asset K V)) (effectiveActive : Bool) :
    MultiOrderBook Asset K :=
  match key with
  | .ledgerEntry (.offer sellerID offerID) =>
    let mob₁ :=
      match (self.entry.lookup key).bind LedgerEntryPtr.get >>= InternalLedgerEntry.offer? with
      | some oe => removeFromOrderBookIfExists self.multiOrderBook oe
      | none => self.multiOrderBook
    match lePtr.get >>= InternalLedgerEntry.offer?, effectiveActive with
    | some oe, false =>
      mob₁.modify oe.buying oe.selling (OrderBook.emplace oe.descriptor (.offer sellerID offerID))
    | _, _ => mob₁
  | _ => self.multiOrderBook

def updateEntry (self : Impl Asset K V) (key : InternalLedgerKey K)
    (lePtr : LedgerEntryPtr (InternalLedgerEntry Asset K V)) (effectiveActive : Bool) :
    Except String (Impl Asset K V) := do
  let multiOrderBook := self.updatedOrderBook key lePtr effectiveActive
  let entry ← recordEntry self.entry key lePtr
  pure { self with entry, multiOrderBook }

def updateEntryIfRecorded (self : Impl Asset K V) (key : InternalLedgerKey K)
    (effectiveActive : Bool) : Except String (Impl Asset K V) :=
  if !key.isOffer then pure self
  else
    match self.entry.lookup key with
    | some lePtr => self.updateEntry key lePtr effectiveActive
    | none => pure self

def updateWorstBestOffer (self : Impl Asset K V) (assets : AssetPair Asset)
    (offerDesc : Option OfferDescriptor) : Impl Asset K V :=
  match self.worstBestOffer.lookup assets with
  | some cur =>
    if isWorseThan offerDesc cur then { self with worstBestOffer := self.worstBestOffer.insert assets offerDesc }
    else self
  | none => { self with worstBestOffer := self.worstBestOffer.insert assets offerDesc }

theorem updateEntry_ok {self self' : Impl Asset K V} {key : InternalLedgerKey K}
    {lePtr : LedgerEntryPtr (InternalLedgerEntry Asset K V)} {effectiveActive : Bool}
    (h : self.updateEntry key lePtr effectiveActive = .ok self') :
    recordEntry self.entry key lePtr = .ok self'.entry ∧ self'.worstBestOffer = self.worstBestOffer ∧
      self'.ledgerSeq = self.ledgerSeq ∧
      self'.shouldUpdateLastModified = self.shouldUpdateLastModified := by
  unfold updateEntry at h
  cases hr : recordEntry self.entry key lePtr with
  | error msg => simp [hr, bind, Except.bind] at h
  | ok entry =>
    simp only [hr, bind, Except.bind, pure, Except.pure, Except.ok.injEq] at h
    subst h
    exact ⟨rfl, rfl, rfl, rfl⟩

theorem updateEntry_error_iff (self : Impl Asset K V) (key : InternalLedgerKey K)
    (lePtr : LedgerEntryPtr (InternalLedgerEntry Asset K V)) (effectiveActive : Bool) (msg : String) :
    self.updateEntry key lePtr effectiveActive = .error msg ↔
      recordEntry self.entry key lePtr = .error msg := by
  unfold updateEntry
  cases recordEntry self.entry key lePtr <;> simp [bind, Except.bind, pure, Except.pure]

section Parent

variable (parentNewest : InternalLedgerKey K → Option (InternalLedgerEntry Asset K V))

def getNewestVersion (self : Impl Asset K V) (key : InternalLedgerKey K) :
    Option (InternalLedgerEntry Asset K V) :=
  match self.entry.lookup key with
  | some lePtr => lePtr.get
  | none => parentNewest key

/-- `create`, followed by the deactivation of the handle it returns. -/
def create (self : Impl Asset K V) (entry : InternalLedgerEntry Asset K V) :
    Except String (Impl Asset K V) := do
  let key := entry.toKey
  if (self.getNewestVersion parentNewest key).isSome then throw "Key already exists"
  let self ← self.updateEntry key (.init entry) true
  self.updateEntryIfRecorded key false

def load (self : Impl Asset K V) (key : InternalLedgerKey K) :
    Except String (Option (InternalLedgerEntry Asset K V) × Impl Asset K V) :=
  match self.entry.lookup key with
  | some lePtr =>
    match lePtr.get with
    | some e => do pure (some e, ← self.updateEntry key lePtr true)
    | none => pure (none, self)
  | none =>
    match parentNewest key with
    | some e => do pure (some e, ← self.updateEntry key (.live e) true)
    | none => pure (none, self)

/-- An edit through the handle of `load`, which shares the recorded entry. -/
def modifyLoaded (self : Impl Asset K V) (key : InternalLedgerKey K)
    (modify : InternalLedgerEntry Asset K V → InternalLedgerEntry Asset K V) : Impl Asset K V :=
  match self.entry.lookup key with
  | some lePtr => { self with entry := self.entry.insert key (lePtr.map modify) }
  | none => self

def deactivate (self : Impl Asset K V) (key : InternalLedgerKey K) : Except String (Impl Asset K V) :=
  self.updateEntryIfRecorded key false

def loadAndModify (self : Impl Asset K V) (key : InternalLedgerKey K)
    (modify : InternalLedgerEntry Asset K V → InternalLedgerEntry Asset K V) :
    Except String (Option (InternalLedgerEntry Asset K V) × Impl Asset K V) := do
  let (loaded, self) ← self.load parentNewest key
  match loaded with
  | some e => pure (some e, ← (self.modifyLoaded key modify).deactivate key)
  | none => pure (none, self)

def erase (self : Impl Asset K V) (key : InternalLedgerKey K) : Except String (Impl Asset K V) :=
  match self.getNewestVersion parentNewest key with
  | none => throw "Key does not exist"
  | some _ =>
    if key.isConfigSetting then throw "Configuration settings cannot be erased."
    else self.updateEntry key .deleted false

end Parent

def maybeUpdateLastModified (self : Impl Asset K V) : Impl Asset K V :=
  if self.shouldUpdateLastModified then
    { self with entry := self.entry.mapVal fun _ lePtr => lePtr.map (·.setLastModified self.ledgerSeq) }
  else self

def commitChild (self child : Impl Asset K V) : Except String (Impl Asset K V) := do
  let self ← child.entry.entries.foldlM (fun acc s => acc.updateEntry s.1 s.2 false) self
  let self := child.worstBestOffer.entries.foldl (fun acc s => acc.updateWorstBestOffer s.1 s.2) self
  pure { self with ledgerSeq := child.ledgerSeq }

/-- `getChanges`: over the stamped entries, CREATED for an INIT entry, and otherwise the
parent's previous version (STATE) followed by REMOVED or UPDATED. A non-INIT entry whose
parent has no previous version fails `releaseAssert(previous)`. -/
def getChanges (self : Impl Asset K V)
    (parentNewest : InternalLedgerKey K → Option (InternalLedgerEntry Asset K V)) :
    Except String (List (LedgerEntryChange Asset K V)) :=
  List.foldlM (fun changes s =>
    match s.1 with
    | .internal _ => pure changes
    | .ledgerEntry lk =>
      match s.2 with
      | .init e => pure (changes ++ (e.ledgerEntry?.map .created).toList)
      | lePtr =>
        match parentNewest s.1 with
        | none => throw "previous"
        | some previous =>
          pure (changes ++ (previous.ledgerEntry?.map .state).toList ++
            match lePtr.get with
            | none => [.removed lk]
            | some e => (e.ledgerEntry?.map .updated).toList))
    [] self.maybeUpdateLastModified.entry.entries

def getAllEntries (self : Impl Asset K V) :
    List (LedgerEntry Asset K V) × List (LedgerEntry Asset K V) × List (LedgerKey K) :=
  let entries := self.maybeUpdateLastModified.entry.entries
  (entries.filterMap fun s =>
      match s.1, s.2 with
      | .ledgerEntry _, .init e => e.ledgerEntry?
      | _, _ => none,
    entries.filterMap fun s =>
      match s.1, s.2 with
      | .ledgerEntry _, .live e => e.ledgerEntry?
      | _, _ => none,
    entries.filterMap fun s =>
      match s.1, s.2 with
      | .ledgerEntry lk, .deleted => some lk
      | _, _ => none)

end Impl

/-- The root below the outermost `LedgerTxn`: its newest versions and its header. -/
structure Root (Asset K V : Type) where
  getNewestVersion : InternalLedgerKey K → Option (InternalLedgerEntry Asset K V)
  ledgerSeq : ℕ

variable [DecidableEq Asset] [DecidableEq K]

def newest (root : Root Asset K V) : List (Impl Asset K V) → InternalLedgerKey K →
    Option (InternalLedgerEntry Asset K V)
  | [] => root.getNewestVersion
  | self :: parents => self.getNewestVersion (newest root parents)

def headerSeq (root : Root Asset K V) : List (Impl Asset K V) → ℕ
  | [] => root.ledgerSeq
  | self :: _ => self.ledgerSeq

/-- The operations on the innermost `LedgerTxn`. An edit made through the handle of `load`
keeps the entry's key. -/
inductive Op (Asset K V : Type) where
  | openChild (shouldUpdateLastModified : Bool)
  | create (entry : InternalLedgerEntry Asset K V)
  | load (key : InternalLedgerKey K)
      (modify : InternalLedgerEntry Asset K V → InternalLedgerEntry Asset K V)
      (hmodify : ∀ e, (modify e).toKey = e.toKey)
  | erase (key : InternalLedgerKey K)
  | commit
  | rollback

/-- One operation on a stack of `LedgerTxn`s. An operation that throws leaves the stack as it
was (the strong exception-safety guarantee). With no `LedgerTxn` open only `openChild` applies,
and committing the outermost `LedgerTxn` would write the root, which is kept fixed here. -/
def step (root : Root Asset K V) : Op Asset K V → List (Impl Asset K V) → List (Impl Asset K V)
  | .openChild flag, stack => Impl.fresh (headerSeq root stack) flag :: stack
  | .create e, self :: parents =>
    match self.create (newest root parents) e with
    | .ok self' => self' :: parents
    | .error _ => self :: parents
  | .load key modify _, self :: parents =>
    match self.loadAndModify (newest root parents) key modify with
    | .ok (_, self') => self' :: parents
    | .error _ => self :: parents
  | .erase key, self :: parents =>
    match self.erase (newest root parents) key with
    | .ok self' => self' :: parents
    | .error _ => self :: parents
  | .commit, child :: self :: parents =>
    match self.commitChild child.maybeUpdateLastModified with
    | .ok self' => self' :: parents
    | .error _ => child :: self :: parents
  | .rollback, _ :: parents => parents
  | _, stack => stack

def run (root : Root Asset K V) (ops : List (Op Asset K V)) (stack : List (Impl Asset K V)) :
    List (Impl Asset K V) :=
  ops.foldl (fun s op => step root op s) stack

end HcnetCore.Ledger
