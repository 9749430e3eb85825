import HcnetCore.Library.Binary64

/-! # Ledger keys, entries and tagged entry pointers

Keys and entries of a `LedgerTxn`, with the offer fields that the order book
reads, the `isBetterOffer` order on offer descriptors, and `LedgerEntryPtr`:
an entry tagged INIT, LIVE or DELETED together with its `mergeFrom`.
-/

namespace HcnetCore.Ledger

set_option autoImplicit false

/-- Account ids are only compared for equality here. -/
abbrev AccountID := Nat

structure Price where
  n : ℤ
  d : ℤ
deriving DecidableEq

structure OfferDescriptor where
  price : Price
  offerID : ℤ
deriving DecidableEq

structure OfferEntry (Asset : Type) where
  sellerID : AccountID
  offerID : ℤ
  selling : Asset
  buying : Asset
  price : Price
deriving DecidableEq

/-- `LedgerEntry::data`: offers, configuration settings, and the other entry types
(their key and contents kept abstract). -/
inductive LedgerEntryData (Asset K V : Type) where
  | offer (o : OfferEntry Asset)
  | configSetting (k : K) (v : V)
  | other (k : K) (v : V)
deriving DecidableEq

structure LedgerEntry (Asset K V : Type) where
  lastModifiedLedgerSeq : ℕ
  data : LedgerEntryData Asset K V
deriving DecidableEq

inductive LedgerKey (K : Type) where
  | offer (sellerID : AccountID) (offerID : ℤ)
  | configSetting (k : K)
  | other (k : K)
deriving DecidableEq

/-- `InternalLedgerKey`: a ledger key, or the key of an internal entry (such as a
sponsorship) that is not a ledger entry. -/
inductive InternalLedgerKey (K : Type) where
  | ledgerEntry (k : LedgerKey K)
  | internal (k : K)
deriving DecidableEq

inductive InternalLedgerEntry (Asset K V : Type) where
  | ledgerEntry (le : LedgerEntry Asset K V)
  | internal (k : K) (v : V)
deriving DecidableEq

variable {Asset K V : Type}

def LedgerEntry.key (le : LedgerEntry Asset K V) : LedgerKey K :=
  match le.data with
  | .offer o => .offer o.sellerID o.offerID
  | .configSetting k _ => .configSetting k
  | .other k _ => .other k

namespace InternalLedgerKey

def isLedgerEntry : InternalLedgerKey K → Bool
  | .ledgerEntry _ => true
  | .internal _ => false

def isOffer : InternalLedgerKey K → Bool
  | .ledgerEntry (.offer _ _) => true
  | _ => false

def isConfigSetting : InternalLedgerKey K → Bool
  | .ledgerEntry (.configSetting _) => true
  | _ => false

end InternalLedgerKey

namespace InternalLedgerEntry

def toKey : InternalLedgerEntry Asset K V → InternalLedgerKey K
  | .ledgerEntry le => .ledgerEntry le.key
  | .internal k _ => .internal k

def offer? : InternalLedgerEntry Asset K V → Option (OfferEntry Asset)
  | .ledgerEntry ⟨_, .offer o⟩ => some o
  | _ => none

/-- `ledgerEntry().lastModifiedLedgerSeq = seq` on a ledger entry; internal entries have
no such field. -/
def setLastModified (seq : ℕ) : InternalLedgerEntry Asset K V → InternalLedgerEntry Asset K V
  | .ledgerEntry le => .ledgerEntry { le with lastModifiedLedgerSeq := seq }
  | .internal k v => .internal k v

def ledgerEntry? : InternalLedgerEntry Asset K V → Option (LedgerEntry Asset K V)
  | .ledgerEntry le => some le
  | .internal _ _ => none

@[simp] theorem toKey_setLastModified (seq : ℕ) (e : InternalLedgerEntry Asset K V) :
    (e.setLastModified seq).toKey = e.toKey := by
  cases e <;> rfl

end InternalLedgerEntry

inductive LedgerEntryChange (Asset K V : Type) where
  | created (e : LedgerEntry Asset K V)
  | updated (e : LedgerEntry Asset K V)
  | removed (k : LedgerKey K)
  | state (e : LedgerEntry Asset K V)

/-- `isBetterOffer(OfferDescriptor, OfferDescriptor)`: the lower price, compared as
`double(n) / double(d)`, and then the lower offer id. -/
def isBetterOffer (lhs rhs : OfferDescriptor) : Bool :=
  let lhsPrice := Binary64.div lhs.price.n lhs.price.d
  let rhsPrice := Binary64.div rhs.price.n rhs.price.d
  if Binary64.lt lhsPrice rhsPrice then true
  else if Binary64.beq lhsPrice rhsPrice then decide (lhs.offerID < rhs.offerID)
  else false

def OfferEntry.descriptor (oe : OfferEntry Asset) : OfferDescriptor := ⟨oe.price, oe.offerID⟩

inductive EntryPtrState where
  | init
  | live
  | deleted
deriving DecidableEq

/-- `LedgerEntryPtr`. Its constructor throws unless INIT and LIVE hold an entry and
DELETED holds none; here that check is the shape of the type. -/
inductive LedgerEntryPtr (E : Type) where
  | init (e : E)
  | live (e : E)
  | deleted
deriving DecidableEq

namespace LedgerEntryPtr

variable {E : Type}

def getState : LedgerEntryPtr E → EntryPtrState
  | .init _ => .init
  | .live _ => .live
  | .deleted => .deleted

def get : LedgerEntryPtr E → Option E
  | .init e => some e
  | .live e => some e
  | .deleted => none

def isInit (p : LedgerEntryPtr E) : Bool := p.getState == .init

def isDeleted (p : LedgerEntryPtr E) : Bool := p.getState == .deleted

def map (f : E → E) : LedgerEntryPtr E → LedgerEntryPtr E
  | .init e => .init (f e)
  | .live e => .live (f e)
  | .deleted => .deleted

def mergeFrom : LedgerEntryPtr E → LedgerEntryPtr E → Except String (LedgerEntryPtr E)
  | .init _, .deleted => .error "cannot delete non-live entry"
  | .init _, .init e => .ok (.init e)
  | .init _, .live e => .ok (.init e)
  | .live _, .init _ => .error "cannot commit a child init entry into a parent live entry"
  | .live _, entryPtr => .ok entryPtr
  | .deleted, .init e => .ok (.live e)
  | .deleted, .live _ => .error "cannot set deleted entry to live"
  | .deleted, .deleted => .error "cannot delete deleted entry"

@[simp] theorem get_init (e : E) : (init e).get = some e := rfl
@[simp] theorem get_live (e : E) : (live e).get = some e := rfl
@[simp] theorem get_deleted : (deleted : LedgerEntryPtr E).get = none := rfl

@[simp] theorem isInit_iff (p : LedgerEntryPtr E) : p.isInit = true ↔ ∃ e, p = .init e := by
  cases p <;> simp [isInit, getState]

@[simp] theorem isDeleted_iff (p : LedgerEntryPtr E) : p.isDeleted = true ↔ p = .deleted := by
  cases p <;> simp [isDeleted, getState]

theorem get_eq_none_iff (p : LedgerEntryPtr E) : p.get = none ↔ p = .deleted := by
  cases p <;> simp

@[simp] theorem get_map (f : E → E) (p : LedgerEntryPtr E) : (p.map f).get = p.get.map f := by
  cases p <;> rfl

@[simp] theorem getState_map (f : E → E) (p : LedgerEntryPtr E) : (p.map f).getState = p.getState := by
  cases p <;> rfl

end LedgerEntryPtr

end HcnetCore.Ledger
