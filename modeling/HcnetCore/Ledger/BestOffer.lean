import HcnetCore.Ledger.LedgerTxn

/-! # Best offers

`getBestOffer` of a `LedgerTxn`, in its two overloads: the best offer its order book
records, the parent's best offer (past the worst best offer this `LedgerTxn` has loaded,
when it has one), and the loop that skips the parent's offers recorded here. Beside it
`getBestOfferSlow`, the scan of every recorded offer that the debugging build compares it
with, and `loadBestOffer`, which loads the best offer and moves the worst best offer.
The root's two queries read the database and are parameters.
-/

namespace HcnetCore.Ledger

set_option autoImplicit false

variable {Asset K V : Type}

structure OfferLedgerEntry (Asset : Type) where
  lastModifiedLedgerSeq : ℕ
  offer : OfferEntry Asset
deriving DecidableEq

namespace OfferLedgerEntry

def key (le : OfferLedgerEntry Asset) : LedgerKey K := .offer le.offer.sellerID le.offer.offerID

def toLedgerEntry (le : OfferLedgerEntry Asset) : InternalLedgerEntry Asset K V :=
  .ledgerEntry ⟨le.lastModifiedLedgerSeq, .offer le.offer⟩

end OfferLedgerEntry

def InternalLedgerEntry.offerEntry? : InternalLedgerEntry Asset K V → Option (OfferLedgerEntry Asset)
  | .ledgerEntry ⟨seq, .offer o⟩ => some ⟨seq, o⟩
  | _ => none

/-- `getBestOffer(buying, selling[, worseThan])` of a parent, `none` for the overload without
`worseThan`. -/
abbrev BestOfferFn (Asset : Type) :=
  Asset → Asset → Option OfferDescriptor → Except String (Option (OfferLedgerEntry Asset))

structure RootOffers (Asset : Type) where
  getBestOffer : Asset → Asset → Option OfferDescriptor → Option (OfferLedgerEntry Asset)
  getBestOfferSlow : Asset → Asset → Option OfferDescriptor → List ℤ → Option (OfferLedgerEntry Asset)

namespace Impl

variable [DecidableEq Asset] [DecidableEq K]

/-- `mEntry.find` of the key an order book holds: the offer recorded there, and
"invalid order book state" when the key is missing or deleted. -/
def bookEntry (self : Impl Asset K V) : Option (OfferDescriptor × LedgerKey K) →
    Except String (Option (OfferLedgerEntry Asset))
  | none => pure none
  | some (_, k) =>
    match (self.entry.lookup (.ledgerEntry k)).bind LedgerEntryPtr.get >>= InternalLedgerEntry.offerEntry? with
    | some le => pure (some le)
    | none => throw "invalid order book state"

/-- The loop that ends both `getBestOffer`s: while the parent's offer is better than `selfBest`,
return it if it is not recorded here, and otherwise ask the parent for the next one. The fuel is
the number of recorded keys and one more: each round passes a recorded key. -/
def bestOfferLoop (self : Impl Asset K V) (parentBest : BestOfferFn Asset) (buying selling : Asset)
    (selfBest : Option (OfferLedgerEntry Asset)) :
    ℕ → Option (OfferLedgerEntry Asset) → Except String (Option (OfferLedgerEntry Asset))
  | 0, _ => pure selfBest
  | _, none => pure selfBest
  | fuel + 1, some pb =>
    if selfBest.all fun sb => isBetterOffer pb.offer.descriptor sb.offer.descriptor then
      if self.entry.lookup (.ledgerEntry pb.key) = none then pure (some pb)
      else do
        let next ← parentBest buying selling (some pb.offer.descriptor)
        self.bestOfferLoop parentBest buying selling selfBest fuel next
    else pure selfBest

/-- `getBestOffer(buying, selling)`. A worst best offer `W` recorded for the pair says that every
parent offer no worse than `W` is recorded here, so the parent is asked only past `W`, and not at
all when `W` is null. -/
def getBestOffer (self : Impl Asset K V) (parentBest : BestOfferFn Asset) (buying selling : Asset) :
    Except String (Option (OfferLedgerEntry Asset)) := do
  let selfBest ← self.bookEntry (self.multiOrderBook buying selling).head?
  let parentBest₀ ← match self.worstBestOffer.lookup ⟨buying, selling⟩ with
    | some (some worst) => parentBest buying selling (some worst)
    | some none => pure none
    | none => parentBest buying selling none
  self.bestOfferLoop parentBest buying selling selfBest (self.entry.entries.length + 1) parentBest₀

def getBestOfferWorseThan (self : Impl Asset K V) (parentBest : BestOfferFn Asset)
    (buying selling : Asset) (worseThan : OfferDescriptor) :
    Except String (Option (OfferLedgerEntry Asset)) := do
  let selfBest ← self.bookEntry (OrderBook.upperBound worseThan (self.multiOrderBook buying selling))
  let parentBest₀ ← parentBest buying selling (some worseThan)
  self.bestOfferLoop parentBest buying selling selfBest (self.entry.entries.length + 1) parentBest₀

/-- One recorded entry in the scan of `getBestOfferSlow`: an offer key whose id is not yet
excluded is excluded from now on, and its offer, if it is live, has the pair and is worse than
`worseThan`, becomes the best so far when it is better. -/
def slowStep (buying selling : Asset) (worseThan : Option OfferDescriptor)
    (acc : Option (OfferLedgerEntry Asset) × List ℤ)
    (kv : Sigma fun _ : InternalLedgerKey K => LedgerEntryPtr (InternalLedgerEntry Asset K V)) :
    Option (OfferLedgerEntry Asset) × List ℤ :=
  match kv.1 with
  | .ledgerEntry (.offer _ offerID) =>
    if offerID ∈ acc.2 then acc
    else
      let exclude := offerID :: acc.2
      match kv.2.get.bind InternalLedgerEntry.offerEntry? with
      | some le =>
        if !(le.offer.buying == buying && le.offer.selling == selling) then (acc.1, exclude)
        else if worseThan.any fun w => !isBetterOffer w le.offer.descriptor then (acc.1, exclude)
        else if acc.1.all fun sb => isBetterOffer le.offer.descriptor sb.offer.descriptor then
          (some le, exclude)
        else (acc.1, exclude)
      | none => (acc.1, exclude)
  | _ => acc

def getBestOfferSlow (self : Impl Asset K V)
    (parentSlow : Asset → Asset → Option OfferDescriptor → List ℤ → Option (OfferLedgerEntry Asset))
    (buying selling : Asset) (worseThan : Option OfferDescriptor) (exclude : List ℤ) :
    Option (OfferLedgerEntry Asset) :=
  let scanned := self.entry.entries.foldl (slowStep buying selling worseThan) (none, exclude)
  match scanned.1, parentSlow buying selling worseThan scanned.2 with
  | some sb, none => some sb
  | none, some pb => some pb
  | some sb, some pb => if isBetterOffer sb.offer.descriptor pb.offer.descriptor then some sb else some pb
  | none, none => none

def loadBestOffer (self : Impl Asset K V)
    (parentNewest : InternalLedgerKey K → Option (InternalLedgerEntry Asset K V))
    (parentBest : BestOfferFn Asset) (buying selling : Asset) :
    Except String (Option (InternalLedgerEntry Asset K V) × Impl Asset K V) := do
  let le ← self.getBestOffer parentBest buying selling
  let (res, self) ← match le with
    | some le => self.load parentNewest (.ledgerEntry le.key)
    | none => pure (none, self)
  pure (res, self.updateWorstBestOffer ⟨buying, selling⟩ (le.map (·.offer.descriptor)))

end Impl

variable [DecidableEq Asset] [DecidableEq K]

def bestOffer (ro : RootOffers Asset) : List (Impl Asset K V) → BestOfferFn Asset
  | [] => fun buying selling worseThan => pure (ro.getBestOffer buying selling worseThan)
  | self :: parents => fun buying selling worseThan =>
    match worseThan with
    | none => self.getBestOffer (bestOffer ro parents) buying selling
    | some w => self.getBestOfferWorseThan (bestOffer ro parents) buying selling w

def bestOfferSlow (ro : RootOffers Asset) : List (Impl Asset K V) →
    Asset → Asset → Option OfferDescriptor → List ℤ → Option (OfferLedgerEntry Asset)
  | [] => ro.getBestOfferSlow
  | self :: parents => self.getBestOfferSlow (bestOfferSlow ro parents)

inductive OfferOp (Asset K V : Type) where
  | ledgerOp (op : Op Asset K V)
  | loadBestOffer (buying selling : Asset)

/-- One operation; the handle `loadBestOffer` returns is dropped at once. -/
def offerStep (root : Root Asset K V) (ro : RootOffers Asset) :
    OfferOp Asset K V → List (Impl Asset K V) → List (Impl Asset K V)
  | .ledgerOp op, stack => step root op stack
  | .loadBestOffer buying selling, self :: parents =>
    match self.loadBestOffer (newest root parents) (bestOffer ro parents) buying selling with
    | .ok (some e, self') =>
      match self'.deactivate e.toKey with
      | .ok self'' => self'' :: parents
      | .error _ => self :: parents
    | .ok (none, self') => self' :: parents
    | .error _ => self :: parents
  | .loadBestOffer _ _, [] => []

def offerRun (root : Root Asset K V) (ro : RootOffers Asset) (ops : List (OfferOp Asset K V))
    (stack : List (Impl Asset K V)) : List (Impl Asset K V) :=
  ops.foldl (fun s op => offerStep root ro op s) stack

end HcnetCore.Ledger
