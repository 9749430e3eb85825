import HcnetCore.Ledger.LedgerTxn
import HcnetCore.Library.OverlayStack
import HcnetCore.Library.StackMachine

/-! # `LedgerTxn`s as overlays

The abstract view of nested `LedgerTxn`s: each one a partial overlay from keys to an
entry or a deletion, read from the innermost one down to the root. `create`, `load` and
`erase` record at the innermost overlay what they make visible, `commit` lays the
child's overlay over its parent's, and `rollback` drops it. Which overlay a commit lays
down is a parameter: the child's own, or the child's with every entry stamped as
`maybeUpdateLastModified` stamps it.
-/

namespace HcnetCore.Ledger

open OverlayStack

set_option autoImplicit false

variable {Asset K V : Type}

/-- A `LedgerTxn` as an overlay, with the header fields that its commit reads. -/
structure TxnOverlay (Asset K V : Type) where
  overlay : Overlay (InternalLedgerKey K) (InternalLedgerEntry Asset K V)
  ledgerSeq : ℕ
  shouldUpdateLastModified : Bool

/-- The overlay with every entry stamped with the header's `ledgerSeq`, if the `LedgerTxn`
was opened to do so. -/
def TxnOverlay.stamped (t : TxnOverlay Asset K V) : Overlay (InternalLedgerKey K) (InternalLedgerEntry Asset K V) :=
  if t.shouldUpdateLastModified then t.overlay.mapVal (·.setLastModified t.ledgerSeq) else t.overlay

variable [DecidableEq K]

/-- What a stack of overlays shows at a key, innermost first, over the root. -/
def visible (root : Root Asset K V) (ts : List (TxnOverlay Asset K V)) :
    InternalLedgerKey K → Option (InternalLedgerEntry Asset K V) :=
  lookup root.getNewestVersion (ts.map TxnOverlay.overlay)

/-- The header's `ledgerSeq` at the top of a stack of overlays. -/
def overlayHeaderSeq (root : Root Asset K V) : List (TxnOverlay Asset K V) → ℕ
  | [] => root.ledgerSeq
  | t :: _ => t.ledgerSeq

/-- One operation on a stack of overlays; `committed` is what a child lays over its parent. -/
def overlayStep (committed : TxnOverlay Asset K V → Overlay (InternalLedgerKey K) (InternalLedgerEntry Asset K V))
    (root : Root Asset K V) : Op Asset K V → List (TxnOverlay Asset K V) → List (TxnOverlay Asset K V)
  | .openChild flag, ts => ⟨Overlay.empty, overlayHeaderSeq root ts, flag⟩ :: ts
  | .create e, t :: ts =>
    if (visible root (t :: ts) e.toKey).isSome then t :: ts
    else { t with overlay := t.overlay.record e.toKey (some e) } :: ts
  | .load key modify _, t :: ts =>
    match visible root (t :: ts) key with
    | some e => { t with overlay := t.overlay.record key (some (modify e)) } :: ts
    | none => t :: ts
  | .erase key, t :: ts =>
    if (visible root (t :: ts) key).isSome && !key.isConfigSetting then
      { t with overlay := t.overlay.record key none } :: ts
    else t :: ts
  | .commit, c :: t :: ts => { t with overlay := t.overlay.layOver (committed c), ledgerSeq := c.ledgerSeq } :: ts
  | .rollback, _ :: ts => ts
  | _, ts => ts

def overlayRun (committed : TxnOverlay Asset K V → Overlay (InternalLedgerKey K) (InternalLedgerEntry Asset K V))
    (root : Root Asset K V) (ops : List (Op Asset K V)) (ts : List (TxnOverlay Asset K V)) :
    List (TxnOverlay Asset K V) :=
  StackMachine.run (overlayStep committed root) ops ts

end HcnetCore.Ledger
