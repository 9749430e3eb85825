import Mathlib

/-! # Stacks of overlays over a base map

An overlay records, for some keys, a new value or a deletion, and leaves every
other key to the layer below it. A stack of overlays is read from the top: the
first overlay that records a key decides it, and the base map answers the rest.
Laying the top overlay over the one below it merges them into one, in which the top decides
the keys it records.
-/

namespace OverlayStack

set_option autoImplicit false

variable {K V : Type}

/-- `o k = some (some v)` writes `v`, `o k = some none` deletes `k`, `o k = none` defers. -/
def Overlay (K V : Type) : Type := K → Option (Option V)

namespace Overlay

def empty : Overlay K V := fun _ => none

/-- Record `r` at `k`: a value, or `none` for a deletion. -/
def record [DecidableEq K] (o : Overlay K V) (k : K) (r : Option V) : Overlay K V :=
  fun k' => if k' = k then some r else o k'

/-- `top` laid over `below`: whatever `top` records wins. -/
def layOver (below top : Overlay K V) : Overlay K V := fun k => (top k).or (below k)

/-- Apply `f` to every value the overlay writes, keeping its deletions. -/
def mapVal (f : V → V) (o : Overlay K V) : Overlay K V := fun k => (o k).map (Option.map f)

@[simp] theorem empty_apply (k : K) : (empty : Overlay K V) k = none := rfl

@[simp] theorem record_apply_self [DecidableEq K] (o : Overlay K V) (k : K) (r : Option V) :
    o.record k r k = some r := by
  simp [record]

@[simp] theorem record_apply_of_ne [DecidableEq K] (o : Overlay K V) {k k' : K} (r : Option V)
    (h : k' ≠ k) : o.record k r k' = o k' := by
  simp [record, h]

@[simp] theorem layOver_apply (below top : Overlay K V) (k : K) :
    below.layOver top k = (top k).or (below k) := rfl

@[simp] theorem mapVal_apply (f : V → V) (o : Overlay K V) (k : K) :
    o.mapVal f k = (o k).map (Option.map f) := rfl

end Overlay

/-- The value that a stack of overlays, top first, shows at `k` over `base`. -/
def lookup (base : K → Option V) : List (Overlay K V) → K → Option V
  | [], k => base k
  | o :: os, k => (o k).getD (lookup base os k)

@[simp] theorem lookup_nil (base : K → Option V) (k : K) : lookup base [] k = base k := rfl

theorem lookup_cons (base : K → Option V) (o : Overlay K V) (os : List (Overlay K V)) (k : K) :
    lookup base (o :: os) k = (o k).getD (lookup base os k) := rfl

theorem lookup_cons_of_none (base : K → Option V) {o : Overlay K V} (os : List (Overlay K V))
    {k : K} (h : o k = none) : lookup base (o :: os) k = lookup base os k := by
  simp [lookup_cons, h]

theorem lookup_cons_of_some (base : K → Option V) {o : Overlay K V} (os : List (Overlay K V))
    {k : K} {r : Option V} (h : o k = some r) : lookup base (o :: os) k = r := by
  simp [lookup_cons, h]

@[simp] theorem lookup_empty_cons (base : K → Option V) (os : List (Overlay K V)) (k : K) :
    lookup base (Overlay.empty :: os) k = lookup base os k :=
  lookup_cons_of_none base os rfl

@[simp] theorem lookup_record_self [DecidableEq K] (base : K → Option V) (o : Overlay K V)
    (os : List (Overlay K V)) (k : K) (r : Option V) :
    lookup base (o.record k r :: os) k = r :=
  lookup_cons_of_some base os (Overlay.record_apply_self o k r)

end OverlayStack
