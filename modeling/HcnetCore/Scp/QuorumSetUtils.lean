import HcnetCore.Scp.Types
import Mathlib

/-! # Sanity of quorum sets

`QuorumSetSanityChecker`: a quorum set is sane when it nests at most four levels deep, every
threshold is positive and at most the number of entries (and, with the extra checks, above
the v-blocking size), no node occurs twice, and it names between 1 and 1000 nodes. The
checker walks the inner sets depth first, carrying the nodes seen and their count, and stops
at the first failure with its message.
-/

namespace HcnetCore.Scp

set_option autoImplicit false

variable {N : Type} [DecidableEq N]

def MAXIMUM_QUORUM_NESTING_LEVEL : ℕ := 4

/-- The insertions of the validators into `mKnownNodes`; the first one already known fails. -/
def insertKnownNodes : List N → List N → Except String (List N)
  | known, [] => pure known
  | known, n :: rest =>
    if n ∈ known then throw "Duplicate node found in quorum configuration"
    else insertKnownNodes (n :: known) rest

mutual

/-- `QuorumSetSanityChecker::checkSanity` at nesting `depth`, threading `mKnownNodes` and
`mCount`. -/
def checkSanity (extraChecks : Bool) : SCPQuorumSet N → ℕ → List N × ℕ → Except String (List N × ℕ)
  | ⟨threshold, v, i⟩, depth, (knownNodes, count) =>
    if depth > MAXIMUM_QUORUM_NESTING_LEVEL then throw "Maximum quorum nesting level exceeded"
    else if threshold.val < 1 then throw "Threshold must be greater than 0"
    else
      let totEntries := v.length + i.length
      let vBlockingSize := totEntries - threshold.val + 1
      let count := count + v.length
      if threshold.val > totEntries then throw "Threshold exceeds total number of entries"
      else if extraChecks && decide (threshold.val < vBlockingSize) then
        throw "Threshold is lower than the v-blocking size (< 51%)."
      else do
        let knownNodes ← insertKnownNodes knownNodes v
        checkInnerSanity extraChecks i depth (knownNodes, count)

def checkInnerSanity (extraChecks : Bool) : List (SCPQuorumSet N) → ℕ → List N × ℕ →
    Except String (List N × ℕ)
  | [], _, s => pure s
  | iSet :: rest, depth, s => do
    let s ← checkSanity extraChecks iSet (depth + 1) s
    checkInnerSanity extraChecks rest depth s

end

def quorumSetSanity (qSet : SCPQuorumSet N) (extraChecks : Bool) : Except String Unit := do
  let (_, count) ← checkSanity extraChecks qSet 0 ([], 0)
  if count < 1 || count > 1000 then throw "Total number of nodes in a quorum must be within 1 and 1000"

def isQuorumSetSane (qSet : SCPQuorumSet N) (extraChecks : Bool) : Bool :=
  match quorumSetSanity qSet extraChecks with
  | .ok () => true
  | .error _ => false

section Normalize

/-! ## Normalization

`normalizeQSet` first simplifies (`normalizeQSetSimplify`), then puts the validators and the
inner sets in a standard order (`normalizeQuorumSetReorder`). Node ids are ordered by their
`operator<`, here any linear order. -/

variable {N : Type} [LinearOrder N]

def removeValidator (idToRemove : Option N) (threshold : uint32) (v : List N) : uint32 × List N :=
  match idToRemove with
  | some id => (threshold - Fin.ofNat _ (v.filter (· = id)).length, v.filter (· ≠ id))
  | none => (threshold, v)

def singletonValidator (qSet : SCPQuorumSet N) : Option N :=
  match qSet.threshold.val, qSet.validators, qSet.innerSets with
  | 1, [x], [] => some x
  | _, _, _ => none

def collapseSingleInnerSet (threshold : uint32) (v : List N) (i : List (SCPQuorumSet N)) : SCPQuorumSet N :=
  match threshold.val, v, i with
  | 1, [], [t] => t
  | _, _, _ => ⟨threshold, v, i⟩

mutual

/-- `normalizeQSetSimplify`: removes `idToRemove` from the validators; merges the inner sets
`{t: 1, [X]}` into the validators; and replaces `{t: 1, {innerSet}}` by `innerSet`, bottom up. -/
def normalizeQSetSimplify (idToRemove : Option N) : SCPQuorumSet N → SCPQuorumSet N
  | ⟨threshold, v, i⟩ =>
    let removed := removeValidator idToRemove threshold v
    let i := simplifyInnerSets idToRemove i
    collapseSingleInnerSet removed.1 (removed.2 ++ i.1) i.2

def simplifyInnerSets (idToRemove : Option N) : List (SCPQuorumSet N) → List N × List (SCPQuorumSet N)
  | [] => ([], [])
  | inner :: rest =>
    let inner := normalizeQSetSimplify idToRemove inner
    let rest := simplifyInnerSets idToRemove rest
    match singletonValidator inner with
    | some x => (x :: rest.1, rest.2)
    | none => (rest.1, inner :: rest.2)

end

def intLexicographicalCompare {α : Type} (comp : α → α → ℤ) : List α → List α → ℤ
  | a :: as, b :: bs =>
    let c := comp a b
    if c ≠ 0 then c else intLexicographicalCompare comp as bs
  | [], [] => 0
  | [], _ :: _ => -1
  | _ :: _, [] => 1

def nodeIDCompare (l r : N) : ℤ :=
  if l < r then -1 else if r < l then 1 else 0

mutual

def qSetCompareInt : SCPQuorumSet N → SCPQuorumSet N → ℤ
  | ⟨lThreshold, lvals, li⟩, ⟨rThreshold, rvals, ri⟩ =>
    -- compare by validators first
    let res := intLexicographicalCompare nodeIDCompare lvals rvals
    if res ≠ 0 then res
    else
      -- then compare by inner sets
      let res := innerSetsCompare li ri
      if res ≠ 0 then res
      -- compare by threshold
      else if lThreshold < rThreshold then -1 else if lThreshold = rThreshold then 0 else 1

def innerSetsCompare : List (SCPQuorumSet N) → List (SCPQuorumSet N) → ℤ
  | l :: ls, r :: rs =>
    let c := qSetCompareInt l r
    if c ≠ 0 then c else innerSetsCompare ls rs
  | [], [] => 0
  | [], _ :: _ => -1
  | _ :: _, [] => 1

end

/-- `std::sort` by the strict comparison `lt`. It is used with strict total orders, under which
only one order of the elements is sorted, so an insertion sort gives what any sort gives. -/
def stdSort {α : Type} (lt : α → α → Bool) (l : List α) : List α :=
  l.insertionSort fun a b => lt b a = false

mutual

def normalizeQuorumSetReorder : SCPQuorumSet N → SCPQuorumSet N
  | ⟨threshold, validators, innerSets⟩ =>
    ⟨threshold, stdSort (fun l r => decide (l < r)) validators,
      stdSort (fun l r => decide (qSetCompareInt l r < 0)) (reorderInnerSets innerSets)⟩

def reorderInnerSets : List (SCPQuorumSet N) → List (SCPQuorumSet N)
  | [] => []
  | qs :: rest => normalizeQuorumSetReorder qs :: reorderInnerSets rest

end

def normalizeQSet (qSet : SCPQuorumSet N) (idToRemove : Option N) : SCPQuorumSet N :=
  normalizeQuorumSetReorder (normalizeQSetSimplify idToRemove qSet)

end Normalize

end HcnetCore.Scp
