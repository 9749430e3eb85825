import HcnetCore.Scp.Types
import Mathlib

/-! # Quorum slices, v-blocking sets and quorums

`LocalNode`'s tests of a set of nodes against a quorum set: `isQuorumSlice` counts the
threshold down over the validators and then over the inner sets, `isVBlocking` counts down
the number of entries that may still be missing, and `isQuorum` removes, until nothing more
goes, every node whose own quorum set is not satisfied by the nodes left, then asks whether
the local quorum set is.
-/

namespace HcnetCore.Scp

set_option autoImplicit false

variable {N : Type} [DecidableEq N]

/-- The countdown of `isQuorumSliceInternal`: `none` once the count reaches zero, which
returns true, else the count left. `thresholdLeft` is a `uint32` and wraps below zero. -/
def thresholdCountdown : uint32 → List Bool → Option uint32
  | left, [] => some left
  | left, found :: rest =>
    if found then
      if left - 1 = 0 then none else thresholdCountdown (left - 1) rest
    else thresholdCountdown left rest

mutual

def isQuorumSliceInternal : SCPQuorumSet N → List N → Bool
  | ⟨threshold, validators, innerSets⟩, nodeSet =>
    match thresholdCountdown threshold (validators.map fun v => decide (v ∈ nodeSet)) with
    | none => true
    | some thresholdLeft => innerSlicesReach innerSets nodeSet thresholdLeft

def innerSlicesReach : List (SCPQuorumSet N) → List N → uint32 → Bool
  | [], _, _ => false
  | inner :: rest, nodeSet, thresholdLeft =>
    if isQuorumSliceInternal inner nodeSet then
      if thresholdLeft - 1 = 0 then true else innerSlicesReach rest nodeSet (thresholdLeft - 1)
    else innerSlicesReach rest nodeSet thresholdLeft

end

def isQuorumSlice (qSet : SCPQuorumSet N) (nodeSet : List N) : Bool :=
  isQuorumSliceInternal qSet nodeSet

/-- `(int)` of a `size_t`: the low 32 bits, two's complement. -/
def sizeToInt (x : ℕ) : ℤ := ((x + 2 ^ 31) % 2 ^ 32 : ℕ) - 2 ^ 31

def blockCountdown : ℤ → List Bool → Option ℤ
  | left, [] => some left
  | left, found :: rest =>
    if found then
      if left - 1 ≤ 0 then none else blockCountdown (left - 1) rest
    else blockCountdown left rest

mutual

/-- `LocalNode::isVBlockingInternal`. `leftTillBlock` is computed in `size_t`, where the
subtraction wraps, and cast to `int`. -/
def isVBlockingInternal : SCPQuorumSet N → List N → Bool
  | ⟨threshold, validators, innerSets⟩, nodeSet =>
    if threshold = 0 then false
    else
      let leftTillBlock := sizeToInt ((1 + validators.length + innerSets.length + 2 ^ 64 - threshold.val) % 2 ^ 64)
      match blockCountdown leftTillBlock (validators.map fun v => decide (v ∈ nodeSet)) with
      | none => true
      | some left => innerBlocks innerSets nodeSet left

def innerBlocks : List (SCPQuorumSet N) → List N → ℤ → Bool
  | [], _, _ => false
  | inner :: rest, nodeSet, leftTillBlock =>
    if isVBlockingInternal inner nodeSet then
      if leftTillBlock - 1 ≤ 0 then true else innerBlocks rest nodeSet (leftTillBlock - 1)
    else innerBlocks rest nodeSet leftTillBlock

end

def isVBlocking (qSet : SCPQuorumSet N) (nodeSet : List N) : Bool :=
  isVBlockingInternal qSet nodeSet

def sizeDec (x : ℕ) : ℕ := (x + 2 ^ 64 - 1) % 2 ^ 64

def closestValidators (nodes : List N) (excluded : Option N) : ℕ → List N → Option (ℕ × List N)
  | leftTillBlock, [] => some (leftTillBlock, [])
  | leftTillBlock, validator :: rest =>
    if excluded = some validator then closestValidators nodes excluded leftTillBlock rest
    else if validator ∈ nodes then
      (closestValidators nodes excluded leftTillBlock rest).map fun (left, res) => (left, validator :: res)
    else if sizeDec leftTillBlock = 0 then none
    else closestValidators nodes excluded (sizeDec leftTillBlock) rest

def closestInnerSets : ℕ → List (List N) → List (List N) → Option (ℕ × List (List N))
  | leftTillBlock, [], resInternals => some (leftTillBlock, resInternals)
  | leftTillBlock, v :: rest, resInternals =>
    if v.length = 0 then
      if sizeDec leftTillBlock = 0 then none else closestInnerSets (sizeDec leftTillBlock) rest resInternals
    else closestInnerSets leftTillBlock rest (resInternals.orderedInsert (fun a b => a.length < b.length) v)

/-- `LocalNode::findClosestVBlocking`. The inner sets' results are all computed and then counted
in order; the code computes each inside its loop, and the results it does not reach change
nothing. -/
def findClosestVBlocking : SCPQuorumSet N → List N → Option N → List N
  | ⟨threshold, validators, innerSets⟩, nodes, excluded =>
    let leftTillBlock := (1 + validators.length + innerSets.length + 2 ^ 64 - threshold.val) % 2 ^ 64
    match closestValidators nodes excluded leftTillBlock validators with
    | none => []
    | some (leftTillBlock, res) =>
      match closestInnerSets leftTillBlock (innerSets.map fun inner => findClosestVBlocking inner nodes excluded) [] with
      | none => []
      | some (leftTillBlock, resInternals) =>
        -- the validators first, then the smallest results of the inner sets
        let res := res.take leftTillBlock
        res ++ (resInternals.take (leftTillBlock - res.length)).flatten

def buildSingletonQSet (nodeID : N) : SCPQuorumSet N :=
  ⟨1, [nodeID], []⟩

/-- The rounds of `isQuorum`: drop the nodes whose quorum set is not satisfied by the nodes
left, until a round drops none. The fuel is the number of nodes and one more: every round
but the last drops a node. -/
def quorumRounds (qsetOf : N → Option (SCPQuorumSet N)) : ℕ → List N → List N
  | 0, pNodes => pNodes
  | fuel + 1, pNodes =>
    let fNodes := pNodes.filter fun n =>
      match qsetOf n with
      | some q => isQuorumSlice q pNodes
      | none => false
    if pNodes.length = fNodes.length then fNodes else quorumRounds qsetOf fuel fNodes

def isQuorum (qSet : SCPQuorumSet N) (nodes : List N) (qsetOf : N → Option (SCPQuorumSet N))
    (filter : N → Bool) : Bool :=
  let pNodes := nodes.filter filter
  isQuorumSlice qSet (quorumRounds qsetOf (pNodes.length + 1) pNodes)

def UINT64_MAX : ℕ := 2 ^ 64 - 1

inductive Rounding where
  | roundDown
  | roundUp
deriving DecidableEq

/-- `bigDivideUnsigned` (util/numeric): `A * B / C` in 128 bits, rounded as asked, truncated to
64 bits, with whether it fit. `releaseAssertOrThrow(C > 0)` throws on a zero divisor. With
64-bit `A`, `B` and `C` nothing overflows 128 bits, so the arithmetic is on naturals. -/
def bigDivideUnsigned (A B C : ℕ) (rounding : Rounding) : Except String (ℕ × Bool) :=
  if C = 0 then throw "C > 0"
  else
    let x := match rounding with
      | .roundDown => A * B / C
      | .roundUp => (A * B + C - 1) / C
    pure (x % 2 ^ 64, decide (x ≤ UINT64_MAX))

/-- `LocalNode::computeWeight`: `m * threshold / total`, rounded up; its `releaseAssert`s abort,
which the model returns as an error with the asserted expression. -/
def computeWeight (m total threshold : ℕ) : Except String ℕ := do
  if ¬threshold ≤ total then throw "threshold <= total"
  let (res, noOverflow) ← bigDivideUnsigned m threshold total .roundUp
  if !noOverflow then throw "noOverflow"
  pure res

mutual

def getNodeWeight (nodeID : N) : SCPQuorumSet N → Except String ℕ
  | ⟨threshold, validators, innerSets⟩ =>
    let n := threshold.val
    let d := innerSets.length + validators.length
    if nodeID ∈ validators then computeWeight UINT64_MAX d n
    else innerSetsWeight nodeID innerSets d n

def innerSetsWeight (nodeID : N) : List (SCPQuorumSet N) → ℕ → ℕ → Except String ℕ
  | [], _, _ => pure 0
  | q :: rest, d, n => do
    let leafW ← getNodeWeight nodeID q
    if leafW ≠ 0 then computeWeight leafW d n else innerSetsWeight nodeID rest d n

end

end HcnetCore.Scp
