import HcnetCore.Scp.BallotProtocol
import HcnetCore.Scp.QuorumSlices
import Mathlib

/-! # The nomination protocol

`NominationProtocol` for one slot: the votes `X`, the accepted values `Y` and the candidates
`Z`, kept as `std::set`s ordered by value; the latest NOMINATE statement of every node; the
round and its leaders. `processEnvelope` takes a newer sane statement, accepts the values a
v-blocking set accepted or a quorum voted for, confirms candidates on a quorum that accepted
them, and takes a new value from a round leader while no candidate is confirmed;
`emitNomination` processes the node's own statement in turn, which nests `processEnvelope`
(with fuel here). The driver's hashing, validation and combination of candidates are
parameters. The ballot protocol's `bumpState`, the timers and the driver's notifications are
left out; `emitted` logs the driver's `emitEnvelope`.
-/

namespace HcnetCore.Scp

set_option autoImplicit false

structure SCPNomination (V H : Type) where
  quorumSetHash : H
  votes : List V
  accepted : List V
deriving DecidableEq

structure NominationStatement (N V H : Type) where
  nodeID : N
  nomination : SCPNomination V H
deriving DecidableEq

structure NominationContext (N V H : Type) where
  localNodeID : N
  localQSet : SCPQuorumSet N
  localQSetHash : H
  getQSet : H → Option (SCPQuorumSet N)
  /-- `SCPDriver::validateValue` with `nomination = true` -/
  validateValue : V → ValidationLevel
  extractValidValue : V → Option V
  /-- `SCPDriver::computeHashNode` from the previous value, whether for priority, the round
  and the node -/
  computeHashNode : V → Bool → ℕ → N → ℕ
  /-- `SCPDriver::computeValueHash` from the previous value, the round and the value -/
  computeValueHash : V → ℕ → V → ℕ
  combineCandidates : List V → V

/-- `NominationProtocol` with the slot's `mFullyValidated`; `emitted` logs `emitEnvelope`. -/
structure NominationProtocol (N V H : Type) [DecidableEq N] where
  roundNumber : ℕ
  votes : List V
  accepted : List V
  candidates : List V
  latestNominations : AList fun _ : N => NominationStatement N V H
  lastEnvelope : Option (NominationStatement N V H)
  roundLeaders : List N
  nominationStarted : Bool
  latestCompositeCandidate : Option V
  previousValue : V
  timerExpCount : ℕ
  fullyValidated : Bool
  emitted : List (NominationStatement N V H)

namespace NominationProtocol

variable {N V H : Type} [LinearOrder N] [LinearOrder V] [OrderBot V] [DecidableEq H]

def fresh (isValidator : Bool) : NominationProtocol N V H :=
  ⟨0, [], [], [], ∅, none, [], false, none, ⊥, 0, isValidator, []⟩

/-! ## Statements -/

/-- `std::includes` over the sorted ranges: every element of the second, in order, is met in the
first. -/
def includes : List V → List V → Bool
  | _, [] => true
  | [], _ :: _ => false
  | a :: as, b :: bs => if b < a then false else if a < b then includes as (b :: bs) else includes as bs

def isSubsetHelper (p v : List V) : Bool × Bool :=
  if p.length ≤ v.length then
    let res := includes v p
    (res, if res then decide (p.length ≠ v.length) else true)
  else (false, true)

def isNewerStatement (oldst st : SCPNomination V H) : Bool :=
  let (votesWithin, votesGrow) := isSubsetHelper oldst.votes st.votes
  if votesWithin then
    let (acceptedWithin, acceptedGrow) := isSubsetHelper oldst.accepted st.accepted
    if acceptedWithin then votesGrow || acceptedGrow else false
  else false

/-- `adjacent_find` with `!(l < r)` finds nothing: the list strictly increases. -/
def strictlyIncreasing : List V → Bool
  | a :: b :: rest => decide (a < b) && strictlyIncreasing (b :: rest)
  | _ => true

def isSane (st : NominationStatement N V H) : Bool :=
  decide (st.nomination.votes.length + st.nomination.accepted.length ≠ 0) &&
    strictlyIncreasing st.nomination.votes && strictlyIncreasing st.nomination.accepted

def isNewerStatementOfNode (self : NominationProtocol N V H) (nodeID : N) (st : SCPNomination V H) : Bool :=
  match self.latestNominations.lookup nodeID with
  | none => true
  | some oldst => isNewerStatement oldst.nomination st

def recordEnvelope (st : NominationStatement N V H) (self : NominationProtocol N V H) : NominationProtocol N V H :=
  { self with latestNominations := self.latestNominations.insert st.nodeID st }

def votesFor (v : V) (st : NominationStatement N V H) : Bool := decide (v ∈ st.nomination.votes)

def acceptPredicate (v : V) (st : NominationStatement N V H) : Bool := decide (v ∈ st.nomination.accepted)

/-! ## Federated voting over the latest nominations -/

variable (ctx : NominationContext N V H)

def nodesWhere (self : NominationProtocol N V H) (filter : NominationStatement N V H → Bool) : List N :=
  self.latestNominations.keys.filter fun n => (self.latestNominations.lookup n).any filter

def qsetOf (self : NominationProtocol N V H) (n : N) : Option (SCPQuorumSet N) :=
  (self.latestNominations.lookup n).bind fun st => ctx.getQSet st.nomination.quorumSetHash

def federatedAccept (voted accepted : NominationStatement N V H → Bool) (self : NominationProtocol N V H) : Bool :=
  isVBlocking ctx.localQSet (nodesWhere self accepted) ||
    isQuorum ctx.localQSet self.latestNominations.keys (qsetOf ctx self)
      (fun n => (self.latestNominations.lookup n).any fun st => accepted st || voted st)

def federatedRatify (voted : NominationStatement N V H → Bool) (self : NominationProtocol N V H) : Bool :=
  isQuorum ctx.localQSet self.latestNominations.keys (qsetOf ctx self)
    fun n => (self.latestNominations.lookup n).any voted

/-! ## Leaders and the values they bring -/

def hashNode (isPriority : Bool) (nodeID : N) (self : NominationProtocol N V H) : Except SCPError ℕ := do
  dbgAssert (self.previousValue ≠ ⊥)
  pure (ctx.computeHashNode self.previousValue isPriority self.roundNumber nodeID)

def hashValue (value : V) (self : NominationProtocol N V H) : Except SCPError ℕ := do
  dbgAssert (self.previousValue ≠ ⊥)
  pure (ctx.computeValueHash self.previousValue self.roundNumber value)

def liftAbort {α : Type} : Except String α → Except SCPError α
  | .ok a => .ok a
  | .error _ => .error .dbgAbort

def getNodePriority (nodeID : N) (qSet : SCPQuorumSet N) (self : NominationProtocol N V H) : Except SCPError ℕ := do
  let w ← if nodeID = ctx.localNodeID then pure UINT64_MAX else liftAbort (getNodeWeight nodeID qSet)
  if 0 < w then
    if (← hashNode ctx false nodeID self) ≤ w then hashNode ctx true nodeID self else pure 0
  else pure 0

def roundLeadersOf (myQSet : SCPQuorumSet N) (self : NominationProtocol N V H) : Except SCPError (List N) := do
  let topPriority ← getNodePriority ctx ctx.localNodeID myQSet self
  let (newRoundLeaders, _) ← (allNodes myQSet).foldlM (fun (leaders, topPriority) cur => do
      let w ← getNodePriority ctx cur myQSet self
      let (leaders, topPriority) := if topPriority < w then ([], w) else (leaders, topPriority)
      pure (if w = topPriority ∧ 0 < w then (SortedList.emplace id cur leaders, topPriority) else (leaders, topPriority)))
    ([ctx.localNodeID], topPriority)
  pure newRoundLeaders

/-- The loop of `updateRoundLeaders`: while fewer leaders than nodes, add a round's leaders, and
move to the next round when they add none. The loop ends only on new leaders: running out of
fuel stands for a loop that does not end. -/
def updateRoundLeadersLoop (myQSet : SCPQuorumSet N) (maxLeaderCount : ℕ) :
    ℕ → NominationProtocol N V H → Except SCPError (NominationProtocol N V H)
  | 0, _ => throw (.runtimeError "updateRoundLeaders does not end")
  | fuel + 1, self =>
    if self.roundLeaders.length < maxLeaderCount then do
      let newRoundLeaders ← roundLeadersOf ctx myQSet self
      let oldSize := self.roundLeaders.length
      let self := { self with roundLeaders := newRoundLeaders.foldl (fun s x => SortedList.emplace id x s) self.roundLeaders }
      if oldSize ≠ self.roundLeaders.length then pure self
      else updateRoundLeadersLoop myQSet maxLeaderCount fuel { self with roundNumber := self.roundNumber + 1 }
    else pure self

def updateRoundLeaders (fuel : ℕ) (self : NominationProtocol N V H) : Except SCPError (NominationProtocol N V H) :=
  let myQSet := normalizeQSet ctx.localQSet (some ctx.localNodeID)
  updateRoundLeadersLoop ctx myQSet (1 + (allNodes myQSet).length) fuel self

def valueToNominate (value : V) : Option V :=
  if ctx.validateValue value = .fullyValidatedValue then some value else ctx.extractValidValue value

/-- The lambda `pickValue` of `getNewValueFromNomination`, over `(newVote, newHash, foundValidValue)`:
the valid value not yet voted for of the highest hash, the last on a tie. -/
def pickValue (self : NominationProtocol N V H) (acc : Option V × ℕ × Bool) (value : V) :
    Except SCPError (Option V × ℕ × Bool) :=
  match valueToNominate ctx value with
  | none => pure acc
  | some w =>
    if w ∈ self.votes then pure (acc.1, acc.2.1, true)
    else do
      let curHash ← hashValue ctx w self
      pure (if acc.2.1 ≤ curHash then (some w, curHash, true) else (acc.1, acc.2.1, true))

def getNewValueFromNomination (nom : SCPNomination V H) (self : NominationProtocol N V H) : Except SCPError (Option V) := do
  let acc ← nom.accepted.foldlM (pickValue ctx self) (none, 0, false)
  let acc ← if !acc.2.2 then nom.votes.foldlM (pickValue ctx self) acc else pure acc
  pure acc.1

/-! ## Processing a statement -/

def acceptVote (self : NominationProtocol N V H) (modified : Bool) (v : V) : NominationProtocol N V H × Bool :=
  if v ∈ self.accepted then (self, modified)
  else if federatedAccept ctx (votesFor v) (acceptPredicate v) self then
    if ctx.validateValue v = .fullyValidatedValue then
      ({ self with accepted := SortedList.emplace id v self.accepted, votes := SortedList.emplace id v self.votes }, true)
    else
      match ctx.extractValidValue v with
      | some toVote =>
        if toVote ∈ self.votes then (self, modified)
        else ({ self with votes := SortedList.emplace id toVote self.votes }, true)
      | none => (self, modified)
  else (self, modified)

def confirmCandidate (self : NominationProtocol N V H) (newCandidates : Bool) (a : V) : NominationProtocol N V H × Bool :=
  if a ∈ self.candidates then (self, newCandidates)
  else if federatedRatify ctx (acceptPredicate a) self then
    ({ self with candidates := SortedList.emplace id a self.candidates }, true)
  else (self, newCandidates)

def advance (emit : NominationProtocol N V H → Except SCPError (NominationProtocol N V H))
    (st : NominationStatement N V H) (self : NominationProtocol N V H) : Except SCPError (NominationProtocol N V H) := do
  let (self, modified) := st.nomination.votes.foldl (fun (self, modified) v => acceptVote ctx self modified v) (self, false)
  let (self, newCandidates) := self.accepted.foldl (fun (self, found) a => confirmCandidate ctx self found a) (self, false)
  -- only take round leader votes while still looking for candidates
  let (self, modified) ←
    if self.candidates.isEmpty ∧ st.nodeID ∈ self.roundLeaders then do
      match ← getNewValueFromNomination ctx st.nomination self with
      | some newVote => pure ({ self with votes := SortedList.emplace id newVote self.votes }, true)
      | none => pure (self, modified)
    else pure (self, modified)
  let self ← if modified then emit self else pure self
  pure (if newCandidates then { self with latestCompositeCandidate := some (ctx.combineCandidates self.candidates) } else self)

def processEnvelopeWith (emit : NominationProtocol N V H → Except SCPError (NominationProtocol N V H))
    (st : NominationStatement N V H) (self : NominationProtocol N V H) :
    Except SCPError (EnvelopeState × NominationProtocol N V H) :=
  if !isNewerStatementOfNode self st.nodeID st.nomination then pure (.invalid, self)
  else if !isSane st then pure (.invalid, self)
  else do
    let self := recordEnvelope st self
    if self.nominationStarted then do
      let self ← advance ctx emit st self
      pure (.valid, self)
    else pure (.valid, self)

def ownStatement (self : NominationProtocol N V H) : NominationStatement N V H :=
  ⟨ctx.localNodeID, ⟨ctx.localQSetHash, self.votes, self.accepted⟩⟩

/-- `NominationProtocol::emitNomination`, where `process` is `processEnvelope` of the local node's
own statement: the statement becomes the last envelope when it is newer than it, and is sent
out when the slot is fully validated. -/
def emitNomination
    (process : NominationStatement N V H → NominationProtocol N V H → Except SCPError (EnvelopeState × NominationProtocol N V H))
    (self : NominationProtocol N V H) : Except SCPError (NominationProtocol N V H) := do
  let st := ownStatement ctx self
  let (res, self) ← process st self
  if res = .valid then
    if self.lastEnvelope.all fun last => isNewerStatement last.nomination st.nomination then
      let self := { self with lastEnvelope := some st }
      pure (if self.fullyValidated then { self with emitted := self.emitted ++ [st] } else self)
    else pure self
  else throw (.runtimeError "moved to a bad state (nomination)")

/-- `NominationProtocol::processEnvelope`: every statement the node emits is processed one level
deeper; the fuel bounds the nesting. -/
def processEnvelope : ℕ → NominationStatement N V H → NominationProtocol N V H →
    Except SCPError (EnvelopeState × NominationProtocol N V H)
  | 0, _, _ => throw (.runtimeError "nomination nested too deep")
  | fuel + 1, st, self => processEnvelopeWith ctx (emitNomination ctx (processEnvelope fuel)) st self

def NOMINATION_FUEL : ℕ := 1000

/-- `NominationProtocol::nominate`: once a candidate is confirmed, nothing is nominated;
otherwise start the round, take a value from each leader, and the node's own value when it leads
and votes for nothing yet. -/
def nominate (value previousValue : V) (timedout : Bool) (self : NominationProtocol N V H) :
    Except SCPError (Bool × NominationProtocol N V H) :=
  if !self.candidates.isEmpty then pure (false, self)
  else
    let self := if timedout then { self with timerExpCount := self.timerExpCount + 1 } else self
    if timedout ∧ !self.nominationStarted then pure (false, self)
    else do
      let self := { self with nominationStarted := true, previousValue := previousValue }
      let self ← updateRoundLeaders ctx NOMINATION_FUEL { self with roundNumber := self.roundNumber + 1 }
      -- add a few more values from other leaders
      let (self, updated) ← self.roundLeaders.foldlM (fun (self, updated) leader =>
          match self.latestNominations.lookup leader with
          | none => pure (self, updated)
          | some st => do
            match ← getNewValueFromNomination ctx st.nomination self with
            | some lnmV => pure ({ self with votes := SortedList.emplace id lnmV self.votes }, true)
            | none => pure (self, updated))
        (self, false)
      -- the node's own value, when it leads and votes for nothing yet
      let (self, updated) :=
        if ctx.localNodeID ∈ self.roundLeaders ∧ self.votes.isEmpty then
          if value ∈ self.votes then (self, updated) else ({ self with votes := SortedList.emplace id value self.votes }, true)
        else (self, updated)
      if updated then do
        let self ← emitNomination ctx (processEnvelope ctx NOMINATION_FUEL) self
        pure (true, self)
      else pure (false, self)

def stopNomination (self : NominationProtocol N V H) : NominationProtocol N V H :=
  { self with nominationStarted := false }

end NominationProtocol

inductive NominationInput (N V H : Type) where
  /-- `Slot::nominate`, with whether the nomination timer fired -/
  | nominate (value previousValue : V) (timedout : Bool)
  /-- `Slot::processEnvelope` of a NOMINATE statement -/
  | processEnvelope (st : NominationStatement N V H)
  | stopNomination

namespace NominationProtocol

variable {N V H : Type} [LinearOrder N] [LinearOrder V] [OrderBot V] [DecidableEq H]
variable (ctx : NominationContext N V H)

def step : NominationInput N V H → NominationProtocol N V H → Except SCPError (NominationProtocol N V H)
  | .nominate value previousValue timedout, self => do
    let (_, self) ← nominate ctx value previousValue timedout self
    pure self
  | .processEnvelope st, self => do
    let (_, self) ← processEnvelope ctx NOMINATION_FUEL st self
    pure self
  | .stopNomination, self => pure (stopNomination self)

def run : List (NominationInput N V H) → NominationProtocol N V H → Except SCPError (NominationProtocol N V H)
  | [], self => pure self
  | input :: rest, self => do
    let self ← step ctx input self
    run rest self

section TwoNodes

/-- Node 0 trusts node 1 alone. Value 4 is only maybe valid, and its valid variation is 5; every
other value is fully valid. A value hashes to itself. -/
def twoNodeContext : NominationContext ℕ ℕ ℕ where
  localNodeID := 0
  localQSet := ⟨1, [1], []⟩
  localQSetHash := 0
  getQSet := fun h => if h ≤ 1 then some ⟨1, [1], []⟩ else none
  validateValue := fun v => if v = 4 then .maybeValidValue else .fullyValidatedValue
  extractValidValue := fun v => if v = 4 then some 5 else none
  computeHashNode := fun _ _ _ _ => 0
  computeValueHash := fun _ _ v => v
  combineCandidates := fun cs => cs.headD 0

/-- Node 0 nominates 2, and node 1 votes for and accepts 3: node 0 accepts 3 and confirms it as a
candidate. Node 1 then also votes for and accepts 4, a value node 1 alone makes accepted; it is
only maybe valid, so node 0 votes for its variation 5, a new value, although it already has a
candidate, and does not accept 5. -/
theorem run_votes_after_candidate :
    ((run twoNodeContext [.nominate 2 1 false, .processEnvelope ⟨1, ⟨1, [3], [3]⟩⟩] (fresh true)).toOption.any
      fun s => !s.candidates.isEmpty && !s.votes.contains 5) = true ∧
    ((run twoNodeContext [.nominate 2 1 false, .processEnvelope ⟨1, ⟨1, [3], [3]⟩⟩,
        .processEnvelope ⟨1, ⟨1, [3, 4], [3, 4]⟩⟩] (fresh true)).toOption.any
      fun s => !s.candidates.isEmpty && s.votes.contains 5 && !s.accepted.contains 5) = true := by
  decide +kernel

end TwoNodes

end NominationProtocol

end HcnetCore.Scp
