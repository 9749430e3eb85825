import HcnetCore.Scp.BallotProtocol
import Mathlib

/-! # The ballot protocol: transitions

The functions of `BallotProtocol` that change the state. `emitCurrentStateStatement` hands the
local node's new statement back to `processEnvelope`, which runs `advanceSlot`, whose steps
emit again: the functions below take that call as the argument `emit`, and only
`processEnvelope` ties the knot, with fuel. Timers, the driver's notifications other than
`emitEnvelope` and `valueExternalized`, and nomination are left out; the latest composite
candidate of nomination is an argument.
-/

namespace HcnetCore.Scp

set_option autoImplicit false

def SCPPhase.statementType : SCPPhase → SCPStatementType
  | .prepare => .prepare
  | .confirm => .confirm
  | .externalize => .externalize

namespace BallotProtocol

variable {N V H : Type} [DecidableEq N] [LinearOrder V] [OrderBot V] [DecidableEq H]
variable (ctx : SlotContext N V H)

def recordEnvelope (st : SCPStatement N V H) (self : BallotProtocol N V H) : BallotProtocol N V H :=
  { self with latestEnvelopes := self.latestEnvelopes.insert st.nodeID st }

/-- `BallotProtocol::checkInvariants`, whose first failing `dbgAssert` aborts. -/
def checkInvariants (self : BallotProtocol N V H) : Except SCPError Unit := do
  match self.phase with
  | .prepare => pure ()
  | .confirm | .externalize =>
    dbgAssert self.currentBallot.isSome
    dbgAssert self.prepared.isSome
    dbgAssert self.commit.isSome
    dbgAssert self.highBallot.isSome
  if let some b := self.currentBallot then dbgAssert (b.counter ≠ 0)
  if let (some p, some pp) := (self.prepared, self.preparedPrime) then
    dbgAssert (areBallotsLessAndIncompatible pp p)
  if let some h := self.highBallot then
    dbgAssert self.currentBallot.isSome
    let b ← deref self.currentBallot
    dbgAssert (areBallotsLessAndCompatible h b)
  if let some c := self.commit then
    dbgAssert self.currentBallot.isSome
    let h ← deref self.highBallot
    dbgAssert (areBallotsLessAndCompatible c h)
    let b ← deref self.currentBallot
    dbgAssert (areBallotsLessAndCompatible h b)

def bumpToBallot (ballot : SCPBallot V) (check : Bool) (self : BallotProtocol N V H) :
    Except SCPError (BallotProtocol N V H) := do
  dbgAssert (self.phase ≠ .externalize)
  if check then
    dbgAssert (self.currentBallot.all fun b => compareBallots ballot b ≠ .lt)
  let gotBumped := self.currentBallot.all fun b => b.counter ≠ ballot.counter
  let self := { self with currentBallot := some ballot }
  let self :=
    if self.highBallot.any fun h => !areBallotsCompatible ballot h then
      { self with highBallot := none, commit := none }
    else self
  pure (if gotBumped then { self with heardFromQuorum := false } else self)

def updateCurrentIfNeeded (h : SCPBallot V) (self : BallotProtocol N V H) :
    Except SCPError (Bool × BallotProtocol N V H) :=
  if self.currentBallot.all fun b => compareBallots b h = .lt then do
    let self ← bumpToBallot h true self
    pure (true, self)
  else pure (false, self)

def setPrepared (ballot : SCPBallot V) (self : BallotProtocol N V H) : Bool × BallotProtocol N V H :=
  match self.prepared with
  | some p =>
    match compareBallots p ballot with
    | .lt =>
      let preparedPrime := if !areBallotsCompatible p ballot then some p else self.preparedPrime
      (true, { self with prepared := some ballot, preparedPrime := preparedPrime })
    | .gt =>
      if self.preparedPrime.all fun pp => compareBallots pp ballot = .lt && !areBallotsCompatible p ballot then
        (true, { self with preparedPrime := some ballot })
      else (false, self)
    | .eq => (false, self)
  | none => (true, { self with prepared := some ballot })

def createStatement (t : SCPStatementType) (self : BallotProtocol N V H) :
    Except SCPError (SCPStatement N V H) := do
  checkInvariants self
  match t with
  | .prepare =>
    pure ⟨ctx.localNodeID, .prepare ctx.localQSetHash (self.currentBallot.getD ⟨0, ⊥⟩) self.prepared
      self.preparedPrime (self.commit.elim 0 (·.counter)) (self.highBallot.elim 0 (·.counter))⟩
  | .confirm =>
    let b ← deref self.currentBallot
    let p ← deref self.prepared
    let c ← deref self.commit
    let h ← deref self.highBallot
    pure ⟨ctx.localNodeID, .confirm b p.counter c.counter h.counter ctx.localQSetHash⟩
  | .externalize =>
    let c ← deref self.commit
    let h ← deref self.highBallot
    pure ⟨ctx.localNodeID, .externalize c h.counter ctx.localQSetHash⟩

def sendLatestEnvelope (self : BallotProtocol N V H) : BallotProtocol N V H :=
  match self.lastEnvelope with
  | some last =>
    if self.currentMessageLevel = 0 && self.fullyValidated && !self.lastEnvelopeSent then
      { self with lastEnvelopeEmit := some last, lastEnvelopeSent := true, emitted := self.emitted ++ [last] }
    else self
  | none => self

/-- `BallotProtocol::emitCurrentStateStatement`, where `process` is `processEnvelope` of the
local node's own statement. A statement equal to the recorded one is not processed again. -/
def emitCurrentStateStatement
    (process : SCPStatement N V H → BallotProtocol N V H → Except SCPError (EnvelopeState × BallotProtocol N V H))
    (self : BallotProtocol N V H) : Except SCPError (BallotProtocol N V H) := do
  let statement ← createStatement ctx self.phase.statementType self
  let canEmit := self.currentBallot.isSome
  if self.latestEnvelopes.lookup ctx.localNodeID = some statement then pure self
  else
    let (res, self) ← process statement self
    if res = .valid then
      if canEmit && self.lastEnvelope.all fun last => isNewerStatement last statement then
        pure (sendLatestEnvelope { self with lastEnvelope := some statement, lastEnvelopeSent := false })
      else pure self
    else throw (.runtimeError "moved to a bad state (ballot protocol)")

def checkHeardFromQuorum (self : BallotProtocol N V H) : BallotProtocol N V H :=
  match self.currentBallot with
  | some b =>
    { self with
      heardFromQuorum := isQuorumWhere ctx self fun st =>
        match st.pledges with
        | .prepare _ ballot .. => decide (b.counter ≤ ballot.counter)
        | _ => true }
  | none => self

def updateCurrentValue (ballot : SCPBallot V) (self : BallotProtocol N V H) :
    Except SCPError (Bool × BallotProtocol N V H) :=
  if self.phase = .externalize then pure (false, self)
  else
    match self.currentBallot with
    | none => do
      let self ← bumpToBallot ballot true self
      checkInvariants self
      pure (true, self)
    | some b => do
      dbgAssert (compareBallots b ballot ≠ .gt)
      if self.commit.any fun c => !areBallotsCompatible c ballot then pure (false, self)
      else
        match compareBallots b ballot with
        | .lt => do
          let self ← bumpToBallot ballot true self
          checkInvariants self
          pure (true, self)
        | .gt => pure (false, self)
        | .eq => do
          checkInvariants self
          pure (false, self)

section Emit

-- `emitCurrentStateStatement`, as the steps below call it
variable (emit : BallotProtocol N V H → Except SCPError (BallotProtocol N V H))

def bumpStateAt (value : V) (n : uint32) (self : BallotProtocol N V H) :
    Except SCPError (Bool × BallotProtocol N V H) :=
  if self.phase = .externalize then pure (false, self)
  else do
    let (updated, self) ← updateCurrentValue ⟨n, self.valueOverride.getD value⟩ self
    if updated then
      let self ← emit self
      pure (true, checkHeardFromQuorum ctx self)
    else pure (false, self)

def bumpState (value : V) (force : Bool) (self : BallotProtocol N V H) :
    Except SCPError (Bool × BallotProtocol N V H) :=
  if !force && self.currentBallot.isSome then pure (false, self)
  else bumpStateAt ctx emit value (self.currentBallot.elim 1 fun b => b.counter + 1) self

def abandonBallot (candidate : Option V) (n : uint32) (self : BallotProtocol N V H) :
    Except SCPError (Bool × BallotProtocol N V H) :=
  let v :=
    if candidate.all (· = ⊥) then
      match self.currentBallot with
      | some b => some b.value
      | none => candidate
    else candidate
  match v with
  | some v =>
    if v ≠ ⊥ then
      if n = 0 then bumpState ctx emit v true self else bumpStateAt ctx emit v n self
    else pure (false, self)
  | none => pure (false, self)

def clearCommitIfNeeded (didWork : Bool) (self : BallotProtocol N V H) :
    Except SCPError (Bool × BallotProtocol N V H) :=
  let clearCommit :=
    match self.commit, self.highBallot with
    | some _, some h =>
      self.prepared.any (areBallotsLessAndIncompatible h) || self.preparedPrime.any (areBallotsLessAndIncompatible h)
    | _, _ => false
  if clearCommit then do
    dbgAssert (self.phase = .prepare)
    pure (true, { self with commit := none })
  else pure (didWork, self)

def setAcceptPrepared (ballot : SCPBallot V) (self : BallotProtocol N V H) :
    Except SCPError (Bool × BallotProtocol N V H) := do
  let (didWork, self) := setPrepared ballot self
  let (didWork, self) ← clearCommitIfNeeded didWork self
  if didWork then
    let self ← emit self
    pure (true, self)
  else pure (false, self)

def confirmSkips (ballot : SCPBallot V) (self : BallotProtocol N V H) : Except SCPError Bool :=
  if self.phase = .confirm then do
    let p ← deref self.prepared
    if !areBallotsLessAndCompatible p ballot then pure true
    else
      let c ← deref self.commit
      dbgAssert (areBallotsCompatible c ballot)
      pure false
  else pure false

/-- The loop of `attemptAcceptPrepared` over the candidates from the highest: skip those that
cannot raise `p` or `p'`, and accept the first that is accepted as prepared. -/
def acceptPreparedLoop : List (SCPBallot V) → BallotProtocol N V H → Except SCPError (Bool × BallotProtocol N V H)
  | [], self => pure (false, self)
  | ballot :: rest, self => do
    let skip ← confirmSkips ballot self
    if skip || self.preparedPrime.any (fun pp => compareBallots ballot pp ≠ .gt) ||
        self.prepared.any (areBallotsLessAndCompatible ballot) then
      acceptPreparedLoop rest self
    else if federatedAccept ctx (votesPrepared ballot) (hasPreparedBallot ballot) self then
      setAcceptPrepared emit ballot self
    else acceptPreparedLoop rest self

def attemptAcceptPrepared (hint : SCPStatement N V H) (self : BallotProtocol N V H) :
    Except SCPError (Bool × BallotProtocol N V H) :=
  if self.phase = .externalize then pure (false, self)
  else acceptPreparedLoop ctx emit (getPrepareCandidates hint self).reverse self

/-- The search for `newH` in `attemptConfirmPrepared`: from the highest candidate, while it is
above `h`, the first one confirmed prepared; with the candidates from it on. -/
def confirmPreparedHigh (self : BallotProtocol N V H) :
    List (SCPBallot V) → Option (SCPBallot V × List (SCPBallot V))
  | [] => none
  | ballot :: rest =>
    if self.highBallot.any fun h => compareBallots h ballot ≠ .lt then none
    else if federatedRatify ctx (hasPreparedBallot ballot) self then some (ballot, ballot :: rest)
    else confirmPreparedHigh self rest

/-- The search for `newC` in `attemptConfirmPrepared`: down from `newH` and not below `b`, the
lowest ballot of an unbroken run of confirmed prepared ballots compatible with `newH`. -/
def confirmPreparedCommit (self : BallotProtocol N V H) (b newH : SCPBallot V) :
    SCPBallot V → List (SCPBallot V) → SCPBallot V
  | newC, [] => newC
  | newC, ballot :: rest =>
    if compareBallots ballot b = .lt then newC
    else if !areBallotsLessAndCompatible ballot newH then confirmPreparedCommit self b newH newC rest
    else if federatedRatify ctx (hasPreparedBallot ballot) self then
      confirmPreparedCommit self b newH ballot rest
    else newC

def setConfirmedBallots (newC newH : SCPBallot V) (self : BallotProtocol N V H) :
    Except SCPError (Bool × BallotProtocol N V H) :=
  if self.currentBallot.all fun b => areBallotsCompatible b newH then
    let (didWork, self) :=
      if self.highBallot.all fun h => compareBallots newH h = .gt then (true, { self with highBallot := some newH })
      else (false, self)
    if newC.counter ≠ 0 then do
      dbgAssert self.commit.isNone
      pure (true, { self with commit := some newC })
    else pure (didWork, self)
  else pure (false, self)

def setConfirmPrepared (newC newH : SCPBallot V) (self : BallotProtocol N V H) :
    Except SCPError (Bool × BallotProtocol N V H) := do
  let (didWork, self) ← setConfirmedBallots newC newH { self with valueOverride := some newH.value }
  let (bumped, self) ← updateCurrentIfNeeded newH self
  if bumped || didWork then
    let self ← emit self
    pure (true, self)
  else pure (false, self)

def attemptConfirmPrepared (hint : SCPStatement N V H) (self : BallotProtocol N V H) :
    Except SCPError (Bool × BallotProtocol N V H) :=
  if self.phase ≠ .prepare || self.prepared.isNone then pure (false, self)
  else
    match confirmPreparedHigh ctx self (getPrepareCandidates hint self).reverse with
    | none => pure (false, self)
    | some (newH, fromNewH) =>
      let b := self.currentBallot.getD ⟨0, ⊥⟩
      let newC :=
        if self.commit.isNone && self.prepared.all (fun p => !areBallotsLessAndIncompatible newH p) &&
            self.preparedPrime.all (fun pp => !areBallotsLessAndIncompatible newH pp) then
          confirmPreparedCommit ctx self b newH ⟨0, ⊥⟩ fromNewH
        else ⟨0, ⊥⟩
      setConfirmPrepared emit newC newH self

def enterConfirmPhase (h : SCPBallot V) (didWork : Bool) (self : BallotProtocol N V H) :
    Except SCPError (Bool × BallotProtocol N V H) :=
  if self.phase = .prepare then do
    let self := { self with phase := .confirm }
    let self ←
      (if self.currentBallot.any fun b => !areBallotsLessAndCompatible h b then bumpToBallot h false self
      else pure self)
    pure (true, { self with preparedPrime := none })
  else pure (didWork, self)

def acceptCommitBallots (c h : SCPBallot V) (self : BallotProtocol N V H) : Bool × BallotProtocol N V H :=
  let changed : Bool :=
    match self.highBallot, self.commit with
    | some hb, some cb => compareBallots hb h ≠ .eq || compareBallots cb c ≠ .eq
    | _, _ => true
  if changed then (true, { self with commit := some c, highBallot := some h }) else (false, self)

def setAcceptCommit (c h : SCPBallot V) (self : BallotProtocol N V H) :
    Except SCPError (Bool × BallotProtocol N V H) := do
  let (didWork, self) := acceptCommitBallots c h { self with valueOverride := some h.value }
  let (didWork, self) ← enterConfirmPhase h didWork self
  if didWork then
    let hb ← deref self.highBallot
    let (_, self) ← updateCurrentIfNeeded hb self
    let self ← emit self
    pure (true, self)
  else pure (false, self)

def attemptAcceptCommit (hint : SCPStatement N V H) (self : BallotProtocol N V H) :
    Except SCPError (Bool × BallotProtocol N V H) :=
  if self.phase = .externalize then pure (false, self)
  else
    let ballot? : Option (SCPBallot V) :=
      match hint.pledges with
      | .prepare _ ballot _ _ nC nH => if nC ≠ 0 then some ⟨nH, ballot.value⟩ else none
      | .confirm ballot _ _ nH _ => some ⟨nH, ballot.value⟩
      | .externalize commit nH _ => some ⟨nH, commit.value⟩
    match ballot? with
    | none => pure (false, self)
    | some ballot => do
      let compatible ←
        (if self.phase = .confirm then do
          let h ← deref self.highBallot
          pure (areBallotsCompatible ballot h)
        else pure true)
      if !compatible then pure (false, self)
      else
        let boundaries := getCommitBoundariesFromStatements ballot self
        if boundaries = [] then pure (false, self)
        else
          let pred := fun cur => federatedAccept ctx (votesCommit ballot cur) (commitPredicate ballot cur) self
          let candidate := findExtendedInterval pred (0, 0) boundaries.reverse
          if candidate.1 ≠ 0 then do
            let raises ←
              (if self.phase ≠ .confirm then pure true
              else do
                let h ← deref self.highBallot
                pure (decide (candidate.2 > h.counter)))
            if raises then setAcceptCommit emit ⟨candidate.1, ballot.value⟩ ⟨candidate.2, ballot.value⟩ self
            else pure (false, self)
          else pure (false, self)

def setConfirmCommit (c h : SCPBallot V) (self : BallotProtocol N V H) :
    Except SCPError (Bool × BallotProtocol N V H) := do
  let self := { self with commit := some c, highBallot := some h }
  let (_, self) ← updateCurrentIfNeeded h self
  let self ← emit { self with phase := .externalize }
  let c ← deref self.commit
  pure (true, { self with externalized := self.externalized ++ [c.value] })

def attemptConfirmCommit (hint : SCPStatement N V H) (self : BallotProtocol N V H) :
    Except SCPError (Bool × BallotProtocol N V H) :=
  if self.phase ≠ .confirm then pure (false, self)
  else
    match self.highBallot, self.commit with
    | some _, some c =>
      let ballot? : Option (SCPBallot V) :=
        match hint.pledges with
        | .prepare .. => none
        | .confirm ballot _ _ nH _ => some ⟨nH, ballot.value⟩
        | .externalize commit nH _ => some ⟨nH, commit.value⟩
      match ballot? with
      | none => pure (false, self)
      | some ballot =>
        if !areBallotsCompatible ballot c then pure (false, self)
        else
          let boundaries := getCommitBoundariesFromStatements ballot self
          let pred := fun cur => federatedRatify ctx (commitPredicate ballot cur) self
          let candidate := findExtendedInterval pred (0, 0) boundaries.reverse
          if candidate.1 ≠ 0 then setConfirmCommit emit ⟨candidate.1, ballot.value⟩ ⟨candidate.2, ballot.value⟩ self
          else pure (false, self)
    | _, _ => pure (false, self)

def attemptBump (candidate : Option V) (self : BallotProtocol N V H) :
    Except SCPError (Bool × BallotProtocol N V H) :=
  if self.phase = .externalize then pure (false, self)
  else
    let localCounter := self.currentBallot.elim 0 (·.counter)
    if !hasVBlockingSubsetStrictlyAheadOf ctx self localCounter then pure (false, self)
    else
      let allCounters := SortedList.ofList id <|
        (self.latestEnvelopes.entries.map fun e => statementBallotCounter e.2).filter (localCounter < ·)
      match allCounters.find? fun n => !hasVBlockingSubsetStrictlyAheadOf ctx self n with
      | some n => abandonBallot ctx emit candidate n self
      | none => pure (false, self)

/-- The `do … while (didBump)` loop of `advanceSlot`, for at most `fuel` rounds; whether any bump
happened. Every bump moves `b` to a higher `uint32` counter, so when the statements emitted in
between never move `b` down, `2 ^ 32` rounds are as good as no bound (`bumpLoop_enough_fuel`);
`setAcceptCommit` entering CONFIRM is the one place that may move it down. -/
def bumpLoop (candidate : Option V) : ℕ → BallotProtocol N V H → Except SCPError (Bool × BallotProtocol N V H)
  | 0, self => pure (false, self)
  | fuel + 1, self => do
    let (didBump, self) ← attemptBump ctx emit candidate self
    if didBump then
      let (_, self) ← bumpLoop candidate fuel self
      pure (true, self)
    else pure (false, self)

def MAX_ADVANCE_SLOT_RECURSION : ℕ := 50

def advanceSlot (candidate : Option V) (hint : SCPStatement N V H) (self : BallotProtocol N V H) :
    Except SCPError (BallotProtocol N V H) := do
  let self := { self with currentMessageLevel := self.currentMessageLevel + 1 }
  if self.currentMessageLevel ≥ MAX_ADVANCE_SLOT_RECURSION then
    throw (.runtimeError "maximum number of transitions reached in advanceSlot")
  let (acceptedPrepared, self) ← attemptAcceptPrepared ctx emit hint self
  let (confirmedPrepared, self) ← attemptConfirmPrepared ctx emit hint self
  let (acceptedCommit, self) ← attemptAcceptCommit ctx emit hint self
  let (confirmedCommit, self) ← attemptConfirmCommit ctx emit hint self
  let didWork := acceptedPrepared || confirmedPrepared || acceptedCommit || confirmedCommit
  let (didWork, self) ←
    (if self.currentMessageLevel = 1 then do
      let (didBump, self) ← bumpLoop ctx emit candidate (2 ^ 32) self
      pure (didBump || didWork, checkHeardFromQuorum ctx self)
    else pure (didWork, self))
  let self := { self with currentMessageLevel := self.currentMessageLevel - 1 }
  pure (if didWork then sendLatestEnvelope self else self)

def processEnvelopeWith (candidate : Option V) (st : SCPStatement N V H) (self : Bool)
    (bp : BallotProtocol N V H) : Except SCPError (EnvelopeState × BallotProtocol N V H) :=
  if !isStatementSane ctx st self then pure (.invalid, bp)
  else if !isNewerStatementOfNode bp st then pure (.invalid, bp)
  else
    let validationRes := validateValues ctx st
    if validationRes = .invalidValue then pure (.invalid, bp)
    else if bp.phase ≠ .externalize then do
      let bp := if validationRes = .maybeValidValue then { bp with fullyValidated := false } else bp
      let bp ← advanceSlot ctx emit candidate st (recordEnvelope st bp)
      pure (.valid, bp)
    else do
      let c ← deref bp.commit
      if c.value = (getWorkingBallot st).value then pure (.valid, recordEnvelope st bp)
      else pure (.invalid, bp)

end Emit

/-- `BallotProtocol::processEnvelope`. Every emitted statement is processed one level deeper,
and `advanceSlot` throws at level `MAX_ADVANCE_SLOT_RECURSION`: with that much fuel from level
0 the fuel never runs out, and running out throws the same error. -/
def processEnvelope (candidate : Option V) :
    ℕ → SCPStatement N V H → Bool → BallotProtocol N V H → Except SCPError (EnvelopeState × BallotProtocol N V H)
  | 0, _, _, _ => throw (.runtimeError "maximum number of transitions reached in advanceSlot")
  | fuel + 1, st, self, bp =>
    processEnvelopeWith ctx (emitCurrentStateStatement ctx fun st' bp' => processEnvelope candidate fuel st' true bp')
      candidate st self bp

def emitTop (candidate : Option V) : BallotProtocol N V H → Except SCPError (BallotProtocol N V H) :=
  emitCurrentStateStatement ctx fun st bp => processEnvelope ctx candidate MAX_ADVANCE_SLOT_RECURSION st true bp

def setStateFromEnvelope (e : SCPStatement N V H) (self : BallotProtocol N V H) :
    Except SCPError (BallotProtocol N V H) := do
  if self.currentBallot.isSome then throw (.runtimeError "Cannot set state after starting ballot protocol")
  let self := recordEnvelope e self
  let self := { self with lastEnvelope := some e, lastEnvelopeEmit := some e, lastEnvelopeSent := true }
  match e.pledges with
  | .prepare _ b prepared preparedPrime nC nH =>
    let self ← bumpToBallot b true self
    pure { self with
      prepared := prepared.or self.prepared
      preparedPrime := preparedPrime.or self.preparedPrime
      highBallot := if nH ≠ 0 then some ⟨nH, b.value⟩ else self.highBallot
      commit := if nC ≠ 0 then some ⟨nC, b.value⟩ else self.commit
      phase := .prepare }
  | .confirm b nPrepared nCommit nH _ =>
    let self ← bumpToBallot b true self
    pure { self with
      prepared := some ⟨nPrepared, b.value⟩
      highBallot := some ⟨nH, b.value⟩
      commit := some ⟨nCommit, b.value⟩
      phase := .confirm }
  | .externalize commit nH _ =>
    let self ← bumpToBallot ⟨UINT32_MAX, commit.value⟩ true self
    pure { self with
      prepared := some ⟨UINT32_MAX, commit.value⟩
      highBallot := some ⟨nH, commit.value⟩
      commit := some commit
      phase := .externalize }

end BallotProtocol

inductive BallotInput (N V H : Type) where
  /-- `Slot::processEnvelope` of another node's statement -/
  | processEnvelope (st : SCPStatement N V H)
  /-- `Slot::bumpState` -/
  | bumpState (value : V) (force : Bool)
  /-- `Slot::abandonBallot` -/
  | abandonBallot
  | ballotProtocolTimerExpired

namespace BallotProtocol

variable {N V H : Type} [DecidableEq N] [LinearOrder V] [OrderBot V] [DecidableEq H]
variable (ctx : SlotContext N V H)

/-- One call of the slot, with nomination's latest composite candidate at that time. -/
def step (candidate : Option V) : BallotInput N V H → BallotProtocol N V H → Except SCPError (BallotProtocol N V H)
  | .processEnvelope st, self => do
    let (_, self) ← processEnvelope ctx candidate MAX_ADVANCE_SLOT_RECURSION st false self
    pure self
  | .bumpState value force, self => do
    let (_, self) ← bumpState ctx (emitTop ctx candidate) value force self
    pure self
  | .abandonBallot, self => do
    let (_, self) ← abandonBallot ctx (emitTop ctx candidate) candidate 0 self
    pure self
  | .ballotProtocolTimerExpired, self => do
    let (_, self) ← abandonBallot ctx (emitTop ctx candidate) candidate 0 { self with timerExpCount := self.timerExpCount + 1 }
    pure self

def run : List (Option V × BallotInput N V H) → BallotProtocol N V H → Except SCPError (BallotProtocol N V H)
  | [], self => pure self
  | (candidate, input) :: rest, self => do
    let self ← step ctx candidate input self
    run rest self

section ThreeNodes

/-- Quorum sets by hash: node 0 needs both 1 and 2, and each of them trusts only itself. -/
def threeNodeQSet : ℕ → Option (SCPQuorumSet ℕ)
  | 0 => some ⟨2, [1, 2], []⟩
  | 1 => some ⟨1, [1], []⟩
  | 2 => some ⟨1, [2], []⟩
  | _ => none

def threeNodeContext : SlotContext ℕ ℕ ℕ :=
  ⟨0, ⟨2, [1, 2], []⟩, 0, threeNodeQSet, fun _ => .fullyValidatedValue⟩

/-- Nodes 1 and 2 both report ballot `(0, 7)` prepared, which `isStatementSane` lets through:
node 1 alone is v-blocking, so node 0 accepts `(0, 7)` prepared; with node 2 it is confirmed,
`b` moves to `(0, 7)`, and `checkInvariants` aborts on `b.counter != 0`. -/
theorem run_prepared_zero_counter_aborts :
    isStatementSane threeNodeContext ⟨1, .prepare 1 ⟨1, 5⟩ (some ⟨0, 7⟩) none 0 0⟩ false = true ∧
      isStatementSane threeNodeContext ⟨2, .prepare 2 ⟨1, 6⟩ (some ⟨0, 7⟩) none 0 0⟩ false = true ∧
      (run threeNodeContext
        [(none, .processEnvelope ⟨1, .prepare 1 ⟨1, 5⟩ (some ⟨0, 7⟩) none 0 0⟩),
          (none, .processEnvelope ⟨2, .prepare 2 ⟨1, 6⟩ (some ⟨0, 7⟩) none 0 0⟩)]
        (fresh true) matches .error .dbgAbort) = true := by
  decide +kernel

theorem run_replayed_self_statement_throws :
    isStatementSane threeNodeContext ⟨0, .prepare 0 ⟨5, 7⟩ none none 0 0⟩ false = true ∧
      (run threeNodeContext [(none, .processEnvelope ⟨0, .prepare 0 ⟨5, 7⟩ none none 0 0⟩), (none, .bumpState 3 true)]
        (fresh true) matches .error (.runtimeError "moved to a bad state (ballot protocol)")) = true := by
  decide +kernel

end ThreeNodes

end BallotProtocol

end HcnetCore.Scp
