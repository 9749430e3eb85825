import HcnetCore.Scp.LocalNode
import HcnetCore.Scp.QuorumSetUtils
import HcnetCore.Library.SortedList
import Mathlib

/-! # The ballot protocol: state and statements

The state of `BallotProtocol` for one slot (the ballots `b`, `p`, `p'`, `h`, `c`, the phase,
the value override `z` and the latest statement of every node), what the slot and its driver
supply, and the functions that only read the state: the order of statements, their sanity,
the candidate ballots and commit boundaries a statement suggests, and federated voting over
the latest statements. The driver's calls that report progress are kept as logs. The code is
built without `NDEBUG`, so a failing `dbgAssert` aborts the process: it is an error here, as are
a dereference of an empty pointer and a thrown `runtime_error`.
-/

namespace HcnetCore.Scp

set_option autoImplicit false

inductive SCPPhase where
  | prepare
  | confirm
  | externalize
deriving DecidableEq

inductive ValidationLevel where
  | invalidValue
  | maybeValidValue
  | fullyValidatedValue
deriving DecidableEq

def ValidationLevel.toNat : ValidationLevel → ℕ
  | .invalidValue => 0
  | .maybeValidValue => 1
  | .fullyValidatedValue => 2

def ValidationLevel.min (a b : ValidationLevel) : ValidationLevel :=
  if a.toNat ≤ b.toNat then a else b

inductive EnvelopeState where
  | invalid
  | valid
deriving DecidableEq

structure SlotContext (N V H : Type) where
  localNodeID : N
  localQSet : SCPQuorumSet N
  localQSetHash : H
  getQSet : H → Option (SCPQuorumSet N)
  validateValue : V → ValidationLevel

/-- How processing can fail: a thrown `std::runtime_error`, `dbgAbort`, or a dereference of an
empty pointer. -/
inductive SCPError where
  | runtimeError (what : String)
  | dbgAbort
  | nullDereference
deriving DecidableEq

/-- `BallotProtocol` with the slot's `mFullyValidated`. `lastEnvelopeSent` says that
`mLastEnvelopeEmit` and `mLastEnvelope` are one pointer; `emitted` and `externalized` log the
driver's `emitEnvelope` and `valueExternalized`. -/
structure BallotProtocol (N V H : Type) [DecidableEq N] where
  heardFromQuorum : Bool
  currentBallot : Option (SCPBallot V)
  prepared : Option (SCPBallot V)
  preparedPrime : Option (SCPBallot V)
  highBallot : Option (SCPBallot V)
  commit : Option (SCPBallot V)
  latestEnvelopes : AList fun _ : N => SCPStatement N V H
  phase : SCPPhase
  valueOverride : Option V
  currentMessageLevel : ℕ
  timerExpCount : ℕ
  lastEnvelope : Option (SCPStatement N V H)
  lastEnvelopeEmit : Option (SCPStatement N V H)
  lastEnvelopeSent : Bool
  fullyValidated : Bool
  emitted : List (SCPStatement N V H)
  externalized : List V

variable {N V H : Type} [DecidableEq N] [LinearOrder V] [OrderBot V] [DecidableEq H]

def BallotProtocol.fresh (isValidator : Bool) : BallotProtocol N V H :=
  ⟨false, none, none, none, none, none, ∅, .prepare, none, 0, 0, none, none, false, isValidator, [], []⟩

def dbgAssert (check : Bool) : Except SCPError Unit :=
  if check then pure () else throw .dbgAbort

def deref {α : Type} : Option α → Except SCPError α
  | some a => pure a
  | none => throw .nullDereference

@[simp] theorem dbgAssert_eq_ok {c : Bool} {u : Unit} : dbgAssert c = .ok u ↔ c = true := by
  cases c <;> simp [dbgAssert, throw, throwThe, MonadExceptOf.throw, pure, Except.pure]

@[simp] theorem deref_eq_ok {α : Type} {o : Option α} {a : α} : deref o = .ok a ↔ o = some a := by
  cases o <;> simp [deref, throw, throwThe, MonadExceptOf.throw, pure, Except.pure]

def compareOptBallots : Option (SCPBallot V) → Option (SCPBallot V) → Ordering
  | some b1, some b2 => compareBallots b1 b2
  | some _, none => .gt
  | none, some _ => .lt
  | none, none => .eq

/-- `BallotProtocol::isNewerStatement`: by type, then PREPARE by `(b, p, p', h.n)` and CONFIRM
by `(b, p.n, h.n)`; EXTERNALIZE is never newer than EXTERNALIZE. -/
def isNewerStatement (oldst st : SCPStatement N V H) : Bool :=
  if oldst.pledges.type ≠ st.pledges.type then oldst.pledges.type.toNat < st.pledges.type.toNat
  else
    match oldst.pledges, st.pledges with
    | .confirm oldBallot oldNPrepared _ oldNH _, .confirm ballot nPrepared _ nH _ =>
      match compareBallots oldBallot ballot with
      | .lt => true
      | .eq => if oldNPrepared = nPrepared then oldNH < nH else oldNPrepared < nPrepared
      | .gt => false
    | .prepare _ oldBallot oldPrepared oldPreparedPrime _ oldNH, .prepare _ ballot prepared preparedPrime _ nH =>
      match compareBallots oldBallot ballot with
      | .lt => true
      | .gt => false
      | .eq =>
        match compareOptBallots oldPrepared prepared with
        | .lt => true
        | .gt => false
        | .eq =>
          match compareOptBallots oldPreparedPrime preparedPrime with
          | .lt => true
          | .gt => false
          | .eq => oldNH < nH
    | _, _ => false

namespace BallotProtocol

variable (ctx : SlotContext N V H)

def getQuorumSetFromStatement (st : SCPStatement N V H) : Option (SCPQuorumSet N) :=
  match st.pledges with
  | .prepare quorumSetHash .. => ctx.getQSet quorumSetHash
  | .confirm _ _ _ _ quorumSetHash => ctx.getQSet quorumSetHash
  | .externalize .. => some (buildSingletonQSet st.nodeID)

/-- `BallotProtocol::isStatementSane`; the local node may send a PREPARE with `b.n = 0`. -/
def isStatementSane (st : SCPStatement N V H) (self : Bool) : Bool :=
  match getQuorumSetFromStatement ctx st with
  | none => false
  | some qSet =>
    isQuorumSetSane qSet false &&
      match st.pledges with
      | .prepare _ ballot prepared preparedPrime nC nH =>
        (self || decide (0 < ballot.counter)) &&
          (match preparedPrime, prepared with
            | some pp, some p => areBallotsLessAndIncompatible pp p
            | _, _ => true) &&
          (nH == 0 || prepared.any fun p => decide (nH ≤ p.counter)) &&
          (nC == 0 || (nH != 0 && decide (nH ≤ ballot.counter) && decide (nC ≤ nH)))
      | .confirm ballot _ nCommit nH _ =>
        decide (0 < ballot.counter) && decide (nH ≤ ballot.counter) && decide (nCommit ≤ nH)
      | .externalize commit nH _ => decide (0 < commit.counter) && decide (commit.counter ≤ nH)

def getStatementValues (st : SCPStatement N V H) : List V :=
  match st.pledges with
  | .prepare _ ballot prepared preparedPrime _ _ =>
    (if ballot.counter ≠ 0 then [ballot.value] else []) ++ (prepared.map (·.value)).toList ++
      (preparedPrime.map (·.value)).toList
  | .confirm ballot .. => [ballot.value]
  | .externalize commit .. => [commit.value]

/-- `BallotProtocol::validateValues`: the lowest level of the statement's values; once a value
is invalid the others are not asked. -/
def validateValues (st : SCPStatement N V H) : ValidationLevel :=
  match getStatementValues st with
  | [] => .invalidValue
  | values => values.foldl (fun lv v =>
      if lv.toNat > ValidationLevel.invalidValue.toNat then (ctx.validateValue v).min lv else lv)
      .fullyValidatedValue

def getWorkingBallot (st : SCPStatement N V H) : SCPBallot V :=
  match st.pledges with
  | .prepare _ ballot .. => ballot
  | .confirm ballot _ nCommit _ _ => ⟨nCommit, ballot.value⟩
  | .externalize commit .. => commit

def statementBallotCounter (st : SCPStatement N V H) : uint32 :=
  match st.pledges with
  | .prepare _ ballot .. => ballot.counter
  | .confirm ballot .. => ballot.counter
  | .externalize .. => UINT32_MAX

def isNewerStatementOfNode (self : BallotProtocol N V H) (st : SCPStatement N V H) : Bool :=
  match self.latestEnvelopes.lookup st.nodeID with
  | none => true
  | some oldst => isNewerStatement oldst st

def nodesWhere (self : BallotProtocol N V H) (filter : SCPStatement N V H → Bool) : List N :=
  self.latestEnvelopes.keys.filter fun n => (self.latestEnvelopes.lookup n).any filter

def isQuorumWhere (self : BallotProtocol N V H) (filter : SCPStatement N V H → Bool) : Bool :=
  isQuorum ctx.localQSet self.latestEnvelopes.keys
    (fun n => (self.latestEnvelopes.lookup n).bind (getQuorumSetFromStatement ctx))
    (fun n => (self.latestEnvelopes.lookup n).any filter)

def federatedAccept (voted accepted : SCPStatement N V H → Bool) (self : BallotProtocol N V H) : Bool :=
  isVBlocking ctx.localQSet (nodesWhere self accepted) ||
    isQuorumWhere ctx self fun st => accepted st || voted st

def federatedRatify (voted : SCPStatement N V H → Bool) (self : BallotProtocol N V H) : Bool :=
  isQuorumWhere ctx self voted

def hasPreparedBallot (ballot : SCPBallot V) (st : SCPStatement N V H) : Bool :=
  match st.pledges with
  | .prepare _ _ prepared preparedPrime _ _ =>
    prepared.any (areBallotsLessAndCompatible ballot) || preparedPrime.any (areBallotsLessAndCompatible ballot)
  | .confirm ballot' nPrepared .. => areBallotsLessAndCompatible ballot ⟨nPrepared, ballot'.value⟩
  | .externalize commit .. => areBallotsCompatible ballot commit

def votesPrepared (ballot : SCPBallot V) (st : SCPStatement N V H) : Bool :=
  match st.pledges with
  | .prepare _ ballot' .. => areBallotsLessAndCompatible ballot ballot'
  | .confirm ballot' .. => areBallotsCompatible ballot ballot'
  | .externalize commit .. => areBallotsCompatible ballot commit

abbrev Interval := uint32 × uint32

def commitPredicate (ballot : SCPBallot V) (check : Interval) (st : SCPStatement N V H) : Bool :=
  match st.pledges with
  | .prepare .. => false
  | .confirm ballot' _ nCommit nH _ =>
    areBallotsCompatible ballot ballot' && decide (nCommit ≤ check.1) && decide (check.2 ≤ nH)
  | .externalize commit .. => areBallotsCompatible ballot commit && decide (commit.counter ≤ check.1)

def votesCommit (ballot : SCPBallot V) (cur : Interval) (st : SCPStatement N V H) : Bool :=
  match st.pledges with
  | .prepare _ ballot' _ _ nC nH =>
    areBallotsCompatible ballot ballot' && nC != 0 && decide (nC ≤ cur.1) && decide (cur.2 ≤ nH)
  | .confirm ballot' _ nCommit _ _ => areBallotsCompatible ballot ballot' && decide (nCommit ≤ cur.1)
  | .externalize commit .. => areBallotsCompatible ballot commit && decide (commit.counter ≤ cur.1)

def hintBallots (hint : SCPStatement N V H) : List (SCPBallot V) :=
  match hint.pledges with
  | .prepare _ ballot prepared preparedPrime _ _ => ballot :: prepared.toList ++ preparedPrime.toList
  | .confirm ballot nPrepared .. => [⟨nPrepared, ballot.value⟩, ⟨UINT32_MAX, ballot.value⟩]
  | .externalize commit .. => [⟨UINT32_MAX, commit.value⟩]

def prepareCandidatesOf (topVote : SCPBallot V) (st : SCPStatement N V H) : List (SCPBallot V) :=
  match st.pledges with
  | .prepare _ ballot prepared preparedPrime _ _ =>
    (ballot :: prepared.toList ++ preparedPrime.toList).filter fun b => areBallotsLessAndCompatible b topVote
  | .confirm ballot nPrepared .. =>
    if areBallotsCompatible topVote ballot then
      topVote :: if nPrepared < topVote.counter then [⟨nPrepared, topVote.value⟩] else []
    else []
  | .externalize commit .. => if areBallotsCompatible topVote commit then [topVote] else []

/-- `BallotProtocol::getPrepareCandidates`, in increasing order: the ballots below a hint
ballot that some latest statement may have prepared. -/
def getPrepareCandidates (hint : SCPStatement N V H) (self : BallotProtocol N V H) : List (SCPBallot V) :=
  SortedList.ofList id <| (SortedList.ofList id (hintBallots hint)).reverse.flatMap fun topVote =>
    self.latestEnvelopes.entries.flatMap fun e => prepareCandidatesOf topVote e.2

def commitBoundariesOf (ballot : SCPBallot V) (st : SCPStatement N V H) : List uint32 :=
  match st.pledges with
  | .prepare _ ballot' _ _ nC nH => if areBallotsCompatible ballot ballot' && nC != 0 then [nC, nH] else []
  | .confirm ballot' _ nCommit nH _ => if areBallotsCompatible ballot ballot' then [nCommit, nH] else []
  | .externalize commit nH _ =>
    if areBallotsCompatible ballot commit then [commit.counter, nH, UINT32_MAX] else []

def getCommitBoundariesFromStatements (ballot : SCPBallot V) (self : BallotProtocol N V H) : List uint32 :=
  SortedList.ofList id <| self.latestEnvelopes.entries.flatMap fun e => commitBoundariesOf ballot e.2

/-- `BallotProtocol::findExtendedInterval` over the boundaries from the top: first the highest
boundary that passes, then lower bounds down to the last that passes. -/
def findExtendedInterval (pred : Interval → Bool) : Interval → List uint32 → Interval
  | candidate, [] => candidate
  | candidate, b :: rest =>
    if candidate.1 = 0 then
      -- first, find the high bound
      if pred (b, b) then findExtendedInterval pred (b, b) rest else findExtendedInterval pred candidate rest
    else if b > candidate.2 then findExtendedInterval pred candidate rest
    else if pred (b, candidate.2) then findExtendedInterval pred (b, candidate.2) rest
    else candidate

def hasVBlockingSubsetStrictlyAheadOf (self : BallotProtocol N V H) (n : uint32) : Bool :=
  isVBlocking ctx.localQSet (nodesWhere self fun st => n < statementBallotCounter st)

end BallotProtocol

end HcnetCore.Scp
