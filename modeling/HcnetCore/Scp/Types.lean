import Mathlib

/-! # Ballots, statements and quorum sets

The XDR types of the ballot protocol: `SCPBallot` ordered by counter and then by value,
the three ballot statements, and `SCPQuorumSet`. A `Value` is an opaque byte string,
compared lexicographically: here any linear order, with the empty value at the bottom.
Node ids and quorum-set hashes are only compared for equality. The slot index a statement
carries is left out: the model is of one slot.
-/

namespace HcnetCore.Scp

set_option autoImplicit false

/-- The XDR `uint32`: ballot counters wrap at `2 ^ 32`. -/
abbrev uint32 := Fin (2 ^ 32)

/-- The literals of `uint32` all use this one proof that `2 ^ 32` is not zero. -/
instance uint32.neZero : NeZero (2 ^ 32 : ℕ) := ⟨by norm_num⟩

def UINT32_MAX : uint32 := Fin.last _

structure SCPBallot (V : Type) where
  counter : uint32
  value : V
deriving DecidableEq

/-- `SCPStatementType`, without `SCP_ST_NOMINATE`, whose statements go to nomination. -/
inductive SCPStatementType where
  | prepare
  | confirm
  | externalize
deriving DecidableEq

def SCPStatementType.toNat : SCPStatementType → ℕ
  | .prepare => 0
  | .confirm => 1
  | .externalize => 2

inductive SCPPledges (V H : Type) where
  | prepare (quorumSetHash : H) (ballot : SCPBallot V) (prepared preparedPrime : Option (SCPBallot V))
      (nC nH : uint32)
  | confirm (ballot : SCPBallot V) (nPrepared nCommit nH : uint32) (quorumSetHash : H)
  | externalize (commit : SCPBallot V) (nH : uint32) (commitQuorumSetHash : H)
deriving DecidableEq

def SCPPledges.type {V H : Type} : SCPPledges V H → SCPStatementType
  | .prepare .. => .prepare
  | .confirm .. => .confirm
  | .externalize .. => .externalize

structure SCPStatement (N V H : Type) where
  nodeID : N
  pledges : SCPPledges V H
deriving DecidableEq

/-- `SCPQuorumSet`: a threshold over validators and inner sets. -/
structure SCPQuorumSet (N : Type) where
  threshold : uint32
  validators : List N
  innerSets : List (SCPQuorumSet N)

@[induction_eliminator]
theorem SCPQuorumSet.induction {N : Type} {motive : SCPQuorumSet N → Prop}
    (mk : ∀ threshold validators innerSets, (∀ inner ∈ innerSets, motive inner) →
      motive ⟨threshold, validators, innerSets⟩) (qSet : SCPQuorumSet N) : motive qSet :=
  match qSet with
  | ⟨threshold, validators, innerSets⟩ =>
    mk threshold validators innerSets fun inner hinner =>
      have : sizeOf inner < sizeOf innerSets := List.sizeOf_lt_of_mem hinner
      SCPQuorumSet.induction mk inner
termination_by sizeOf qSet
decreasing_by simp only [SCPQuorumSet.mk.sizeOf_spec]; omega

section Ballots

variable {V : Type} [LinearOrder V]

def compareBallots (b1 b2 : SCPBallot V) : Ordering :=
  if b1.counter < b2.counter then .lt
  else if b2.counter < b1.counter then .gt
  else if b1.value < b2.value then .lt
  else if b2.value < b1.value then .gt
  else .eq

def areBallotsCompatible (b1 b2 : SCPBallot V) : Bool :=
  b1.value = b2.value

def areBallotsLessAndIncompatible (b1 b2 : SCPBallot V) : Bool :=
  compareBallots b1 b2 != .gt && !areBallotsCompatible b1 b2

def areBallotsLessAndCompatible (b1 b2 : SCPBallot V) : Bool :=
  compareBallots b1 b2 != .gt && areBallotsCompatible b1 b2

/-- Ballots in the order of `compareBallots`: lexicographic on counter and value. -/
def SCPBallot.lexKey (b : SCPBallot V) : uint32 ×ₗ V := toLex (b.counter, b.value)

omit [LinearOrder V] in
theorem SCPBallot.lexKey_injective : Function.Injective (SCPBallot.lexKey : SCPBallot V → uint32 ×ₗ V) := by
  rintro ⟨c₁, v₁⟩ ⟨c₂, v₂⟩ h
  simp only [SCPBallot.lexKey, EmbeddingLike.apply_eq_iff_eq, Prod.mk.injEq] at h
  rw [h.1, h.2]

instance : LinearOrder (SCPBallot V) :=
  LinearOrder.lift' SCPBallot.lexKey SCPBallot.lexKey_injective

theorem SCPBallot.lt_iff {b1 b2 : SCPBallot V} :
    b1 < b2 ↔ b1.counter < b2.counter ∨ b1.counter = b2.counter ∧ b1.value < b2.value :=
  Prod.Lex.toLex_lt_toLex

theorem compareBallots_eq_compare (b1 b2 : SCPBallot V) : compareBallots b1 b2 = compare b1 b2 := by
  rcases lt_trichotomy b1 b2 with h | rfl | h
  · rw [compare_lt_iff_lt.mpr h]
    rcases SCPBallot.lt_iff.mp h with hc | ⟨hc, hv⟩
    · simp [compareBallots, hc]
    · simp [compareBallots, hc, hv]
  · simp [compareBallots]
  · rw [compare_gt_iff_gt.mpr h]
    rcases SCPBallot.lt_iff.mp h with hc | ⟨hc, hv⟩
    · simp [compareBallots, hc, not_lt_of_gt hc]
    · simp [compareBallots, hc, hv, not_lt_of_gt hv]

@[simp] theorem compareBallots_eq_lt {b1 b2 : SCPBallot V} : compareBallots b1 b2 = .lt ↔ b1 < b2 := by
  rw [compareBallots_eq_compare, compare_lt_iff_lt]

@[simp] theorem compareBallots_eq_gt {b1 b2 : SCPBallot V} : compareBallots b1 b2 = .gt ↔ b2 < b1 := by
  rw [compareBallots_eq_compare, compare_gt_iff_gt]

@[simp] theorem compareBallots_eq_eq {b1 b2 : SCPBallot V} : compareBallots b1 b2 = .eq ↔ b1 = b2 := by
  rw [compareBallots_eq_compare, compare_eq_iff_eq]

@[simp] theorem areBallotsCompatible_iff {b1 b2 : SCPBallot V} :
    areBallotsCompatible b1 b2 = true ↔ b1.value = b2.value := by
  simp [areBallotsCompatible]

@[simp] theorem areBallotsLessAndCompatible_iff {b1 b2 : SCPBallot V} :
    areBallotsLessAndCompatible b1 b2 = true ↔ b1 ≤ b2 ∧ b1.value = b2.value := by
  simp [areBallotsLessAndCompatible, not_lt]

@[simp] theorem areBallotsLessAndIncompatible_iff {b1 b2 : SCPBallot V} :
    areBallotsLessAndIncompatible b1 b2 = true ↔ b1 ≤ b2 ∧ b1.value ≠ b2.value := by
  simp [areBallotsLessAndIncompatible, areBallotsCompatible, not_lt]

end Ballots

end HcnetCore.Scp
