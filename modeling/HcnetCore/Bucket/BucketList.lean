import HcnetCore.Library.Word32

/-! # Ledger ranges of the bucket list levels

`BucketList`'s static arithmetic (bucket/BucketList.cpp): the size of a level, how many ledgers
its `curr` and `snap` buckets hold at a given ledger, and the oldest ledger in each. All of it
is `uint32_t` arithmetic, modelled with `UInt32`, whose operations wrap as the source's do.

`sizeOfCurr` recurses on `previousRelevantLedger` at its own level, and `sizeOfCurr` and
`sizeOfSnap` add up the sizes of the levels below theirs (`levelsBelowSize`, the loop they
share): the three are one well-founded recursion on the level, then the ledger. The
`releaseAssert`s on entry (`ledger != 0`, `level < kNumLevels`) are not modelled; they are
the hypotheses of the theorems about these functions, and every nested call meets them.
-/

namespace HcnetCore.Bucket.BucketList

set_option autoImplicit false

def kNumLevels : UInt32 := 11

def roundDown (v m : UInt32) : UInt32 := v &&& ~~~(m - 1)

/-- `BucketList::levelSize`: `1UL << (2 * (level + 1))`, returned as a `uint32_t`. -/
def levelSize (level : UInt32) : UInt32 := ((1 : UInt64) <<< (2 * (level + 1)).toUInt64).toUInt32

def levelHalf (level : UInt32) : UInt32 := levelSize level >>> 1

/-- `previousRelevantLedger` of `sizeOfCurr`: the latest ledger before `ledger` at which this
level or the one above it spills. -/
def previousRelevantLedger (ledger level : UInt32) : UInt32 :=
  max (max (max (roundDown (ledger - 1) (levelHalf (level - 1))) (roundDown (ledger - 1) (levelSize (level - 1))))
    (roundDown (ledger - 1) (levelHalf level))) (roundDown (ledger - 1) (levelSize level))

theorem roundDown_le (v m : UInt32) : roundDown v m ≤ v := by
  rw [UInt32.le_iff_toNat_le, roundDown, UInt32.toNat_and]
  exact Nat.and_le_left

theorem ne_zero_of_roundDown_ne_zero {v m : UInt32} (h : roundDown v m ≠ 0) : v ≠ 0 := by
  rintro rfl
  exact h (by simp [roundDown])

theorem previousRelevantLedger_lt {ledger : UInt32} (level : UInt32) (h : ledger ≠ 0) :
    (previousRelevantLedger ledger level).toNat < ledger.toNat := by
  have hround : ∀ m, (roundDown (ledger - 1) m).toNat < ledger.toNat := fun m =>
    lt_of_le_of_lt (UInt32.le_iff_toNat_le.mp (roundDown_le _ m)) (Word32.toNat_sub_one_lt h)
  simp only [previousRelevantLedger, UInt32.toNat_max, Nat.max_lt]
  exact ⟨⟨⟨hround _, hround _⟩, hround _⟩, hround _⟩

set_option linter.unusedVariables false in
mutual

/-- `BucketList::sizeOfCurr`: how many ledgers `curr` of `level` holds at `ledger`. -/
def sizeOfCurr (ledger level : UInt32) : UInt32 :=
  if level = 0 then (if ledger = 1 then 1 else 1 + ledger % 2)
  else
    let size := levelSize level
    let half := levelHalf level
    if hspill : level ≠ kNumLevels - 1 ∧ roundDown ledger half ≠ 0 then
      let sizeDelta : UInt32 := ((1 : UInt64) <<< (2 * level - 1).toUInt64).toUInt32
      if roundDown ledger half = ledger ∨ roundDown ledger size = ledger then sizeDelta
      else
        let prevSize := levelSize (level - 1)
        let prevHalf := levelHalf (level - 1)
        if roundDown ledger prevHalf = ledger ∨ roundDown ledger prevSize = ledger then
          sizeOfCurr (previousRelevantLedger ledger level) level + sizeDelta
        else sizeOfCurr (previousRelevantLedger ledger level) level
    else ledger - levelsBelowSize ledger level
termination_by (3 * level.toNat + 1, ledger.toNat)
decreasing_by
  · exact Prod.Lex.right _ (previousRelevantLedger_lt level (ne_zero_of_roundDown_ne_zero hspill.2))
  · exact Prod.Lex.right _ (previousRelevantLedger_lt level (ne_zero_of_roundDown_ne_zero hspill.2))
  · exact Prod.Lex.left _ _ (by omega)

def sizeOfSnap (ledger level : UInt32) : UInt32 :=
  if level = kNumLevels - 1 then 0
  else if roundDown ledger (levelSize level) ≠ 0 then levelHalf level
  else ledger - (levelsBelowSize ledger level + sizeOfCurr ledger level)
termination_by (3 * level.toNat + 2, ledger.toNat)
decreasing_by
  all_goals exact Prod.Lex.left _ _ (by omega)

def levelsBelowSize (ledger level : UInt32) : UInt32 :=
  if hlevel : level = 0 then 0
  else levelsBelowSize ledger (level - 1) + sizeOfCurr ledger (level - 1) + sizeOfSnap ledger (level - 1)
termination_by (3 * level.toNat, ledger.toNat)
decreasing_by
  all_goals
    have := Word32.toNat_sub_one_lt hlevel
    exact Prod.Lex.left _ _ (by omega)

end

def uint32Max : UInt32 := 4294967295

def oldestLedgerInCurr (ledger level : UInt32) : UInt32 :=
  if sizeOfCurr ledger level = 0 then uint32Max
  else
    let count := (List.range level.toNat).foldl
      (fun count l => count - sizeOfCurr ledger l.toUInt32 - sizeOfSnap ledger l.toUInt32) ledger
    count - sizeOfCurr ledger level + 1

def oldestLedgerInSnap (ledger level : UInt32) : UInt32 :=
  if sizeOfSnap ledger level = 0 then uint32Max
  else
    let count := (List.range (level.toNat + 1)).foldl
      (fun count l => count - sizeOfCurr ledger l.toUInt32 - sizeOfSnap ledger l.toUInt32) ledger
    count + 1

end HcnetCore.Bucket.BucketList
