import HcnetCore.Bucket.BucketMerge
import Mathlib

/-! # What a bucket merge means

A reader of a bucket looks a key up and sees the ledger entry of a live or init entry, and
nothing for a tombstone. The merge of an older and a newer bucket reads as the newer one laid
over the older one, and keeps the lifecycle property of the comments of
`mergeCasesWithEqualKeys`: below an INIT entry the next entry of its key, in an older bucket,
is DEAD or absent.
-/

namespace HcnetCore.Bucket

open SortedList

set_option autoImplicit false

variable {K E : Type}

/-- The ledger entry a reader sees in a live or init entry; a tombstone shows none. -/
def BucketEntry.liveValue : BucketEntry K E → Option E
  | liveEntry e | initEntry e => some e
  | deadEntry _ => none

section View

variable [LinearOrder K] (ledgerEntryKey : E → K)

/-- The ledger entry a reader of `entries` sees at key `k`. -/
def readerView (entries : List (BucketEntry K E)) (k : K) : Option E :=
  (lookup (BucketEntry.key ledgerEntryKey) entries k).bind BucketEntry.liveValue

/-- The entry of key `k` in the newest bucket of a stack, newest first, that has one. -/
def lookupStack (buckets : List (List (BucketEntry K E))) (k : K) : Option (BucketEntry K E) :=
  buckets.findSome? (lookup (BucketEntry.key ledgerEntryKey) · k)

/-- The lifecycle property of a stack of buckets, newest first: the next entry of the key of
an INIT entry, in the older buckets, is DEAD or absent. -/
def LifecycleSound : List (List (BucketEntry K E)) → Prop
  | [] => True
  | b :: older =>
    (∀ x ∈ b, x.type = .initEntry → ∀ y ∈ lookupStack ledgerEntryKey older (x.key ledgerEntryKey), y.type = .deadEntry) ∧
      LifecycleSound older

/-- What the merge `merged` of `oldEntries` and `newEntries` has to be: sorted, read as the
new entries laid over the old ones, without tombstones when it drops them, and with every INIT
entry the oldest input entry of its key, so that the lifecycle property of a stack holds with
`merged` in place of the two. -/
structure MergeCorrect (keepDeadEntries : Bool) (oldEntries newEntries merged : List (BucketEntry K E)) : Prop where
  sorted : Sorted (BucketEntry.key ledgerEntryKey) merged
  reader_view : ∀ k v, readerView ledgerEntryKey merged k = some v ↔
    readerView ledgerEntryKey newEntries k = some v ∨
      (lookup (BucketEntry.key ledgerEntryKey) newEntries k = none ∧ readerView ledgerEntryKey oldEntries k = some v)
  no_dead : keepDeadEntries = false → ∀ x ∈ merged, x.type ≠ .deadEntry
  init_oldest : ∀ x ∈ merged, x.type = .initEntry →
    ((lookup (BucketEntry.key ledgerEntryKey) oldEntries (x.key ledgerEntryKey)).or
      (lookup (BucketEntry.key ledgerEntryKey) newEntries (x.key ledgerEntryKey))).map BucketEntry.type = some .initEntry
  lifecycle : ∀ older, LifecycleSound ledgerEntryKey (newEntries :: oldEntries :: older) →
    LifecycleSound ledgerEntryKey (merged :: older)

end View

/-! ## The lifecycle table, looked up -/

section Table

theorem liveValue_lifecycleMerge (oldEntry newEntry : BucketEntry K E) :
    (lifecycleMerge oldEntry newEntry).bind BucketEntry.liveValue = newEntry.liveValue := by
  cases oldEntry <;> cases newEntry <;> rfl

theorem liveValue_overlay (o n : Option (BucketEntry K E)) :
    (overlay lifecycleMerge o n).bind BucketEntry.liveValue =
      n.elim (o.bind BucketEntry.liveValue) BucketEntry.liveValue := by
  cases n with
  | none => simp
  | some n =>
    cases o with
    | none => simp
    | some o => simp [liveValue_lifecycleMerge]

theorem liveValue_filter_isKept (keepDeadEntries : Bool) (x : Option (BucketEntry K E)) :
    (x.filter (BucketEntry.isKept keepDeadEntries)).bind BucketEntry.liveValue = x.bind BucketEntry.liveValue := by
  cases x with
  | none => rfl
  | some e =>
    cases keepDeadEntries <;> cases e <;>
      simp [Option.filter, BucketEntry.isKept, BucketEntry.type, BucketEntry.liveValue]

theorem type_or_of_overlay {o n : Option (BucketEntry K E)} {x : BucketEntry K E}
    (h : overlay lifecycleMerge o n = some x) (hx : x.type = .initEntry) :
    (o.or n).map BucketEntry.type = some .initEntry := by
  cases o with
  | none =>
    cases n with
    | none => cases h
    | some n =>
      simp only [overlay_none_left, Option.some.injEq] at h
      simp [h, hx]
  | some o =>
    cases n with
    | none =>
      simp only [overlay_none_right, Option.some.injEq] at h
      simp [h, hx]
    | some n =>
      -- only a create and an update merge to an INIT entry, and the create is the old one
      simp only [overlay_some_some] at h
      cases o <;> cases n <;> simp [lifecycleMerge] at h <;> subst h <;> simp_all [BucketEntry.type]

end Table

/-! ## The merge meets its meaning -/

section Correct

variable [LinearOrder K] (ledgerEntryKey : E → K) {oldEntries newEntries : List (BucketEntry K E)}

theorem lifecycleSound_of_init_oldest {merged : List (BucketEntry K E)} {older : List (List (BucketEntry K E))}
    (hinit : ∀ x ∈ merged, x.type = .initEntry →
      ((lookup (BucketEntry.key ledgerEntryKey) oldEntries (x.key ledgerEntryKey)).or
        (lookup (BucketEntry.key ledgerEntryKey) newEntries (x.key ledgerEntryKey))).map BucketEntry.type = some .initEntry)
    (h : LifecycleSound ledgerEntryKey (newEntries :: oldEntries :: older)) :
    LifecycleSound ledgerEntryKey (merged :: older) := by
  obtain ⟨hnewSound, holdSound, hrest⟩ := h
  refine ⟨fun x hx hxinit y hy => ?_, hrest⟩
  have hfirst := hinit x hx hxinit
  cases ho : lookup (BucketEntry.key ledgerEntryKey) oldEntries (x.key ledgerEntryKey) with
  | some o =>
    -- the INIT entry stands for the old INIT entry `o`, whose next entry is DEAD or absent
    rw [ho] at hfirst
    have hotype : o.type = .initEntry := by simpa using hfirst
    have hokey := key_of_lookup_eq_some ho
    exact holdSound o (mem_of_lookup_eq_some ho) hotype y (hokey ▸ hy)
  | none =>
    -- the INIT entry stands for a new INIT entry `n`, and the old bucket has nothing of its key
    rw [ho, Option.none_or] at hfirst
    obtain ⟨n, hn, hntype⟩ := Option.map_eq_some_iff.mp hfirst
    have hnkey := key_of_lookup_eq_some hn
    have hstack : lookupStack ledgerEntryKey (oldEntries :: older) (x.key ledgerEntryKey) =
        lookupStack ledgerEntryKey older (x.key ledgerEntryKey) := by
      simp [lookupStack, ho]
    exact hnewSound n (mem_of_lookup_eq_some hn) hntype y (by rw [hnkey, hstack]; exact hy)

variable (keepDeadEntries : Bool) (hold : Sorted (BucketEntry.key ledgerEntryKey) oldEntries)
  (hnew : Sorted (BucketEntry.key ledgerEntryKey) newEntries)
include hold hnew

theorem lookup_merged (k : K) :
    lookup (BucketEntry.key ledgerEntryKey)
        ((mergeWith (BucketEntry.key ledgerEntryKey) lifecycleMerge oldEntries newEntries).filter
          (BucketEntry.isKept keepDeadEntries)) k =
      (overlay lifecycleMerge (lookup (BucketEntry.key ledgerEntryKey) oldEntries k)
        (lookup (BucketEntry.key ledgerEntryKey) newEntries k)).filter (BucketEntry.isKept keepDeadEntries) := by
  rw [lookup_filter (sorted_mergeWith (lifecycleMerge_keepsKey ledgerEntryKey) hold hnew),
    lookup_mergeWith (lifecycleMerge_keepsKey ledgerEntryKey) hold hnew]

theorem mergeCorrect_mergeWith :
    MergeCorrect ledgerEntryKey keepDeadEntries oldEntries newEntries
      ((mergeWith (BucketEntry.key ledgerEntryKey) lifecycleMerge oldEntries newEntries).filter
        (BucketEntry.isKept keepDeadEntries)) := by
  have hsorted := (sorted_mergeWith (lifecycleMerge_keepsKey ledgerEntryKey) hold hnew).filter
    (BucketEntry.isKept keepDeadEntries)
  have hinit : ∀ x ∈ (mergeWith (BucketEntry.key ledgerEntryKey) lifecycleMerge oldEntries newEntries).filter
      (BucketEntry.isKept keepDeadEntries), x.type = .initEntry →
      ((lookup (BucketEntry.key ledgerEntryKey) oldEntries (x.key ledgerEntryKey)).or
        (lookup (BucketEntry.key ledgerEntryKey) newEntries (x.key ledgerEntryKey))).map BucketEntry.type =
          some .initEntry := by
    intro x hx hxinit
    have hlook := lookup_of_mem hsorted hx
    rw [lookup_merged ledgerEntryKey keepDeadEntries hold hnew] at hlook
    exact type_or_of_overlay (Option.filter_eq_some_iff.mp hlook).1 hxinit
  refine ⟨hsorted, fun k v => ?_, fun hkeep x hx => ?_, hinit,
    fun older h => lifecycleSound_of_init_oldest ledgerEntryKey hinit h⟩
  · rw [readerView, lookup_merged ledgerEntryKey keepDeadEntries hold hnew, liveValue_filter_isKept,
      liveValue_overlay]
    cases hn : lookup (BucketEntry.key ledgerEntryKey) newEntries k with
    | none => simp [readerView, hn]
    | some n => simp [readerView, hn]
  · have hkept := (List.mem_filter.mp hx).2
    subst hkeep
    simpa [BucketEntry.isKept] using hkept

omit hold hnew

/-- `Bucket::merge` of sorted buckets, at a protocol version with INIT entries and with no INIT
entry of the new bucket over a non-DEAD entry of the old one, fails only where its protocol
version check does, with the same error, and otherwise gives a bucket that meets
`MergeCorrect`. -/
theorem merge_lsm_correct (maxProtocolVersion : ℕ) (oldBucket newBucket : Bucket K E) (keepDeadEntries : Bool)
    (hold : Sorted (BucketEntry.key ledgerEntryKey) oldBucket.entries)
    (hnew : Sorted (BucketEntry.key ledgerEntryKey) newBucket.entries)
    (hmatch : InitMatched ledgerEntryKey oldBucket.entries newBucket.entries)
    (hpv : firstProtocolSupportingInitEntryAndMetaEntry ≤ max oldBucket.ledgerVersion newBucket.ledgerVersion) :
    ∃ merged, MergeCorrect ledgerEntryKey keepDeadEntries oldBucket.entries newBucket.entries merged ∧
      Bucket.merge ledgerEntryKey maxProtocolVersion oldBucket newBucket keepDeadEntries =
        (fun protocolVersion => ⟨protocolVersion, merged⟩) <$>
          calculateMergeProtocolVersion maxProtocolVersion oldBucket newBucket := by
  refine ⟨_, mergeCorrect_mergeWith ledgerEntryKey keepDeadEntries hold hnew, ?_⟩
  by_cases hmax : max oldBucket.ledgerVersion newBucket.ledgerVersion ≤ maxProtocolVersion
  · rw [Bucket.merge_eq hold hnew hmatch hpv hmax, calculateMergeProtocolVersion, if_neg (Nat.not_lt.mpr hmax)]
    rfl
  · rw [Bucket.merge, calculateMergeProtocolVersion, if_pos (Nat.lt_of_not_le hmax), Except.throw_bind]
    rfl

/-- An old bucket with an update, a delete and a create, under a newer one that recreates the
deleted key, deletes the created one and adds a fourth key. -/
theorem merge_lsm_correct_sample :
    Sorted (BucketEntry.key id) ([.liveEntry 1, .deadEntry 2, .initEntry 3] : List (BucketEntry ℕ ℕ)) ∧
      Sorted (BucketEntry.key id) ([.initEntry 2, .deadEntry 3, .liveEntry 4] : List (BucketEntry ℕ ℕ)) ∧
      InitMatched id [.liveEntry 1, .deadEntry 2, .initEntry 3] [.initEntry 2, .deadEntry 3, .liveEntry 4] ∧
      firstProtocolSupportingInitEntryAndMetaEntry ≤ max 11 12 ∧
      ∃ merged, MergeCorrect id false [.liveEntry 1, .deadEntry 2, .initEntry 3]
          [.initEntry 2, .deadEntry 3, .liveEntry 4] merged ∧
        Bucket.merge id 12 ⟨11, [.liveEntry 1, .deadEntry 2, .initEntry 3]⟩
            ⟨12, [.initEntry 2, .deadEntry 3, .liveEntry 4]⟩ false =
          (fun protocolVersion => ⟨protocolVersion, merged⟩) <$>
            calculateMergeProtocolVersion 12 (⟨11, [.liveEntry 1, .deadEntry 2, .initEntry 3]⟩ : Bucket ℕ ℕ)
              ⟨12, [.initEntry 2, .deadEntry 3, .liveEntry 4]⟩ := by
  have hold : Sorted (BucketEntry.key id) ([.liveEntry 1, .deadEntry 2, .initEntry 3] : List (BucketEntry ℕ ℕ)) := by
    unfold Sorted
    decide
  have hnew : Sorted (BucketEntry.key id) ([.initEntry 2, .deadEntry 3, .liveEntry 4] : List (BucketEntry ℕ ℕ)) := by
    unfold Sorted
    decide
  have hmatch : InitMatched id ([.liveEntry 1, .deadEntry 2, .initEntry 3] : List (BucketEntry ℕ ℕ))
      [.initEntry 2, .deadEntry 3, .liveEntry 4] := by
    unfold InitMatched
    decide
  have hpv : firstProtocolSupportingInitEntryAndMetaEntry ≤ max 11 12 := by decide
  exact ⟨hold, hnew, hmatch, hpv, merge_lsm_correct id 12 ⟨11, _⟩ ⟨12, _⟩ false hold hnew hmatch hpv⟩

end Correct

end HcnetCore.Bucket
