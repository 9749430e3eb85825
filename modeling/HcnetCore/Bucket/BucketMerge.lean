import HcnetCore.Library.SortedMerge
import HcnetCore.Library.ExceptInvariant

/-! # Merging two buckets

`Bucket::merge` (bucket/Bucket.cpp) reads an older and a newer bucket, each sorted by
`BucketEntryIdCmp`, with one cursor each, and puts their entries in key order into a
`BucketOutputIterator` (bucket/BucketOutputIterator.cpp). Of two entries of one key it puts
what the lifecycle table of `mergeCasesWithEqualKeys` gives. The output iterator holds the last
entry back, so that an entry of the same key replaces it, and drops tombstones unless it keeps
dead entries.

The model covers merges without shadow buckets, where `maybePut` always puts: from protocol 12
on, `calculateMergeProtocolVersion` throws on any shadow. A bucket's `METAENTRY` is its
`ledgerVersion` and never one of its `entries`; the input iterators, which consume it, are the
lists of entries. The merge counters and the shutdown check every thousand entries are not
modelled.

From sorted inputs, with no INIT entry of the new bucket over a non-DEAD entry of the old one,
the loop of `Bucket::merge` never fails and puts the entries of `SortedList.mergeWith` with the
lifecycle table `lifecycleMerge` (`mergeLoop_eq`).
-/

namespace HcnetCore.Bucket

open SortedList

set_option autoImplicit false

-- `Bucket` is the class of bucket/Bucket.h in the directory of the same name
set_option linter.dupNamespace false

inductive BucketEntryType where
  | liveEntry
  | deadEntry
  | initEntry
deriving DecidableEq, Repr

/-- `BucketEntry`: a ledger entry, live or created (`INITENTRY`), or the key of a deleted one. -/
inductive BucketEntry (K E : Type) where
  | liveEntry (entry : E)
  | deadEntry (key : K)
  | initEntry (entry : E)
deriving DecidableEq, Repr

namespace BucketEntry

variable {K E : Type}

def type : BucketEntry K E → BucketEntryType
  | liveEntry _ => .liveEntry
  | deadEntry _ => .deadEntry
  | initEntry _ => .initEntry

def key (ledgerEntryKey : E → K) : BucketEntry K E → K
  | liveEntry e | initEntry e => ledgerEntryKey e
  | deadEntry k => k

def isKept (keepDeadEntries : Bool) (e : BucketEntry K E) : Bool := keepDeadEntries || e.type != .deadEntry

end BucketEntry

/-- A bucket: the protocol version of its `METAENTRY` (0 without one) and its other entries. -/
structure Bucket (K E : Type) where
  ledgerVersion : ℕ
  entries : List (BucketEntry K E)

def firstProtocolSupportingInitEntryAndMetaEntry : ℕ := 11

def Bucket.checkProtocolLegality {K E : Type} (entry : BucketEntry K E) (protocolVersion : ℕ) :
    Except String Unit :=
  if protocolVersion < firstProtocolSupportingInitEntryAndMetaEntry ∧ entry.type = .initEntry then
    throw s!"unsupported entry type INIT in protocol {protocolVersion} bucket"
  else pure ()

def calculateMergeProtocolVersion {K E : Type} (maxProtocolVersion : ℕ) (oldBucket newBucket : Bucket K E) :
    Except String ℕ :=
  let protocolVersion := max oldBucket.ledgerVersion newBucket.ledgerVersion
  if protocolVersion > maxProtocolVersion then
    throw s!"bucket protocol version {protocolVersion} exceeds maxProtocolVersion {maxProtocolVersion}"
  else pure protocolVersion

/-- `BucketOutputIterator`: `ledgerVersion` is that of its `mMeta`, `buf` is `mBuf`, and
`written` the entries written to the file after the meta entry. -/
structure BucketOutputIterator (K E : Type) where
  keepDeadEntries : Bool
  ledgerVersion : ℕ
  buf : Option (BucketEntry K E)
  written : List (BucketEntry K E)

def BucketOutputIterator.getBucket {K E : Type} (out : BucketOutputIterator K E) : List (BucketEntry K E) :=
  out.written ++ out.buf.toList

structure MergeState (K E : Type) where
  oi : List (BucketEntry K E)
  ni : List (BucketEntry K E)
  out : BucketOutputIterator K E

section Merge

variable {K E : Type} [LinearOrder K] (ledgerEntryKey : E → K)

/-- `BucketOutputIterator::put`. Its `releaseAssert` aborts, which the model returns as an
error with the asserted expression. -/
def BucketOutputIterator.put (out : BucketOutputIterator K E) (e : BucketEntry K E) :
    Except String (BucketOutputIterator K E) := do
  Bucket.checkProtocolLegality e out.ledgerVersion
  if !out.keepDeadEntries && e.type == .deadEntry then pure out
  else
    match out.buf with
    | none => pure { out with buf := some e }
    | some b =>
      if e.key ledgerEntryKey < b.key ledgerEntryKey then throw "!mCmp(e, *mBuf)"
      -- a greater key writes the buffered entry out, the same key replaces it
      else if b.key ledgerEntryKey < e.key ledgerEntryKey then
        pure { out with buf := some e, written := out.written ++ [b] }
      else pure { out with buf := some e }

/-- `maybePut` without shadows: both of its branches put the entry. -/
def maybePut (out : BucketOutputIterator K E) (entry : BucketEntry K E) : Except String (BucketOutputIterator K E) :=
  out.put ledgerEntryKey entry

def acceptEntry (protocolVersion : ℕ) (out : BucketOutputIterator K E) (entry : BucketEntry K E) :
    Except String (BucketOutputIterator K E) := do
  Bucket.checkProtocolLegality entry protocolVersion
  maybePut ledgerEntryKey out entry

def mergeCasesWithDefaultAcceptance (protocolVersion : ℕ) (s : MergeState K E) :
    Option (Except String (MergeState K E)) :=
  match s.oi, s.ni with
  | oe :: rest, [] => some ((fun out => { s with oi := rest, out := out }) <$> acceptEntry ledgerEntryKey protocolVersion s.out oe)
  | oe :: oldRest, ne :: newRest =>
    if oe.key ledgerEntryKey < ne.key ledgerEntryKey then
      some ((fun out => { s with oi := oldRest, out := out }) <$> acceptEntry ledgerEntryKey protocolVersion s.out oe)
    else if ne.key ledgerEntryKey < oe.key ledgerEntryKey then
      some ((fun out => { s with ni := newRest, out := out }) <$> acceptEntry ledgerEntryKey protocolVersion s.out ne)
    else none
  | [], ne :: rest => some ((fun out => { s with ni := rest, out := out }) <$> acceptEntry ledgerEntryKey protocolVersion s.out ne)
  | [], [] => none

def mergeCasesWithEqualKeys (protocolVersion : ℕ) (oldEntry newEntry : BucketEntry K E) (out : BucketOutputIterator K E) :
    Except String (BucketOutputIterator K E) := do
  Bucket.checkProtocolLegality oldEntry protocolVersion
  Bucket.checkProtocolLegality newEntry protocolVersion
  match newEntry with
  | .initEntry e =>
    -- the only legal new-is-INIT case merges a delete and a create to an update
    if oldEntry.type ≠ .deadEntry then throw "Malformed bucket: old non-DEAD + new INIT."
    else maybePut ledgerEntryKey out (.liveEntry e)
  | .liveEntry e =>
    -- a create and an update merge to a fresher create
    if oldEntry.type = .initEntry then maybePut ledgerEntryKey out (.initEntry e)
    else maybePut ledgerEntryKey out newEntry
  | .deadEntry _ =>
    -- a create and a delete merge to nothing
    if oldEntry.type = .initEntry then pure out
    else maybePut ledgerEntryKey out newEntry

/-- One pass of the loop of `Bucket::merge`: the default cases, or else the equal keys under
both cursors, which both advance. The last branch is not reached, as the loop runs while a
cursor holds an entry. -/
def mergeStep (protocolVersion : ℕ) (s : MergeState K E) : Except String (MergeState K E) :=
  match mergeCasesWithDefaultAcceptance ledgerEntryKey protocolVersion s, s.oi, s.ni with
  | some r, _, _ => r
  | none, oldEntry :: oldRest, newEntry :: newRest =>
    (fun out => ⟨oldRest, newRest, out⟩) <$> mergeCasesWithEqualKeys ledgerEntryKey protocolVersion oldEntry newEntry s.out
  | none, _, _ => pure s

theorem mergeStep_length_lt {protocolVersion : ℕ} {s s' : MergeState K E} (hs : ¬(s.oi = [] ∧ s.ni = []))
    (h : mergeStep ledgerEntryKey protocolVersion s = .ok s') :
    s'.oi.length + s'.ni.length < s.oi.length + s.ni.length := by
  obtain ⟨oi, ni, out⟩ := s
  cases oi with
  | nil =>
    cases ni with
    | nil => exact absurd ⟨rfl, rfl⟩ hs
    | cons ne rest =>
      simp only [mergeStep, mergeCasesWithDefaultAcceptance] at h
      obtain ⟨_, -, rfl⟩ := Except.map_eq_ok.mp h
      simp only [List.length_cons]
      omega
  | cons oe oldRest =>
    cases ni with
    | nil =>
      simp only [mergeStep, mergeCasesWithDefaultAcceptance] at h
      obtain ⟨_, -, rfl⟩ := Except.map_eq_ok.mp h
      simp only [List.length_cons]
      omega
    | cons ne newRest =>
      simp only [mergeStep, mergeCasesWithDefaultAcceptance] at h
      split_ifs at h
      all_goals
        obtain ⟨_, -, rfl⟩ := Except.map_eq_ok.mp h
        simp only [List.length_cons]
        omega

set_option linter.unusedVariables false in
def mergeLoop (protocolVersion : ℕ) (s : MergeState K E) : Except String (BucketOutputIterator K E) :=
  if hs : s.oi = [] ∧ s.ni = [] then pure s.out
  else
    match h : mergeStep ledgerEntryKey protocolVersion s with
    | .ok s' => mergeLoop protocolVersion s'
    | .error e => throw e
termination_by s.oi.length + s.ni.length
decreasing_by exact mergeStep_length_lt ledgerEntryKey hs h

/-- `Bucket::merge` without shadows. From protocol 11 on the output opens with a `METAENTRY`
of the merge's protocol version; a bucket without one reads as protocol 0. -/
def Bucket.merge (maxProtocolVersion : ℕ) (oldBucket newBucket : Bucket K E) (keepDeadEntries : Bool) :
    Except String (Bucket K E) := do
  let protocolVersion ← calculateMergeProtocolVersion maxProtocolVersion oldBucket newBucket
  let out ← mergeLoop ledgerEntryKey protocolVersion
    ⟨oldBucket.entries, newBucket.entries, ⟨keepDeadEntries, protocolVersion, none, []⟩⟩
  pure ⟨if protocolVersion < firstProtocolSupportingInitEntryAndMetaEntry then 0 else protocolVersion, out.getBucket⟩

end Merge

/-! ## The loop puts the merge of its inputs -/

section Lifecycle

variable {K E : Type} (ledgerEntryKey : E → K)

/-- The lifecycle table of `mergeCasesWithEqualKeys`: the entry kept of two entries of one key,
or none. The pair the code rejects, a non-DEAD old entry and an INIT new one, is given the LIVE
entry that DEAD and INIT merge to. -/
def lifecycleMerge : BucketEntry K E → BucketEntry K E → Option (BucketEntry K E)
  | _, .initEntry e => some (.liveEntry e)
  | .initEntry _, .liveEntry e => some (.initEntry e)
  | .initEntry _, .deadEntry _ => none
  | _, newEntry => some newEntry

theorem lifecycleMerge_keepsKey [LinearOrder K] :
    KeepsKey (BucketEntry.key ledgerEntryKey) (lifecycleMerge (K := K) (E := E)) := by
  intro oldEntry newEntry c h
  cases oldEntry <;> cases newEntry <;> simp [lifecycleMerge] at h <;> simp [← h, BucketEntry.key]

def InitMatched (oldEntries newEntries : List (BucketEntry K E)) : Prop :=
  ∀ n ∈ newEntries, n.type = .initEntry →
    ∀ o ∈ oldEntries, o.key ledgerEntryKey = n.key ledgerEntryKey → o.type = .deadEntry

variable {ledgerEntryKey} in
theorem InitMatched.mono {oi ni oi' ni' : List (BucketEntry K E)} (h : InitMatched ledgerEntryKey oi ni)
    (ho : oi' ⊆ oi) (hn : ni' ⊆ ni) : InitMatched ledgerEntryKey oi' ni' :=
  fun n hmem hinit o ho' hkey => h n (hn hmem) hinit o (ho ho') hkey

theorem Bucket.checkProtocolLegality_ok (entry : BucketEntry K E) {protocolVersion : ℕ}
    (h : firstProtocolSupportingInitEntryAndMetaEntry ≤ protocolVersion) :
    Bucket.checkProtocolLegality entry protocolVersion = .ok () := by
  rw [Bucket.checkProtocolLegality, if_neg fun hc => absurd hc.1 (Nat.not_lt.mpr h)]
  rfl

namespace BucketOutputIterator

def push (out : BucketOutputIterator K E) (e : BucketEntry K E) : BucketOutputIterator K E :=
  if e.isKept out.keepDeadEntries then { out with buf := some e, written := out.getBucket } else out

def pushAll (out : BucketOutputIterator K E) (es : List (BucketEntry K E)) : BucketOutputIterator K E :=
  es.foldl push out

variable (out : BucketOutputIterator K E) (e : BucketEntry K E) (es : List (BucketEntry K E))

@[simp] theorem push_keepDeadEntries : (out.push e).keepDeadEntries = out.keepDeadEntries := by
  unfold push
  split <;> rfl

@[simp] theorem push_ledgerVersion : (out.push e).ledgerVersion = out.ledgerVersion := by
  unfold push
  split <;> rfl

theorem getBucket_push : (out.push e).getBucket = out.getBucket ++ [e].filter (BucketEntry.isKept out.keepDeadEntries) := by
  unfold push
  split <;> simp [getBucket, *]

@[simp] theorem pushAll_nil : out.pushAll [] = out := rfl

@[simp] theorem pushAll_cons : out.pushAll (e :: es) = (out.push e).pushAll es := rfl

@[simp] theorem pushAll_append (es' : List (BucketEntry K E)) : out.pushAll (es ++ es') = (out.pushAll es).pushAll es' :=
  List.foldl_append

theorem getBucket_pushAll :
    (out.pushAll es).getBucket = out.getBucket ++ es.filter (BucketEntry.isKept out.keepDeadEntries) := by
  induction es generalizing out with
  | nil => simp
  | cons e es ih =>
    cases hk : BucketEntry.isKept out.keepDeadEntries e <;> simp [ih, getBucket_push, hk]

@[simp] theorem pushAll_keepDeadEntries : (out.pushAll es).keepDeadEntries = out.keepDeadEntries := by
  induction es generalizing out with
  | nil => rfl
  | cons e es ih => simp [ih]

@[simp] theorem pushAll_ledgerVersion : (out.pushAll es).ledgerVersion = out.ledgerVersion := by
  induction es generalizing out with
  | nil => rfl
  | cons e es ih => simp [ih]

end BucketOutputIterator

end Lifecycle

section Refinement

variable {K E : Type} [LinearOrder K] (ledgerEntryKey : E → K)

namespace BucketOutputIterator

variable {out : BucketOutputIterator K E} (e : BucketEntry K E)

theorem put_eq (hv : firstProtocolSupportingInitEntryAndMetaEntry ≤ out.ledgerVersion)
    (hbelow : ∀ x ∈ out.getBucket, x.key ledgerEntryKey < e.key ledgerEntryKey) :
    out.put ledgerEntryKey e = .ok (out.push e) := by
  rw [put, Bucket.checkProtocolLegality_ok e hv, Except.ok_bind]
  unfold push
  by_cases hk : e.isKept out.keepDeadEntries
  · have hdrop : (!out.keepDeadEntries && e.type == .deadEntry) = false := by
      cases hkd : out.keepDeadEntries <;> simp_all [BucketEntry.isKept]
    rw [if_neg (by simp [hdrop]), if_pos hk]
    cases hbuf : out.buf with
    | none => simp [getBucket, hbuf]
    | some b =>
      -- the buffered entry is below `e`, so it is written out
      have hb : b.key ledgerEntryKey < e.key ledgerEntryKey := hbelow b (by simp [getBucket, hbuf])
      dsimp only
      rw [if_neg (not_lt.mpr hb.le), if_pos hb]
      simp [getBucket, hbuf]
  · have hdrop : (!out.keepDeadEntries && e.type == .deadEntry) = true := by
      cases hkd : out.keepDeadEntries <;> simp_all [BucketEntry.isKept]
    rw [if_pos hdrop, if_neg hk]
    rfl

end BucketOutputIterator

variable {ledgerEntryKey} {protocolVersion : ℕ} {out : BucketOutputIterator K E}

theorem acceptEntry_eq (entry : BucketEntry K E) (hpv : firstProtocolSupportingInitEntryAndMetaEntry ≤ protocolVersion)
    (hv : out.ledgerVersion = protocolVersion)
    (hbelow : ∀ x ∈ out.getBucket, x.key ledgerEntryKey < entry.key ledgerEntryKey) :
    acceptEntry ledgerEntryKey protocolVersion out entry = .ok (out.push entry) := by
  rw [acceptEntry, Bucket.checkProtocolLegality_ok entry hpv, Except.ok_bind, maybePut,
    BucketOutputIterator.put_eq ledgerEntryKey entry (hv ▸ hpv) hbelow]

theorem mergeCasesWithEqualKeys_eq (oldEntry newEntry : BucketEntry K E)
    (hpv : firstProtocolSupportingInitEntryAndMetaEntry ≤ protocolVersion) (hv : out.ledgerVersion = protocolVersion)
    (hbelow : ∀ x ∈ out.getBucket, x.key ledgerEntryKey < newEntry.key ledgerEntryKey)
    (hmatch : newEntry.type = .initEntry → oldEntry.type = .deadEntry) :
    mergeCasesWithEqualKeys ledgerEntryKey protocolVersion oldEntry newEntry out =
      .ok (out.pushAll (lifecycleMerge oldEntry newEntry).toList) := by
  have hput : ∀ entry : BucketEntry K E, (∀ x ∈ out.getBucket, x.key ledgerEntryKey < entry.key ledgerEntryKey) →
      out.put ledgerEntryKey entry = .ok (out.push entry) :=
    fun entry => BucketOutputIterator.put_eq ledgerEntryKey entry (hv ▸ hpv)
  unfold mergeCasesWithEqualKeys
  rw [Bucket.checkProtocolLegality_ok oldEntry hpv, Except.ok_bind,
    Bucket.checkProtocolLegality_ok newEntry hpv, Except.ok_bind]
  cases newEntry with
  | initEntry e =>
    -- DEAD and INIT merge to LIVE
    dsimp only
    rw [if_neg (not_not.mpr (hmatch rfl)), maybePut, hput (.liveEntry e) hbelow]
    simp [lifecycleMerge]
  | liveEntry e =>
    cases oldEntry with
    | initEntry o => simp [BucketEntry.type, maybePut, hput (.initEntry e) hbelow, lifecycleMerge]
    | liveEntry o => simp [BucketEntry.type, maybePut, hput (.liveEntry e) hbelow, lifecycleMerge]
    | deadEntry k => simp [BucketEntry.type, maybePut, hput (.liveEntry e) hbelow, lifecycleMerge]
  | deadEntry k =>
    cases oldEntry with
    | initEntry o => simp [BucketEntry.type, lifecycleMerge]
    | liveEntry o => simp [BucketEntry.type, maybePut, hput (.deadEntry k) hbelow, lifecycleMerge]
    | deadEntry k' => simp [BucketEntry.type, maybePut, hput (.deadEntry k) hbelow, lifecycleMerge]

variable (ledgerEntryKey)

/-- What holds at every pass of the merge loop: its protocol version allows INIT entries and is
that of the output, the entries left are sorted, none of the new ones is an INIT entry over a
non-DEAD old one, and every entry put is below every entry left. -/
structure LoopInv (protocolVersion : ℕ) (s : MergeState K E) : Prop where
  version : firstProtocolSupportingInitEntryAndMetaEntry ≤ protocolVersion
  out_version : s.out.ledgerVersion = protocolVersion
  sorted_oi : Sorted (BucketEntry.key ledgerEntryKey) s.oi
  sorted_ni : Sorted (BucketEntry.key ledgerEntryKey) s.ni
  init_matched : InitMatched ledgerEntryKey s.oi s.ni
  below : Below (BucketEntry.key ledgerEntryKey) s.out.getBucket (s.oi ++ s.ni)

variable {ledgerEntryKey}

namespace LoopInv

variable {oe ne : BucketEntry K E} {oi ni : List (BucketEntry K E)}

theorem below_old (h : LoopInv ledgerEntryKey protocolVersion ⟨oe :: oi, ni, out⟩) :
    ∀ x ∈ out.getBucket, x.key ledgerEntryKey < oe.key ledgerEntryKey :=
  fun x hx => h.below x hx oe (by simp)

theorem below_new (h : LoopInv ledgerEntryKey protocolVersion ⟨oi, ne :: ni, out⟩) :
    ∀ x ∈ out.getBucket, x.key ledgerEntryKey < ne.key ledgerEntryKey :=
  fun x hx => h.below x hx ne (by simp)

theorem below_pushAll {es l : List (BucketEntry K E)} (hout : Below (BucketEntry.key ledgerEntryKey) out.getBucket l)
    (hes : Below (BucketEntry.key ledgerEntryKey) es l) :
    Below (BucketEntry.key ledgerEntryKey) (out.pushAll es).getBucket l := by
  rw [BucketOutputIterator.getBucket_pushAll, below_append_left]
  exact ⟨hout, hes.mono (fun x hx => (List.mem_filter.mp hx).1) (List.Subset.refl l)⟩

theorem take_old (h : LoopInv ledgerEntryKey protocolVersion ⟨oe :: oi, ni, out⟩)
    (hlt : ∀ y ∈ ni, oe.key ledgerEntryKey < y.key ledgerEntryKey) :
    LoopInv ledgerEntryKey protocolVersion ⟨oi, ni, out.push oe⟩ where
  version := h.version
  out_version := by simpa using h.out_version
  sorted_oi := h.sorted_oi.of_cons
  sorted_ni := h.sorted_ni
  init_matched := h.init_matched.mono (List.subset_cons_self oe oi) (List.Subset.refl ni)
  below := by
    have hhead : Below (BucketEntry.key ledgerEntryKey) [oe] (oi ++ ni) := by
      intro a ha b hb
      rw [List.mem_singleton.mp ha]
      rcases List.mem_append.mp hb with hb | hb
      · exact h.sorted_oi.lt_of_cons hb
      · exact hlt b hb
    exact below_pushAll (h.below.mono (List.Subset.refl _) (List.subset_cons_self oe (oi ++ ni))) hhead

theorem take_new (h : LoopInv ledgerEntryKey protocolVersion ⟨oi, ne :: ni, out⟩)
    (hlt : ∀ y ∈ oi, ne.key ledgerEntryKey < y.key ledgerEntryKey) :
    LoopInv ledgerEntryKey protocolVersion ⟨oi, ni, out.push ne⟩ where
  version := h.version
  out_version := by simpa using h.out_version
  sorted_oi := h.sorted_oi
  sorted_ni := h.sorted_ni.of_cons
  init_matched := h.init_matched.mono (List.Subset.refl oi) (List.subset_cons_self ne ni)
  below := by
    have hhead : Below (BucketEntry.key ledgerEntryKey) [ne] (oi ++ ni) := by
      intro a ha b hb
      rw [List.mem_singleton.mp ha]
      rcases List.mem_append.mp hb with hb | hb
      · exact hlt b hb
      · exact h.sorted_ni.lt_of_cons hb
    have hsub : oi ++ ni ⊆ oi ++ ne :: ni := by
      intro x hx
      simp only [List.mem_append, List.mem_cons] at hx ⊢
      exact hx.imp_right Or.inr
    exact below_pushAll (h.below.mono (List.Subset.refl _) hsub) hhead

theorem take_equal (h : LoopInv ledgerEntryKey protocolVersion ⟨oe :: oi, ne :: ni, out⟩)
    (hkey : oe.key ledgerEntryKey = ne.key ledgerEntryKey) :
    LoopInv ledgerEntryKey protocolVersion ⟨oi, ni, out.pushAll (lifecycleMerge oe ne).toList⟩ where
  version := h.version
  out_version := by simpa using h.out_version
  sorted_oi := h.sorted_oi.of_cons
  sorted_ni := h.sorted_ni.of_cons
  init_matched := h.init_matched.mono (List.subset_cons_self oe oi) (List.subset_cons_self ne ni)
  below := by
    -- the entry kept has the key of both heads, below both tails
    have hkept : Below (BucketEntry.key ledgerEntryKey) (lifecycleMerge oe ne).toList (oi ++ ni) := by
      intro c hc b hb
      rw [lifecycleMerge_keepsKey ledgerEntryKey oe ne c (Option.mem_toList.mp hc)]
      rcases List.mem_append.mp hb with hb | hb
      · exact hkey ▸ h.sorted_oi.lt_of_cons hb
      · exact h.sorted_ni.lt_of_cons hb
    have hsub : oi ++ ni ⊆ oe :: oi ++ ne :: ni := by
      intro x hx
      simp only [List.cons_append, List.mem_append, List.mem_cons] at hx ⊢
      exact .inr (hx.imp_right Or.inr)
    exact below_pushAll (h.below.mono (List.Subset.refl _) hsub) hkept

end LoopInv

section Loop

variable {oe ne : BucketEntry K E} {oi ni : List (BucketEntry K E)}

theorem mergeStep_old (h : LoopInv ledgerEntryKey protocolVersion ⟨oe :: oi, ni, out⟩)
    (hlt : ∀ y ∈ ni.head?, oe.key ledgerEntryKey < y.key ledgerEntryKey) :
    mergeStep ledgerEntryKey protocolVersion ⟨oe :: oi, ni, out⟩ = .ok ⟨oi, ni, out.push oe⟩ := by
  have hacc := acceptEntry_eq oe h.version h.out_version h.below_old
  cases ni with
  | nil => simp [mergeStep, mergeCasesWithDefaultAcceptance, hacc]
  | cons ne ni =>
    have hne : oe.key ledgerEntryKey < ne.key ledgerEntryKey := hlt ne rfl
    simp [mergeStep, mergeCasesWithDefaultAcceptance, hne, hacc]

theorem mergeStep_new (h : LoopInv ledgerEntryKey protocolVersion ⟨oi, ne :: ni, out⟩)
    (hlt : ∀ y ∈ oi.head?, ne.key ledgerEntryKey < y.key ledgerEntryKey) :
    mergeStep ledgerEntryKey protocolVersion ⟨oi, ne :: ni, out⟩ = .ok ⟨oi, ni, out.push ne⟩ := by
  have hacc := acceptEntry_eq ne h.version h.out_version h.below_new
  cases oi with
  | nil => simp [mergeStep, mergeCasesWithDefaultAcceptance, hacc]
  | cons oe oi =>
    have hne : ne.key ledgerEntryKey < oe.key ledgerEntryKey := hlt oe rfl
    simp [mergeStep, mergeCasesWithDefaultAcceptance, not_lt.mpr hne.le, hne, hacc]

theorem mergeStep_equal (h : LoopInv ledgerEntryKey protocolVersion ⟨oe :: oi, ne :: ni, out⟩)
    (hkey : oe.key ledgerEntryKey = ne.key ledgerEntryKey) :
    mergeStep ledgerEntryKey protocolVersion ⟨oe :: oi, ne :: ni, out⟩ =
      .ok ⟨oi, ni, out.pushAll (lifecycleMerge oe ne).toList⟩ := by
  have hmatch : ne.type = .initEntry → oe.type = .deadEntry :=
    fun hinit => h.init_matched ne List.mem_cons_self hinit oe List.mem_cons_self hkey
  simp [mergeStep, mergeCasesWithDefaultAcceptance, hkey,
    mergeCasesWithEqualKeys_eq oe ne h.version h.out_version h.below_new hmatch]

theorem mergeLoop_done (s : MergeState K E) (hs : s.oi = [] ∧ s.ni = []) :
    mergeLoop ledgerEntryKey protocolVersion s = .ok s.out := by
  rw [mergeLoop, dif_pos hs]
  rfl

theorem mergeLoop_of_step {s s' : MergeState K E} (hs : ¬(s.oi = [] ∧ s.ni = []))
    (h : mergeStep ledgerEntryKey protocolVersion s = .ok s') :
    mergeLoop ledgerEntryKey protocolVersion s = mergeLoop ledgerEntryKey protocolVersion s' := by
  rw [mergeLoop, dif_neg hs]
  split
  · next heq =>
    rw [h] at heq
    cases heq
    rfl
  · next heq =>
    rw [h] at heq
    cases heq

theorem mergeLoop_eq (h : LoopInv ledgerEntryKey protocolVersion ⟨oi, ni, out⟩) :
    mergeLoop ledgerEntryKey protocolVersion ⟨oi, ni, out⟩ =
      .ok (out.pushAll (mergeWith (BucketEntry.key ledgerEntryKey) lifecycleMerge oi ni)) := by
  induction oi, ni using mergeWith.induct (BucketEntry.key ledgerEntryKey) generalizing out with
  | case1 =>
    rw [mergeLoop_done _ ⟨rfl, rfl⟩, mergeWith]
    rfl
  | case2 oe oi ih =>
    rw [mergeLoop_of_step (by simp) (mergeStep_old h (by simp)), ih (h.take_old (by simp)), mergeWith]
    rfl
  | case3 ne ni ih =>
    rw [mergeLoop_of_step (by simp) (mergeStep_new h (by simp)), ih (h.take_new (by simp)), mergeWith]
    rfl
  | case4 oe oi ne ni hlt ih =>
    rw [mergeLoop_of_step (by simp) (mergeStep_old h (by simpa using hlt)),
      ih (h.take_old fun y hy => lt_of_lt_of_le hlt (h.sorted_ni.le_of_cons hy)), mergeWith, if_pos hlt]
    rfl
  | case5 oe oi ne ni hnlt hlt ih =>
    rw [mergeLoop_of_step (by simp) (mergeStep_new h (by simpa using hlt)),
      ih (h.take_new fun y hy => lt_of_lt_of_le hlt (h.sorted_oi.le_of_cons hy)), mergeWith, if_neg hnlt, if_pos hlt]
    rfl
  | case6 oe oi ne ni hnlt hngt ih =>
    have hkey := le_antisymm (not_lt.mp hngt) (not_lt.mp hnlt)
    rw [mergeLoop_of_step (by simp) (mergeStep_equal h hkey), ih (h.take_equal hkey), mergeWith, if_neg hnlt,
      if_neg hngt, BucketOutputIterator.pushAll_append]

end Loop

section Merge

variable {maxProtocolVersion : ℕ} {oldBucket newBucket : Bucket K E} {keepDeadEntries : Bool}

theorem Bucket.merge_eq (hold : Sorted (BucketEntry.key ledgerEntryKey) oldBucket.entries)
    (hnew : Sorted (BucketEntry.key ledgerEntryKey) newBucket.entries)
    (hmatch : InitMatched ledgerEntryKey oldBucket.entries newBucket.entries)
    (hpv : firstProtocolSupportingInitEntryAndMetaEntry ≤ max oldBucket.ledgerVersion newBucket.ledgerVersion)
    (hmax : max oldBucket.ledgerVersion newBucket.ledgerVersion ≤ maxProtocolVersion) :
    Bucket.merge ledgerEntryKey maxProtocolVersion oldBucket newBucket keepDeadEntries =
      .ok ⟨max oldBucket.ledgerVersion newBucket.ledgerVersion,
        (mergeWith (BucketEntry.key ledgerEntryKey) lifecycleMerge oldBucket.entries newBucket.entries).filter
          (BucketEntry.isKept keepDeadEntries)⟩ := by
  have hcalc : calculateMergeProtocolVersion maxProtocolVersion oldBucket newBucket =
      .ok (max oldBucket.ledgerVersion newBucket.ledgerVersion) := by
    rw [calculateMergeProtocolVersion, if_neg (Nat.not_lt.mpr hmax)]
    rfl
  have hinv : LoopInv ledgerEntryKey (max oldBucket.ledgerVersion newBucket.ledgerVersion)
      ⟨oldBucket.entries, newBucket.entries, ⟨keepDeadEntries, max oldBucket.ledgerVersion newBucket.ledgerVersion, none, []⟩⟩ :=
    ⟨hpv, rfl, hold, hnew, hmatch, by simp [Below, BucketOutputIterator.getBucket]⟩
  rw [Bucket.merge, hcalc, Except.ok_bind, mergeLoop_eq hinv, Except.ok_bind, if_neg (Nat.not_lt.mpr hpv),
    BucketOutputIterator.getBucket_pushAll]
  simp [BucketOutputIterator.getBucket]

theorem Bucket.merge_error (hold : Sorted (BucketEntry.key ledgerEntryKey) oldBucket.entries)
    (hnew : Sorted (BucketEntry.key ledgerEntryKey) newBucket.entries)
    (hmatch : InitMatched ledgerEntryKey oldBucket.entries newBucket.entries)
    (hpv : firstProtocolSupportingInitEntryAndMetaEntry ≤ max oldBucket.ledgerVersion newBucket.ledgerVersion)
    {msg : String} (h : Bucket.merge ledgerEntryKey maxProtocolVersion oldBucket newBucket keepDeadEntries = .error msg) :
    calculateMergeProtocolVersion maxProtocolVersion oldBucket newBucket = .error msg := by
  by_cases hmax : max oldBucket.ledgerVersion newBucket.ledgerVersion ≤ maxProtocolVersion
  · rw [Bucket.merge_eq hold hnew hmatch hpv hmax] at h
    cases h
  · rw [Bucket.merge, calculateMergeProtocolVersion, if_pos (Nat.lt_of_not_le hmax), Except.throw_bind] at h
    rw [calculateMergeProtocolVersion, if_pos (Nat.lt_of_not_le hmax)]
    injection h with h
    rw [← h]
    rfl

end Merge

end Refinement

end HcnetCore.Bucket
