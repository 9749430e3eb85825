import HcnetCore.Scp.LocalNode
import HcnetCore.Scp.QuorumSetUtils
import HcnetCore.Library.Prune
import HcnetCore.Library.ExceptInvariant
import Mathlib

/-! # What the quorum tests compute

`isQuorumSlice` counts the validators in the node set and the inner sets it satisfies, and
holds once the count reaches the threshold; `isVBlocking` counts the entries the node set
blocks, against `1 + entries - threshold`. Through these counts a larger node set satisfies
more, `isQuorum` ends at the greatest quorum inside the nodes it starts from, and for a sane
quorum set a node set is v-blocking exactly when it meets every slice.
-/

namespace HcnetCore.Scp

set_option autoImplicit false

variable {N : Type} [DecidableEq N]

theorem count_true_map {α : Type} (f : α → Bool) (l : List α) : (l.map f).count true = l.countP f := by
  rw [List.count_eq_countP, List.countP_map]
  congr 1
  funext x
  simp

theorem countP_add_countP_le {α : Type} (p q : α → Bool) (l : List α) :
    l.countP p + l.countP q ≤ l.length + l.countP (fun x => p x && q x) := by
  induction l with
  | nil => simp
  | cons x l ih =>
    simp only [List.countP_cons, List.length_cons]
    cases p x <;> cases q x <;> simp <;> omega

theorem countP_not_add_countP {α : Type} (p : α → Bool) (l : List α) :
    l.countP (fun x => !p x) + l.countP p = l.length := by
  induction l with
  | nil => rfl
  | cons x l ih =>
    simp only [List.countP_cons, List.length_cons]
    cases p x <;> simp <;> omega

/-! ## The countdown of `isQuorumSliceInternal` -/

/-- How many hits the `uint32` countdown takes to reach zero: `left`, and `2 ^ 32` from zero,
where the first decrement wraps. -/
def hitsToZero (left : uint32) : ℕ := if left.val = 0 then 2 ^ 32 else left.val

theorem hitsToZero_pos (left : uint32) : 0 < hitsToZero left := by
  unfold hitsToZero
  split_ifs <;> omega

theorem hitsToZero_of_pos {left : uint32} (h : 0 < left.val) : hitsToZero left = left.val := by
  simp [hitsToZero, Nat.pos_iff_ne_zero.mp h]

theorem hitsToZero_sub_one {left : uint32} (h : left - 1 ≠ 0) : hitsToZero (left - 1) + 1 = hitsToZero left := by
  have hne : (left - 1).val ≠ 0 := fun h' => h (Fin.ext h')
  have hv : (left - 1).val = (2 ^ 32 - 1 + left.val) % 2 ^ 32 := by simp [Fin.sub_def]
  have hl := left.isLt
  unfold hitsToZero
  split_ifs <;> omega

theorem thresholdCountdown_eq_none_iff (left : uint32) (found : List Bool) :
    thresholdCountdown left found = none ↔ hitsToZero left ≤ found.count true := by
  induction found generalizing left with
  | nil =>
    simp only [thresholdCountdown, reduceCtorEq, List.count_nil, Nat.le_zero, false_iff]
    exact (hitsToZero_pos left).ne'
  | cons b rest ih =>
    cases b with
    | false => simp [thresholdCountdown, ih]
    | true =>
      rw [thresholdCountdown, if_pos rfl, List.count_cons_self]
      split_ifs with h0
      · -- the last hit: `left` was one
        have hone : hitsToZero left = 1 := by
          have hv : (left - 1).val = (2 ^ 32 - 1 + left.val) % 2 ^ 32 := by simp [Fin.sub_def]
          have hl := left.isLt
          rw [h0] at hv
          unfold hitsToZero
          split_ifs <;> simp at hv <;> omega
        simp only [true_iff]
        omega
      · rw [ih, ← hitsToZero_sub_one h0]
        omega

theorem thresholdCountdown_append (left : uint32) (found more : List Bool) :
    thresholdCountdown left (found ++ more) = (thresholdCountdown left found).bind (thresholdCountdown · more) := by
  induction found generalizing left with
  | nil => rfl
  | cons b rest ih =>
    cases b with
    | false => simp [thresholdCountdown, ih]
    | true =>
      rw [List.cons_append, thresholdCountdown, if_pos rfl, thresholdCountdown, if_pos rfl]
      split_ifs
      · rfl
      · exact ih _

theorem innerSlicesReach_eq (innerSets : List (SCPQuorumSet N)) (nodeSet : List N) (left : uint32) :
    innerSlicesReach innerSets nodeSet left =
      (thresholdCountdown left (innerSets.map fun inner => isQuorumSliceInternal inner nodeSet)).isNone := by
  induction innerSets generalizing left with
  | nil => rfl
  | cons inner rest ih =>
    rw [innerSlicesReach, List.map_cons, thresholdCountdown]
    split_ifs <;> simp [ih]

theorem isQuorumSliceInternal_iff (threshold : uint32) (validators : List N)
    (innerSets : List (SCPQuorumSet N)) (nodeSet : List N) :
    isQuorumSliceInternal ⟨threshold, validators, innerSets⟩ nodeSet = true ↔
      hitsToZero threshold ≤
        validators.countP (fun v => decide (v ∈ nodeSet)) +
          innerSets.countP (fun inner => isQuorumSliceInternal inner nodeSet) := by
  have hsplit : isQuorumSliceInternal ⟨threshold, validators, innerSets⟩ nodeSet =
      (thresholdCountdown threshold (validators.map (fun v => decide (v ∈ nodeSet)) ++
        innerSets.map fun inner => isQuorumSliceInternal inner nodeSet)).isNone := by
    rw [isQuorumSliceInternal, thresholdCountdown_append]
    cases thresholdCountdown threshold (validators.map fun v => decide (v ∈ nodeSet)) with
    | none => rfl
    | some left => exact innerSlicesReach_eq innerSets nodeSet left
  rw [hsplit, Option.isNone_iff_eq_none, thresholdCountdown_eq_none_iff, List.count_append, count_true_map,
    count_true_map]

theorem isQuorumSliceInternal_mono {nodeSet nodeSet' : List N} (hsub : nodeSet ⊆ nodeSet')
    (qSet : SCPQuorumSet N) : isQuorumSliceInternal qSet nodeSet = true → isQuorumSliceInternal qSet nodeSet' = true := by
  induction qSet with
  | mk threshold validators innerSets ih =>
    rw [isQuorumSliceInternal_iff, isQuorumSliceInternal_iff]
    have hv : validators.countP (fun v => decide (v ∈ nodeSet)) ≤ validators.countP (fun v => decide (v ∈ nodeSet')) :=
      List.countP_mono_left fun v _ hv => by simpa using hsub (by simpa using hv)
    have hi : innerSets.countP (fun inner => isQuorumSliceInternal inner nodeSet) ≤
        innerSets.countP (fun inner => isQuorumSliceInternal inner nodeSet') :=
      List.countP_mono_left fun inner hinner => ih inner hinner
    omega

/-! ## `isQuorum` -/

/-- The `quorumFilter` of `isQuorum`: a node stays when its statement gives a quorum set and
the nodes left satisfy it. -/
def quorumFilter (qsetOf : N → Option (SCPQuorumSet N)) (pNodes : List N) (nodeID : N) : Bool :=
  match qsetOf nodeID with
  | some q => isQuorumSlice q pNodes
  | none => false

theorem quorumFilter_eq_true {qsetOf : N → Option (SCPQuorumSet N)} {pNodes : List N} {nodeID : N} :
    quorumFilter qsetOf pNodes nodeID = true ↔ ∃ q, qsetOf nodeID = some q ∧ isQuorumSlice q pNodes = true := by
  unfold quorumFilter
  cases qsetOf nodeID <;> simp

theorem quorumFilter_monotone (qsetOf : N → Option (SCPQuorumSet N)) : Prune.Monotone (quorumFilter qsetOf) := by
  intro P Q x hPQ hx
  obtain ⟨q, hq, hslice⟩ := quorumFilter_eq_true.mp hx
  exact quorumFilter_eq_true.mpr ⟨q, hq, isQuorumSliceInternal_mono hPQ q hslice⟩

theorem quorumRounds_eq_rounds (qsetOf : N → Option (SCPQuorumSet N)) (fuel : ℕ) (pNodes : List N) :
    quorumRounds qsetOf fuel pNodes = Prune.rounds (quorumFilter qsetOf) fuel pNodes := by
  induction fuel generalizing pNodes with
  | zero => rfl
  | succ fuel ih =>
    rw [quorumRounds, Prune.rounds, ← ih]
    rfl

/-- `isQuorum` holds exactly when some set of nodes passing the filter satisfies the local
quorum set and the quorum set of each of its members; its pruning loop stops by its own
test, at a set that one more round leaves whole. -/
theorem isQuorum_iff_exists_quorum (qSet : SCPQuorumSet N) (nodes : List N)
    (qsetOf : N → Option (SCPQuorumSet N)) (filter : N → Bool) :
    (isQuorum qSet nodes qsetOf filter = true ↔
      ∃ U : List N, (∀ n ∈ U, n ∈ nodes ∧ filter n = true) ∧ isQuorumSlice qSet U = true ∧
        ∀ n ∈ U, ∃ q, qsetOf n = some q ∧ isQuorumSlice q U = true) ∧
    (let pNodes := nodes.filter filter
     let fixedPoint := quorumRounds qsetOf (pNodes.length + 1) pNodes
     fixedPoint.filter (quorumFilter qsetOf fixedPoint) = fixedPoint) := by
  set pNodes := nodes.filter filter with hpNodes
  have hR : quorumRounds qsetOf (pNodes.length + 1) pNodes =
      Prune.rounds (quorumFilter qsetOf) (pNodes.length + 1) pNodes :=
    quorumRounds_eq_rounds qsetOf _ pNodes
  have hclosed : Prune.Closed (quorumFilter qsetOf) (Prune.rounds (quorumFilter qsetOf) (pNodes.length + 1) pNodes) :=
    Prune.closed_rounds (Nat.lt_succ_self _)
  have hsub : Prune.rounds (quorumFilter qsetOf) (pNodes.length + 1) pNodes ⊆ pNodes :=
    (Prune.rounds_sublist _ _).subset
  have hunfold : isQuorum qSet nodes qsetOf filter = isQuorumSlice qSet (quorumRounds qsetOf (pNodes.length + 1) pNodes) :=
    rfl
  refine ⟨⟨fun h => ?_, fun ⟨U, hU, hslice, hquorum⟩ => ?_⟩, ?_⟩
  · -- the nodes the rounds leave are such a quorum
    rw [hunfold, hR] at h
    refine ⟨_, fun n hn => ?_, h, fun n hn => quorumFilter_eq_true.mp (hclosed n hn)⟩
    simpa [hpNodes] using hsub hn
  · -- every such quorum survives the rounds
    have hUclosed : Prune.Closed (quorumFilter qsetOf) U := fun n hn => quorumFilter_eq_true.mpr (hquorum n hn)
    have hUsub : U ⊆ pNodes := fun n hn => List.mem_filter.mpr (hU n hn)
    have hUR := Prune.subset_rounds (quorumFilter_monotone qsetOf) hUclosed (pNodes.length + 1) hUsub
    rw [hunfold, hR]
    exact isQuorumSliceInternal_mono hUR qSet hslice
  · show Prune.round (quorumFilter qsetOf) _ = _
    rw [hR]
    exact Prune.round_rounds (Nat.lt_succ_self _)

/-! ## The countdown of `isVBlockingInternal` -/

theorem blockCountdown_eq_none_iff (left : ℤ) (found : List Bool) :
    blockCountdown left found = none ↔ max left 1 ≤ (found.count true : ℤ) := by
  induction found generalizing left with
  | nil =>
    simp only [blockCountdown, reduceCtorEq, List.count_nil, false_iff]
    omega
  | cons b rest ih =>
    cases b with
    | false => simp [blockCountdown, ih]
    | true =>
      rw [blockCountdown, if_pos rfl, List.count_cons_self]
      split_ifs with h0
      · simp only [true_iff]
        omega
      · rw [ih]
        omega

theorem blockCountdown_append (left : ℤ) (found more : List Bool) :
    blockCountdown left (found ++ more) = (blockCountdown left found).bind (blockCountdown · more) := by
  induction found generalizing left with
  | nil => rfl
  | cons b rest ih =>
    cases b with
    | false => simp [blockCountdown, ih]
    | true =>
      rw [List.cons_append, blockCountdown, if_pos rfl, blockCountdown, if_pos rfl]
      split_ifs
      · rfl
      · exact ih _

theorem innerBlocks_eq (innerSets : List (SCPQuorumSet N)) (nodeSet : List N) (left : ℤ) :
    innerBlocks innerSets nodeSet left =
      (blockCountdown left (innerSets.map fun inner => isVBlockingInternal inner nodeSet)).isNone := by
  induction innerSets generalizing left with
  | nil => rfl
  | cons inner rest ih =>
    rw [innerBlocks, List.map_cons, blockCountdown]
    split_ifs <;> simp [ih]

theorem isVBlockingInternal_iff (threshold : uint32) (validators : List N)
    (innerSets : List (SCPQuorumSet N)) (nodeSet : List N) :
    isVBlockingInternal ⟨threshold, validators, innerSets⟩ nodeSet = true ↔
      threshold ≠ 0 ∧
        max (sizeToInt ((1 + validators.length + innerSets.length + 2 ^ 64 - threshold.val) % 2 ^ 64)) 1 ≤
          ((validators.countP (fun v => decide (v ∈ nodeSet)) +
            innerSets.countP (fun inner => isVBlockingInternal inner nodeSet) : ℕ) : ℤ) := by
  rw [isVBlockingInternal]
  split_ifs with h0
  · simp [h0]
  · simp only [ne_eq, h0, not_false_eq_true, true_and]
    generalize sizeToInt ((1 + validators.length + innerSets.length + 2 ^ 64 - threshold.val) % 2 ^ 64) = leftTillBlock
    rw [← count_true_map, ← count_true_map, ← List.count_append, ← blockCountdown_eq_none_iff,
      blockCountdown_append]
    -- the loop over the inner sets continues the countdown of the validators
    cases blockCountdown leftTillBlock (validators.map fun v => decide (v ∈ nodeSet)) with
    | none => simp
    | some left => simp [innerBlocks_eq]

/-! ## Sane quorum sets -/

mutual

/-- The nodes a quorum set names, at every level, in the order `checkSanity` meets them. -/
def allNodes : SCPQuorumSet N → List N
  | ⟨_, validators, innerSets⟩ => validators ++ innerNodes innerSets

def innerNodes : List (SCPQuorumSet N) → List N
  | [] => []
  | inner :: rest => allNodes inner ++ innerNodes rest

end

/-- Every level has a threshold between one and its number of entries, as `checkSanity`
requires. -/
inductive ThresholdsInRange : SCPQuorumSet N → Prop
  | mk {threshold : uint32} {validators : List N} {innerSets : List (SCPQuorumSet N)} :
    0 < threshold.val → threshold.val ≤ validators.length + innerSets.length →
    (∀ inner ∈ innerSets, ThresholdsInRange inner) → ThresholdsInRange ⟨threshold, validators, innerSets⟩

omit [DecidableEq N] in
theorem allNodes_mk (threshold : uint32) (validators : List N) (innerSets : List (SCPQuorumSet N)) :
    allNodes ⟨threshold, validators, innerSets⟩ = validators ++ innerNodes innerSets := by
  rw [allNodes]

omit [DecidableEq N] in
theorem allNodes_sublist_innerNodes {inner : SCPQuorumSet N} {innerSets : List (SCPQuorumSet N)}
    (hinner : inner ∈ innerSets) : (allNodes inner).Sublist (innerNodes innerSets) := by
  induction innerSets with
  | nil => simp at hinner
  | cons first rest ih =>
    rw [innerNodes]
    rcases List.mem_cons.mp hinner with rfl | hrest
    · exact List.sublist_append_left _ _
    · exact (ih hrest).trans (List.sublist_append_right _ _)

omit [DecidableEq N] in
theorem allNodes_sublist_of_mem {threshold : uint32} {validators : List N} {inner : SCPQuorumSet N}
    {innerSets : List (SCPQuorumSet N)} (hinner : inner ∈ innerSets) :
    (allNodes inner).Sublist (allNodes ⟨threshold, validators, innerSets⟩) := by
  rw [allNodes_mk]
  exact (allNodes_sublist_innerNodes hinner).trans (List.sublist_append_right _ _)

omit [DecidableEq N] in
theorem length_le_innerNodes {innerSets : List (SCPQuorumSet N)} (hpos : ∀ inner ∈ innerSets, 0 < (allNodes inner).length) :
    innerSets.length ≤ (innerNodes innerSets).length := by
  induction innerSets with
  | nil => simp
  | cons inner rest ih =>
    rw [innerNodes, List.length_append, List.length_cons]
    have h₁ := hpos inner List.mem_cons_self
    have h₂ := ih fun i hi => hpos i (List.mem_cons_of_mem _ hi)
    omega

omit [DecidableEq N] in
theorem entries_le_allNodes (qSet : SCPQuorumSet N) :
    ThresholdsInRange qSet → qSet.validators.length + qSet.innerSets.length ≤ (allNodes qSet).length ∧
      0 < (allNodes qSet).length := by
  induction qSet with
  | mk threshold validators innerSets ih =>
    rintro ⟨hpos, hle, hinner⟩
    have hinnerPos : ∀ inner ∈ innerSets, 0 < (allNodes inner).length := fun inner h => (ih inner h (hinner inner h)).2
    have hlen := length_le_innerNodes hinnerPos
    rw [allNodes_mk, List.length_append]
    dsimp only
    omega

/-- What a successful sanity check from `(known, count)` to `(known', count')` shows of the
nodes it met: each was counted and inserted into `mKnownNodes`, which never held one twice. -/
structure SanityTrace (nodes known : List N) (count : ℕ) (known' : List N) (count' : ℕ) : Prop where
  count_eq : count' = count + nodes.length
  known_eq : known' = nodes.reverse ++ known
  nodup : known.Nodup → known'.Nodup

omit [DecidableEq N] in
theorem SanityTrace.append {nodes more known known₁ known₂ : List N} {count count₁ count₂ : ℕ}
    (h₁ : SanityTrace nodes known count known₁ count₁) (h₂ : SanityTrace more known₁ count₁ known₂ count₂) :
    SanityTrace (nodes ++ more) known count known₂ count₂ where
  count_eq := by rw [h₂.count_eq, h₁.count_eq, List.length_append, Nat.add_assoc]
  known_eq := by rw [h₂.known_eq, h₁.known_eq, List.reverse_append, List.append_assoc]
  nodup h := h₂.nodup (h₁.nodup h)

theorem insertKnownNodes_ok {known known' validators : List N} {count : ℕ}
    (h : insertKnownNodes known validators = .ok known') :
    SanityTrace validators known count known' (count + validators.length) := by
  induction validators generalizing known count with
  | nil =>
    rw [insertKnownNodes, Except.pure_eq_ok] at h
    subst h
    exact ⟨rfl, rfl, id⟩
  | cons n rest ih =>
    by_cases hn : n ∈ known
    · rw [insertKnownNodes, if_pos hn] at h
      exact absurd h Except.throw_ne_ok
    · -- `n` is new: it goes in front of the nodes known so far
      rw [insertKnownNodes, if_neg hn] at h
      have hrest : SanityTrace rest (n :: known) (count + 1) known' (count + 1 + rest.length) := ih h
      refine ⟨by simp, by simp [hrest.known_eq], fun hnodup => ?_⟩
      exact hrest.nodup (List.nodup_cons.mpr ⟨hn, hnodup⟩)

theorem checkInnerSanity_ok {extraChecks : Bool} {innerSets : List (SCPQuorumSet N)} {depth : ℕ}
    (hinner : ∀ inner ∈ innerSets, ∀ depth known count known' count',
      checkSanity extraChecks inner depth (known, count) = .ok (known', count') →
        ThresholdsInRange inner ∧ SanityTrace (allNodes inner) known count known' count')
    {known known' : List N} {count count' : ℕ}
    (h : checkInnerSanity extraChecks innerSets depth (known, count) = .ok (known', count')) :
    (∀ inner ∈ innerSets, ThresholdsInRange inner) ∧ SanityTrace (innerNodes innerSets) known count known' count' := by
  induction innerSets generalizing known count with
  | nil =>
    rw [checkInnerSanity, Except.pure_eq_ok] at h
    obtain ⟨rfl, rfl⟩ := Prod.mk.inj h
    exact ⟨fun _ h => absurd h List.not_mem_nil, ⟨rfl, rfl, id⟩⟩
  | cons inner rest ih =>
    rw [checkInnerSanity] at h
    obtain ⟨⟨known₁, count₁⟩, h₁, h⟩ := Except.bind_eq_ok.mp h
    obtain ⟨hrange₁, htrace₁⟩ := hinner inner List.mem_cons_self _ _ _ _ _ h₁
    obtain ⟨hrange, htrace⟩ := ih (fun i hi => hinner i (List.mem_cons_of_mem _ hi)) h
    refine ⟨fun i hi => ?_, ?_⟩
    · rcases List.mem_cons.mp hi with rfl | hi
      · exact hrange₁
      · exact hrange i hi
    · rw [innerNodes]
      exact htrace₁.append htrace

theorem checkSanity_ok {extraChecks : Bool} (qSet : SCPQuorumSet N) :
    ∀ depth known count known' count', checkSanity extraChecks qSet depth (known, count) = .ok (known', count') →
      ThresholdsInRange qSet ∧ SanityTrace (allNodes qSet) known count known' count' := by
  induction qSet with
  | mk threshold validators innerSets ih =>
    intro depth known count known' count' h
    rw [checkSanity] at h
    dsimp only at h
    -- every failed check throws; what is left inserts the validators, then checks the inner sets
    split_ifs at h with hdepth hpos hle
    obtain ⟨known₁, h₁, h⟩ := Except.bind_eq_ok.mp h
    have htrace₁ : SanityTrace validators known count known₁ (count + validators.length) := insertKnownNodes_ok h₁
    obtain ⟨hrange, htrace⟩ := checkInnerSanity_ok ih h
    exact ⟨⟨by omega, by omega, hrange⟩, by rw [allNodes_mk]; exact htrace₁.append htrace⟩

/-- What `isQuorumSetSane` guarantees of every level and of the nodes. -/
structure SaneQSet (qSet : SCPQuorumSet N) : Prop where
  inRange : ThresholdsInRange qSet
  nodup : (allNodes qSet).Nodup
  nodes_le : (allNodes qSet).length ≤ 1000

theorem saneQSet_of_isQuorumSetSane {qSet : SCPQuorumSet N} {extraChecks : Bool}
    (h : isQuorumSetSane qSet extraChecks = true) : SaneQSet qSet := by
  unfold isQuorumSetSane at h
  split at h
  · rename_i hsane
    unfold quorumSetSanity at hsane
    obtain ⟨⟨known', count'⟩, hcheck, hcount⟩ := Except.bind_eq_ok.mp hsane
    obtain ⟨hrange, htrace⟩ := checkSanity_ok qSet 0 [] 0 known' count' hcheck
    have hnodup : known'.Nodup := htrace.nodup List.nodup_nil
    rw [htrace.known_eq, List.append_nil, List.nodup_reverse] at hnodup
    -- the count is all the nodes, and it passed the final bound
    have hbound : count' ≤ 1000 := by
      by_contra hgt
      simp [show 1000 < count' by omega] at hcount
    exact ⟨hrange, hnodup, by rw [htrace.count_eq] at hbound; omega⟩
  · exact absurd h Bool.false_ne_true

/-! ## v-blocking sets are the sets that meet every slice -/

theorem leftTillBlock_eq {threshold : uint32} {nValidators nInner : ℕ} (hpos : 0 < threshold.val)
    (hle : threshold.val ≤ nValidators + nInner) (hsmall : nValidators + nInner < 2 ^ 31) :
    sizeToInt ((1 + nValidators + nInner + 2 ^ 64 - threshold.val) % 2 ^ 64) =
      ((1 + nValidators + nInner - threshold.val : ℕ) : ℤ) := by
  have hwrap : (1 + nValidators + nInner + 2 ^ 64 - threshold.val) % 2 ^ 64 = 1 + nValidators + nInner - threshold.val := by
    omega
  rw [hwrap, sizeToInt, Nat.mod_eq_of_lt (by omega)]
  omega

theorem isQuorumSliceInternal_eq_false_of_vBlocking {nodeSet T : List N} (hT : ∀ x ∈ T, x ∉ nodeSet)
    (qSet : SCPQuorumSet N) : ThresholdsInRange qSet → (allNodes qSet).length < 2 ^ 31 →
      isVBlockingInternal qSet nodeSet = true → isQuorumSliceInternal qSet T = false := by
  induction qSet with
  | mk threshold validators innerSets ih =>
    intro hrange hsmall hblock
    have hentries := (entries_le_allNodes _ hrange).1
    obtain ⟨hpos, hle, hinner⟩ := hrange
    dsimp only at hentries
    rw [isVBlockingInternal_iff, leftTillBlock_eq hpos hle (by omega)] at hblock
    -- no validator is both in the node set and in `T`, and no inner set both blocked and satisfied
    have hv : validators.countP (fun v => decide (v ∈ nodeSet) && decide (v ∈ T)) = 0 := by
      refine List.countP_eq_zero.mpr fun v _ h => ?_
      simp only [Bool.and_eq_true, decide_eq_true_eq] at h
      exact hT v h.2 h.1
    have hi : innerSets.countP (fun inner => isVBlockingInternal inner nodeSet && isQuorumSliceInternal inner T) = 0 := by
      refine List.countP_eq_zero.mpr fun inner hin h => ?_
      have hsub : (allNodes inner).length ≤ (allNodes ⟨threshold, validators, innerSets⟩).length :=
        (allNodes_sublist_of_mem hin).length_le
      rw [Bool.and_eq_true] at h
      have hfalse := ih inner hin (hinner inner hin) (by omega) h.1
      rw [hfalse] at h
      exact Bool.false_ne_true h.2
    have hcv := countP_add_countP_le (fun v => decide (v ∈ nodeSet)) (fun v => decide (v ∈ T)) validators
    have hci := countP_add_countP_le (fun inner => isVBlockingInternal inner nodeSet)
      (fun inner => isQuorumSliceInternal inner T) innerSets
    rw [Bool.eq_false_iff]
    intro hslice
    rw [isQuorumSliceInternal_iff, hitsToZero_of_pos hpos] at hslice
    omega

theorem isQuorumSliceInternal_of_not_vBlocking {nodeSet T : List N} (qSet : SCPQuorumSet N) :
    ThresholdsInRange qSet → (allNodes qSet).length < 2 ^ 31 → (∀ x ∈ allNodes qSet, x ∉ nodeSet → x ∈ T) →
      isVBlockingInternal qSet nodeSet = false → isQuorumSliceInternal qSet T = true := by
  induction qSet with
  | mk threshold validators innerSets ih =>
    intro hrange hsmall hT hblock
    have hentries := (entries_le_allNodes _ hrange).1
    obtain ⟨hpos, hle, hinner⟩ := hrange
    dsimp only at hentries
    rw [Bool.eq_false_iff, ne_eq, isVBlockingInternal_iff, leftTillBlock_eq hpos hle (by omega)] at hblock
    -- the validators outside the node set are in `T`, and `T` satisfies the inner sets not blocked
    have hv : validators.countP (fun v => !decide (v ∈ nodeSet)) ≤ validators.countP (fun v => decide (v ∈ T)) := by
      refine List.countP_mono_left fun v hv h => ?_
      simp only [Bool.not_eq_true', decide_eq_false_iff_not, decide_eq_true_eq] at h ⊢
      exact hT v (by rw [allNodes_mk]; exact List.mem_append_left _ hv) h
    have hi : innerSets.countP (fun inner => !isVBlockingInternal inner nodeSet) ≤
        innerSets.countP (fun inner => isQuorumSliceInternal inner T) := by
      refine List.countP_mono_left fun inner hin h => ?_
      have hsub : (allNodes inner).Sublist (allNodes ⟨threshold, validators, innerSets⟩) := allNodes_sublist_of_mem hin
      exact ih inner hin (hinner inner hin) (by have := hsub.length_le; omega)
        (fun x hx hxS => hT x (hsub.subset hx) hxS) (by simpa using h)
    have hcv := countP_not_add_countP (fun v => decide (v ∈ nodeSet)) validators
    have hci := countP_not_add_countP (fun inner => isVBlockingInternal inner nodeSet) innerSets
    rw [isQuorumSliceInternal_iff, hitsToZero_of_pos hpos]
    have hthreshold : threshold ≠ 0 := fun h => by simp [h] at hpos
    have hcount := not_and.mp hblock hthreshold
    omega

/-- For a sane quorum set, a node set is v-blocking exactly when it meets every slice; that is,
exactly when the quorum set's nodes outside it are not a slice. -/
theorem isVBlocking_iff_meets_every_slice (qSet : SCPQuorumSet N) (hsane : isQuorumSetSane qSet false = true)
    (nodeSet : List N) :
    (isVBlocking qSet nodeSet = true ↔ ∀ T : List N, isQuorumSlice qSet T = true → ∃ x ∈ T, x ∈ nodeSet) ∧
      isVBlocking qSet nodeSet = !isQuorumSlice qSet ((allNodes qSet).filter fun x => x ∉ nodeSet) := by
  obtain ⟨hrange, -, hle⟩ := saneQSet_of_isQuorumSetSane hsane
  have hsmall : (allNodes qSet).length < 2 ^ 31 := by omega
  have hcompl : ∀ x ∈ allNodes qSet, x ∉ nodeSet → x ∈ (allNodes qSet).filter fun x => x ∉ nodeSet :=
    fun x hx hxS => List.mem_filter.mpr ⟨hx, by simpa using hxS⟩
  have hdisjoint : ∀ x ∈ (allNodes qSet).filter (fun x => x ∉ nodeSet), x ∉ nodeSet :=
    fun x hx => by simpa using (List.mem_filter.mp hx).2
  cases hblock : isVBlocking qSet nodeSet with
  | true =>
    refine ⟨iff_of_true rfl fun T hslice => ?_, ?_⟩
    · -- a slice outside the node set would contradict the counting
      by_contra hmeet
      have hout : ∀ x ∈ T, x ∉ nodeSet := fun x hx hxS => hmeet ⟨x, hx, hxS⟩
      have hnot := isQuorumSliceInternal_eq_false_of_vBlocking hout qSet hrange hsmall hblock
      exact Bool.false_ne_true (hnot.symm.trans hslice)
    · rw [isQuorumSlice, isQuorumSliceInternal_eq_false_of_vBlocking hdisjoint qSet hrange hsmall hblock]
      rfl
  | false =>
    have hslice := isQuorumSliceInternal_of_not_vBlocking qSet hrange hsmall hcompl hblock
    refine ⟨?_, by rw [isQuorumSlice, hslice]; rfl⟩
    -- the nodes outside the node set are a slice that misses it
    simp only [Bool.false_eq_true, false_iff, not_forall]
    exact ⟨_, hslice, fun ⟨x, hx, hxS⟩ => hdisjoint x hx hxS⟩

def nestedQSet : SCPQuorumSet ℕ := ⟨2, [0], [⟨1, [1, 2], []⟩]⟩

theorem isVBlocking_iff_meets_every_slice_nested :
    isQuorumSetSane nestedQSet false = true ∧
      ((isVBlocking nestedQSet [0] = true ↔
          ∀ T : List ℕ, isQuorumSlice nestedQSet T = true → ∃ x ∈ T, x ∈ [0]) ∧
        isVBlocking nestedQSet [0] = !isQuorumSlice nestedQSet ((allNodes nestedQSet).filter fun x => x ∉ [0])) :=
  ⟨by decide, isVBlocking_iff_meets_every_slice nestedQSet (by decide) [0]⟩

end HcnetCore.Scp
