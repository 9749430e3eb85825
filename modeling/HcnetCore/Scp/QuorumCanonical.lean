import HcnetCore.Scp.QuorumNormalize

/-! # Normalized quorum sets are canonical

`normalizeQSet` can be computed bottom-up from the normalized inner sets
(`normalizeQSet_mk`): an inner set is merged or kept according to its normal form, and the
reorder pass sorts both lists, by comparisons that are lawful. So normalizing twice changes
nothing, and every reordering of the validators and the inner sets, at any depth, normalizes
to the same set.
-/

namespace HcnetCore.Scp

set_option autoImplicit false

open ThreeWay

variable {N : Type}

/-- One reordering: permute the validators or the inner sets of a set, or reorder one of its
inner sets. -/
inductive ReorderStep : SCPQuorumSet N → SCPQuorumSet N → Prop
  | validators {threshold : uint32} {validators validators' : List N} {innerSets : List (SCPQuorumSet N)}
      (h : validators.Perm validators') :
      ReorderStep ⟨threshold, validators, innerSets⟩ ⟨threshold, validators', innerSets⟩
  | innerSets {threshold : uint32} {validators : List N} {innerSets innerSets' : List (SCPQuorumSet N)}
      (h : innerSets.Perm innerSets') :
      ReorderStep ⟨threshold, validators, innerSets⟩ ⟨threshold, validators, innerSets'⟩
  | inner {threshold : uint32} {validators : List N} {pre post : List (SCPQuorumSet N)}
      {inner inner' : SCPQuorumSet N} (h : ReorderStep inner inner') :
      ReorderStep ⟨threshold, validators, pre ++ inner :: post⟩ ⟨threshold, validators, pre ++ inner' :: post⟩

theorem insertionSort_eq_singleton_iff {α : Type} {r : α → α → Prop} [DecidableRel r] {l : List α} {x : α} :
    l.insertionSort r = [x] ↔ l = [x] := by
  constructor
  · intro h
    have hperm := List.perm_insertionSort r l
    rw [h] at hperm
    exact hperm.symm.eq_singleton
  · rintro rfl
    rfl

theorem collapseSingleInnerSet_one (k : SCPQuorumSet N) : collapseSingleInnerSet 1 [] [k] = k := rfl

theorem collapseSingleInnerSet_of_not {threshold : uint32} {v : List N} {i : List (SCPQuorumSet N)}
    (h : ¬(threshold = 1 ∧ v = [] ∧ i.length = 1)) : collapseSingleInnerSet threshold v i = ⟨threshold, v, i⟩ := by
  rcases collapseSingleInnerSet_eq threshold v i with ⟨k, hthreshold, hv, hi, -⟩ | hkeep
  · exact absurd ⟨hthreshold, hv, by simp [hi]⟩ h
  · exact hkeep

variable [LinearOrder N]

theorem lawful_ofLT : Lawful (ofLT : N → N → ℤ) := fun a => lawfulAt_ofLT a

/-! ## Reordering -/

theorem singletonValidator_reorder (qSet : SCPQuorumSet N) :
    singletonValidator (normalizeQuorumSetReorder qSet) = singletonValidator qSet := by
  obtain ⟨threshold, validators, innerSets⟩ := qSet
  refine Option.ext fun x => ?_
  rw [singletonValidator_eq_some, singletonValidator_eq_some, normalizeQuorumSetReorder_mk]
  simp only [SCPQuorumSet.mk.injEq, insertionSort_eq_singleton_iff, ← List.length_eq_zero_iff,
    List.length_insertionSort, List.length_map]

theorem normalizeQuorumSetReorder_idem (qSet : SCPQuorumSet N) :
    normalizeQuorumSetReorder (normalizeQuorumSetReorder qSet) = normalizeQuorumSetReorder qSet := by
  induction qSet with
  | mk threshold validators innerSets ih =>
    rw [normalizeQuorumSetReorder_mk, normalizeQuorumSetReorder_mk, SCPQuorumSet.mk.injEq]
    -- sorting forgets the order it is given, here the order of the first sort
    refine ⟨rfl, (lawful_ofLT (N := N)).insertionSort_eq_of_perm (List.perm_insertionSort _ validators), ?_⟩
    have hfixed : (innerSets.map normalizeQuorumSetReorder).map normalizeQuorumSetReorder =
        innerSets.map normalizeQuorumSetReorder := by
      rw [List.map_map]
      exact List.map_congr_left ih
    have hperm := (List.perm_insertionSort (SortLE qSetCompareInt) (innerSets.map normalizeQuorumSetReorder)).map
      normalizeQuorumSetReorder
    rw [hfixed] at hperm
    exact lawful_qSetCompareInt.insertionSort_eq_of_perm hperm

theorem reorder_collapse_congr {threshold : uint32} {v v' : List N} {i i' : List (SCPQuorumSet N)}
    (hv : v.Perm v') (hi : (i.map normalizeQuorumSetReorder).Perm (i'.map normalizeQuorumSetReorder)) :
    normalizeQuorumSetReorder (collapseSingleInnerSet threshold v i) =
      normalizeQuorumSetReorder (collapseSingleInnerSet threshold v' i') := by
  have hlen : i.length = i'.length := by simpa using hi.length_eq
  by_cases hc : threshold = 1 ∧ v = [] ∧ i.length = 1
  · -- both collapse, to sets with one reordered form
    obtain ⟨rfl, rfl, hone⟩ := hc
    obtain ⟨k, rfl⟩ := List.length_eq_one_iff.mp hone
    obtain rfl := List.nil_perm.mp hv
    obtain ⟨k', rfl⟩ := List.length_eq_one_iff.mp (hlen ▸ hone)
    rw [collapseSingleInnerSet_one, collapseSingleInnerSet_one]
    simpa using hi
  · have hc' : ¬(threshold = 1 ∧ v' = [] ∧ i'.length = 1) := by
      rintro ⟨hthreshold, rfl, hone⟩
      exact hc ⟨hthreshold, hv.eq_nil, hlen ▸ hone⟩
    rw [collapseSingleInnerSet_of_not hc, collapseSingleInnerSet_of_not hc', normalizeQuorumSetReorder_mk,
      normalizeQuorumSetReorder_mk, (lawful_ofLT (N := N)).insertionSort_eq_of_perm hv,
      lawful_qSetCompareInt.insertionSort_eq_of_perm hi]

/-! ## Normalizing bottom-up -/

theorem simplifyInnerSets_eq (innerSets : List (SCPQuorumSet N)) :
    simplifyInnerSets none innerSets =
      ((innerSets.map (normalizeQSetSimplify none)).filterMap singletonValidator,
        (innerSets.map (normalizeQSetSimplify none)).filter fun q => (singletonValidator q).isNone) := by
  induction innerSets with
  | nil => rfl
  | cons inner rest ih =>
    cases hs : singletonValidator (normalizeQSetSimplify none inner) with
    | some x =>
      rw [simplifyInnerSets_cons_of_some hs, ih]
      simp [hs]
    | none =>
      rw [simplifyInnerSets_cons_of_none hs, ih]
      simp [hs]

theorem reorder_normalizeQSet (qSet : SCPQuorumSet N) :
    normalizeQuorumSetReorder (normalizeQSet qSet none) = normalizeQSet qSet none :=
  normalizeQuorumSetReorder_idem _

theorem reorder_of_normalizeQSet_eq {qSet : SCPQuorumSet N} (h : normalizeQSet qSet none = qSet) :
    normalizeQuorumSetReorder qSet = qSet := by
  rw [← h, reorder_normalizeQSet]

theorem normalizeQSet_mk (threshold : uint32) (validators : List N) (innerSets : List (SCPQuorumSet N)) :
    normalizeQSet ⟨threshold, validators, innerSets⟩ none =
      normalizeQuorumSetReorder (collapseSingleInnerSet threshold
        (validators ++ (innerSets.map (normalizeQSet · none)).filterMap singletonValidator)
        ((innerSets.map (normalizeQSet · none)).filter fun q => (singletonValidator q).isNone)) := by
  -- a normalized inner set is a simplified one reordered, and is merged exactly when the
  -- simplified one is
  have hnormal : innerSets.map (normalizeQSet · none) =
      (innerSets.map (normalizeQSetSimplify none)).map normalizeQuorumSetReorder := by
    rw [List.map_map]
    rfl
  have hsv : singletonValidator ∘ normalizeQuorumSetReorder = (singletonValidator : SCPQuorumSet N → Option N) :=
    funext singletonValidator_reorder
  have hkept : (fun q => (singletonValidator q).isNone) ∘ normalizeQuorumSetReorder =
      fun q : SCPQuorumSet N => (singletonValidator q).isNone :=
    funext fun q => by simp [singletonValidator_reorder]
  have hidem : normalizeQuorumSetReorder ∘ normalizeQuorumSetReorder =
      (normalizeQuorumSetReorder : SCPQuorumSet N → SCPQuorumSet N) :=
    funext normalizeQuorumSetReorder_idem
  rw [normalizeQSet, normalizeQSetSimplify_mk, simplifyInnerSets_eq, hnormal]
  conv_rhs => rw [List.filterMap_map, List.filter_map, hsv, hkept]
  refine reorder_collapse_congr (List.Perm.refl _) ?_
  rw [List.map_map, hidem]

/-! ## Canonical form -/

theorem normalizeQSet_normalizeQSet (qSet : SCPQuorumSet N) :
    normalizeQSet (normalizeQSet qSet none) none = normalizeQSet qSet none := by
  induction qSet with
  | mk threshold validators innerSets ih =>
    have hfixed : ∀ q ∈ innerSets.map (normalizeQSet · none), normalizeQSet q none = q := by
      intro q hq
      obtain ⟨inner, hinner, rfl⟩ := List.mem_map.mp hq
      exact ih inner hinner
    rw [normalizeQSet_mk]
    generalize hkept : (innerSets.map (normalizeQSet · none)).filter (fun q => (singletonValidator q).isNone) = kept
    generalize validators ++ (innerSets.map (normalizeQSet · none)).filterMap singletonValidator = merged
    -- the kept sets are normal and none is a single validator
    have hkeptFixed : ∀ q ∈ kept, normalizeQSet q none = q ∧ singletonValidator q = none := by
      intro q hq
      rw [← hkept, List.mem_filter] at hq
      exact ⟨hfixed q hq.1, Option.isNone_iff_eq_none.mp hq.2⟩
    by_cases hc : threshold = 1 ∧ merged = [] ∧ kept.length = 1
    · -- the set collapses to its one kept set, which is normal
      obtain ⟨rfl, rfl, hone⟩ := hc
      obtain ⟨k, rfl⟩ := List.length_eq_one_iff.mp hone
      have hk := (hkeptFixed k List.mem_cons_self).1
      rw [collapseSingleInnerSet_one, reorder_of_normalizeQSet_eq hk, hk]
    · have hkeptR : kept.map normalizeQuorumSetReorder = kept :=
        (List.map_congr_left fun q hq => reorder_of_normalizeQSet_eq (hkeptFixed q hq).1).trans (List.map_id kept)
      have hsorted : ∀ q ∈ kept.insertionSort (SortLE qSetCompareInt),
          normalizeQSet q none = q ∧ singletonValidator q = none :=
        fun q hq => hkeptFixed q ((List.mem_insertionSort _).mp hq)
      have hmapN : (kept.insertionSort (SortLE qSetCompareInt)).map (normalizeQSet · none) =
          kept.insertionSort (SortLE qSetCompareInt) :=
        (List.map_congr_left fun q hq => (hsorted q hq).1).trans (List.map_id _)
      calc normalizeQSet (normalizeQuorumSetReorder (collapseSingleInnerSet threshold merged kept)) none
          _ = normalizeQSet ⟨threshold, merged.insertionSort (SortLE ofLT),
                kept.insertionSort (SortLE qSetCompareInt)⟩ none := by
            rw [collapseSingleInnerSet_of_not hc, normalizeQuorumSetReorder_mk, hkeptR]
          _ = normalizeQuorumSetReorder (collapseSingleInnerSet threshold (merged.insertionSort (SortLE ofLT))
                (kept.insertionSort (SortLE qSetCompareInt))) := by
            rw [normalizeQSet_mk, hmapN, List.filterMap_eq_nil_iff.mpr fun q hq => (hsorted q hq).2, List.append_nil,
              List.filter_eq_self.mpr fun q hq => by simp [(hsorted q hq).2]]
          _ = normalizeQuorumSetReorder (collapseSingleInnerSet threshold merged kept) :=
            -- sorting again forgets the order it is given
            reorder_collapse_congr (List.perm_insertionSort _ merged) ((List.perm_insertionSort _ kept).map _)

theorem normalizeQSet_reorderStep {qSet qSet' : SCPQuorumSet N} (h : ReorderStep qSet qSet') :
    normalizeQSet qSet' none = normalizeQSet qSet none := by
  induction h with
  | validators hperm =>
    rw [normalizeQSet_mk, normalizeQSet_mk]
    exact reorder_collapse_congr (hperm.append_right _).symm (List.Perm.refl _)
  | innerSets hperm =>
    rw [normalizeQSet_mk, normalizeQSet_mk]
    have hnormal := (hperm.map (normalizeQSet · none)).symm
    exact reorder_collapse_congr ((hnormal.filterMap _).append_left _) ((hnormal.filter _).map _)
  | inner _ ih =>
    rw [normalizeQSet_mk, normalizeQSet_mk]
    simp only [List.map_append, List.map_cons, ih]

theorem normalizeQSet_of_reorders {qSet qSet' : SCPQuorumSet N} (h : Relation.ReflTransGen ReorderStep qSet qSet') :
    normalizeQSet qSet' none = normalizeQSet qSet none := by
  induction h with
  | refl => rfl
  | tail _ hstep ih => rw [normalizeQSet_reorderStep hstep, ih]

/-- `normalizeQSet` gives a canonical form: normalizing twice changes nothing, and every
reordering of the validators and the inner sets, at any depth, normalizes to the same set. -/
theorem normalizeQSet_canonical (qSet : SCPQuorumSet N) :
    normalizeQSet (normalizeQSet qSet none) none = normalizeQSet qSet none ∧
      ∀ qSet₁, Relation.ReflTransGen ReorderStep qSet qSet₁ → normalizeQSet qSet₁ none = normalizeQSet qSet none :=
  ⟨normalizeQSet_normalizeQSet qSet, fun _ h => normalizeQSet_of_reorders h⟩

example : normalizeQSet ⟨2, [0, 3], [⟨1, [], [⟨2, [4, 2], []⟩]⟩, ⟨1, [1], []⟩]⟩ none = normalizeQSet mixedQSet none := rfl

end HcnetCore.Scp
