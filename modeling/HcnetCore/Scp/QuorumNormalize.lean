import HcnetCore.Scp.QuorumSlices
import HcnetCore.Library.ThreeWay
import Mathlib

/-! # Normalized quorum sets

`normalizeQSet` with no node to remove keeps what a quorum set means: the node sets that
satisfy it and those that block it, and the weight it gives each node. It also yields a
canonical form: normalizing twice gives what normalizing once gives, and quorum sets that
differ only in the order of their validators and inner sets, at any level, normalize to the
same set. The order is `qSetCompareInt`'s, a linear order on quorum sets.
-/

namespace HcnetCore.Scp

set_option autoImplicit false

variable {N : Type} [LinearOrder N]

open ThreeWay

/-! ## `qSetCompareInt` is a linear order -/

theorem intLexicographicalCompare_eq_lex {α : Type} (comp : α → α → ℤ) (as bs : List α) :
    intLexicographicalCompare comp as bs = lex comp as bs := by
  induction as generalizing bs with
  | nil => cases bs <;> rfl
  | cons a as ih =>
    cases bs with
    | nil => rfl
    | cons b bs => simp only [intLexicographicalCompare, lex, thenCompare, ih]

theorem innerSetsCompare_eq_lex (ls rs : List (SCPQuorumSet N)) :
    innerSetsCompare ls rs = lex qSetCompareInt ls rs := by
  induction ls generalizing rs with
  | nil => cases rs <;> rfl
  | cons l ls ih =>
    cases rs with
    | nil => rfl
    | cons r rs => simp only [innerSetsCompare, lex, thenCompare, ih]

theorem thresholdCompare_eq_ofLT (l r : uint32) : (if l < r then -1 else if l = r then 0 else 1 : ℤ) = ofLT l r := by
  rcases lt_trichotomy l r with h | rfl | h
  · simp [ofLT, h]
  · simp [ofLT]
  · simp [ofLT, h, not_lt_of_gt h, ne_of_gt h]

/-- The fields `qSetCompareInt` compares, in its order. -/
def compareKey (qSet : SCPQuorumSet N) : List N × List (SCPQuorumSet N) × uint32 :=
  (qSet.validators, qSet.innerSets, qSet.threshold)

omit [LinearOrder N] in
theorem compareKey_injective : Function.Injective (compareKey : SCPQuorumSet N → _) := by
  rintro ⟨t, vs, is⟩ ⟨t', vs', is'⟩ h
  simp only [compareKey, Prod.mk.injEq] at h
  obtain ⟨rfl, rfl, rfl⟩ := h
  rfl

theorem qSetCompareInt_eq (l r : SCPQuorumSet N) :
    qSetCompareInt l r =
      pairCompare (lex ofLT) (pairCompare (lex qSetCompareInt) ofLT) (compareKey l) (compareKey r) := by
  obtain ⟨lt, lv, li⟩ := l
  obtain ⟨rt, rv, ri⟩ := r
  simp only [qSetCompareInt, compareKey, pairCompare, thenCompare, intLexicographicalCompare_eq_lex,
    innerSetsCompare_eq_lex, thresholdCompare_eq_ofLT]
  rfl

theorem lawful_qSetCompareInt : Lawful (qSetCompareInt : SCPQuorumSet N → SCPQuorumSet N → ℤ) := by
  intro qSet
  induction qSet with
  | mk threshold validators innerSets ih =>
    -- validators, inner sets and threshold, each compared lawfully
    have hkey : LawfulAt (pairCompare (lex ofLT) (pairCompare (lex qSetCompareInt) ofLT))
        (compareKey ⟨threshold, validators, innerSets⟩) :=
      (lawfulAt_lex fun v _ => lawfulAt_ofLT v).pair ((lawfulAt_lex ih).pair (lawfulAt_ofLT threshold))
    have hcmp : (qSetCompareInt : SCPQuorumSet N → SCPQuorumSet N → ℤ) =
        fun l r => pairCompare (lex ofLT) (pairCompare (lex qSetCompareInt) ofLT) (compareKey l) (compareKey r) :=
      funext₂ qSetCompareInt_eq
    rw [hcmp]
    exact hkey.comap compareKey_injective

/-! ## The reorder pass -/

theorem stdSort_eq_insertionSort {α : Type} (cmp : α → α → ℤ) (l : List α) :
    stdSort (fun a b => decide (cmp a b < 0)) l = l.insertionSort (SortLE cmp) := by
  unfold stdSort SortLE
  congr
  funext a b
  simp

theorem stdSort_lt_eq_insertionSort (validators : List N) :
    stdSort (fun l r => decide (l < r)) validators = validators.insertionSort (SortLE ofLT) := by
  rw [← stdSort_eq_insertionSort]
  congr
  funext a b
  simp [ofLT_neg_iff]

theorem reorderInnerSets_eq_map (innerSets : List (SCPQuorumSet N)) :
    reorderInnerSets innerSets = innerSets.map normalizeQuorumSetReorder := by
  induction innerSets with
  | nil => rfl
  | cons q rest ih => rw [reorderInnerSets, ih, List.map_cons]

theorem normalizeQuorumSetReorder_mk (threshold : uint32) (validators : List N) (innerSets : List (SCPQuorumSet N)) :
    normalizeQuorumSetReorder ⟨threshold, validators, innerSets⟩ =
      ⟨threshold, validators.insertionSort (SortLE ofLT),
        (innerSets.map normalizeQuorumSetReorder).insertionSort (SortLE qSetCompareInt)⟩ := by
  rw [normalizeQuorumSetReorder, reorderInnerSets_eq_map, stdSort_lt_eq_insertionSort, stdSort_eq_insertionSort]

/-! ## The simplify pass -/

omit [LinearOrder N] in
theorem singletonValidator_eq_some {qSet : SCPQuorumSet N} {x : N} :
    singletonValidator qSet = some x ↔ qSet = ⟨1, [x], []⟩ := by
  obtain ⟨threshold, validators, innerSets⟩ := qSet
  unfold singletonValidator
  dsimp only
  split
  · rename_i x' hthreshold
    have hone : threshold = 1 := Fin.ext hthreshold
    simp [hone]
  · rename_i hnot
    simp only [reduceCtorEq, false_iff, SCPQuorumSet.mk.injEq, not_and]
    rintro rfl rfl rfl
    exact hnot x rfl rfl rfl

theorem simplifyInnerSets_cons_of_some {idToRemove : Option N} {inner : SCPQuorumSet N}
    {rest : List (SCPQuorumSet N)} {x : N} (h : singletonValidator (normalizeQSetSimplify idToRemove inner) = some x) :
    simplifyInnerSets idToRemove (inner :: rest) =
      (x :: (simplifyInnerSets idToRemove rest).1, (simplifyInnerSets idToRemove rest).2) := by
  rw [simplifyInnerSets, h]

theorem simplifyInnerSets_cons_of_none {idToRemove : Option N} {inner : SCPQuorumSet N}
    {rest : List (SCPQuorumSet N)} (h : singletonValidator (normalizeQSetSimplify idToRemove inner) = none) :
    simplifyInnerSets idToRemove (inner :: rest) =
      ((simplifyInnerSets idToRemove rest).1, normalizeQSetSimplify idToRemove inner :: (simplifyInnerSets idToRemove rest).2) := by
  rw [simplifyInnerSets, h]

theorem simplifyInnerSets_length (idToRemove : Option N) (innerSets : List (SCPQuorumSet N)) :
    (simplifyInnerSets idToRemove innerSets).1.length + (simplifyInnerSets idToRemove innerSets).2.length =
      innerSets.length := by
  induction innerSets with
  | nil => rfl
  | cons inner rest ih =>
    cases hs : singletonValidator (normalizeQSetSimplify idToRemove inner) with
    | some x =>
      rw [simplifyInnerSets_cons_of_some hs]
      simp only [List.length_cons]
      omega
    | none =>
      rw [simplifyInnerSets_cons_of_none hs]
      simp only [List.length_cons]
      omega

theorem normalizeQSetSimplify_mk (threshold : uint32) (validators : List N) (innerSets : List (SCPQuorumSet N)) :
    normalizeQSetSimplify none ⟨threshold, validators, innerSets⟩ =
      collapseSingleInnerSet threshold (validators ++ (simplifyInnerSets none innerSets).1)
        (simplifyInnerSets none innerSets).2 := by
  rw [normalizeQSetSimplify]
  rfl

omit [LinearOrder N] in
theorem collapseSingleInnerSet_eq (threshold : uint32) (v : List N) (i : List (SCPQuorumSet N)) :
    (∃ k, threshold = 1 ∧ v = [] ∧ i = [k] ∧ collapseSingleInnerSet threshold v i = k) ∨
      collapseSingleInnerSet threshold v i = ⟨threshold, v, i⟩ := by
  unfold collapseSingleInnerSet
  split
  · rename_i k hthreshold
    exact .inl ⟨k, Fin.ext hthreshold, rfl, rfl, rfl⟩
  · exact .inr rfl

/-! ## Tests that count entries

The slice and v-blocking tests decide each level by a count of its entries; simplifying and
reordering keep every such count. -/

/-- `F` decides a level by a count: its value is `P threshold entries count`, where `count`
is the number of validators passing `g` and inner sets passing `F`; and a level of threshold
one with a single entry passes exactly when the entry does. -/
structure CountsEntries (F : SCPQuorumSet N → Bool) (g : N → Bool) (P : uint32 → ℕ → ℕ → Bool) : Prop where
  eq_count : ∀ threshold validators innerSets, F ⟨threshold, validators, innerSets⟩ =
    P threshold (validators.length + innerSets.length) (validators.countP g + innerSets.countP F)
  one_zero : P 1 1 0 = false
  one_one : P 1 1 1 = true

section Counting

variable {F : SCPQuorumSet N → Bool} {g : N → Bool} {P : uint32 → ℕ → ℕ → Bool}

omit [LinearOrder N] in
theorem CountsEntries.one_of_bool (hF : CountsEntries F g P) (b : Bool) : P 1 1 (if b then 1 else 0) = b := by
  cases b
  · exact hF.one_zero
  · exact hF.one_one

omit [LinearOrder N] in
theorem CountsEntries.singleton (hF : CountsEntries F g P) (x : N) : F ⟨1, [x], []⟩ = g x := by
  rw [hF.eq_count]
  simpa [List.countP_cons] using hF.one_of_bool (g x)

omit [LinearOrder N] in
theorem CountsEntries.collapse (hF : CountsEntries F g P) (k : SCPQuorumSet N) : F ⟨1, [], [k]⟩ = F k := by
  rw [hF.eq_count]
  simpa [List.countP_cons] using hF.one_of_bool (F k)

theorem CountsEntries.count_simplifyInnerSets (hF : CountsEntries F g P) {innerSets : List (SCPQuorumSet N)}
    (hinner : ∀ inner ∈ innerSets, F (normalizeQSetSimplify none inner) = F inner) :
    (simplifyInnerSets none innerSets).1.countP g + (simplifyInnerSets none innerSets).2.countP F =
      innerSets.countP F := by
  induction innerSets with
  | nil => rfl
  | cons inner rest ih =>
    have hrest := ih fun i hi => hinner i (List.mem_cons_of_mem _ hi)
    have hself := hinner inner List.mem_cons_self
    cases hs : singletonValidator (normalizeQSetSimplify none inner) with
    | some x =>
      rw [simplifyInnerSets_cons_of_some hs]
      rw [singletonValidator_eq_some.mp hs, hF.singleton] at hself
      simp only [List.countP_cons, hself]
      omega
    | none =>
      rw [simplifyInnerSets_cons_of_none hs]
      simp only [List.countP_cons, hself]
      omega

theorem CountsEntries.simplify (hF : CountsEntries F g P) (qSet : SCPQuorumSet N) :
    F (normalizeQSetSimplify none qSet) = F qSet := by
  induction qSet with
  | mk threshold validators innerSets ih =>
    have hcount := hF.count_simplifyInnerSets ih
    have hlen := simplifyInnerSets_length none innerSets
    rw [normalizeQSetSimplify_mk]
    rcases collapseSingleInnerSet_eq threshold (validators ++ (simplifyInnerSets none innerSets).1)
      (simplifyInnerSets none innerSets).2 with ⟨k, rfl, hv, hi, hcollapse⟩ | hkeep
    · -- `{t: 1, {k}}` became `k`: no validator, one inner set
      rw [hcollapse, ← hF.collapse k]
      obtain ⟨rfl, hmerged⟩ := List.append_eq_nil_iff.mp hv
      rw [hi, hmerged] at hcount hlen
      rw [hF.eq_count, hF.eq_count]
      congr 1
      · simp only [List.length_nil, List.length_cons] at hlen ⊢
        omega
      · simp only [List.countP_nil] at hcount ⊢
        omega
    · rw [hkeep, hF.eq_count, hF.eq_count, List.length_append, List.countP_append]
      congr 1 <;> omega

theorem CountsEntries.reorder (hF : CountsEntries F g P) (qSet : SCPQuorumSet N) :
    F (normalizeQuorumSetReorder qSet) = F qSet := by
  induction qSet with
  | mk threshold validators innerSets ih =>
    have hv := List.perm_insertionSort (SortLE ofLT) validators
    have hi := List.perm_insertionSort (SortLE qSetCompareInt) (innerSets.map normalizeQuorumSetReorder)
    rw [normalizeQuorumSetReorder_mk, hF.eq_count, hF.eq_count, hv.length_eq, hv.countP_eq, hi.length_eq,
      hi.countP_eq, List.length_map, List.countP_map]
    congr 2
    exact List.countP_congr fun inner hinner => by simp [ih inner hinner]

theorem CountsEntries.normalize (hF : CountsEntries F g P) (qSet : SCPQuorumSet N) :
    F (normalizeQSet qSet none) = F qSet := by
  rw [normalizeQSet, hF.reorder, hF.simplify]

end Counting

theorem countsEntries_isQuorumSliceInternal (nodeSet : List N) :
    CountsEntries (isQuorumSliceInternal · nodeSet) (fun v => decide (v ∈ nodeSet))
      (fun threshold _ count => decide (hitsToZero threshold ≤ count)) where
  eq_count threshold validators innerSets := by
    rw [Bool.eq_iff_iff, isQuorumSliceInternal_iff, decide_eq_true_iff]
  one_zero := by simp [hitsToZero]
  one_one := by simp [hitsToZero]

theorem countsEntries_isVBlockingInternal (nodeSet : List N) :
    CountsEntries (isVBlockingInternal · nodeSet) (fun v => decide (v ∈ nodeSet))
      (fun threshold entries count =>
        decide (threshold ≠ 0 ∧ max (sizeToInt ((1 + entries + 2 ^ 64 - threshold.val) % 2 ^ 64)) 1 ≤ (count : ℤ))) where
  eq_count threshold validators innerSets := by
    rw [Bool.eq_iff_iff, isVBlockingInternal_iff, decide_eq_true_iff, Nat.add_assoc 1]
  one_zero := by decide
  one_one := by decide

theorem normalizeQSet_isQuorumSlice (qSet : SCPQuorumSet N) (nodeSet : List N) :
    isQuorumSlice (normalizeQSet qSet none) nodeSet = isQuorumSlice qSet nodeSet :=
  (countsEntries_isQuorumSliceInternal nodeSet).normalize qSet

theorem normalizeQSet_isVBlocking (qSet : SCPQuorumSet N) (nodeSet : List N) :
    isVBlocking (normalizeQSet qSet none) nodeSet = isVBlocking qSet nodeSet :=
  (countsEntries_isVBlockingInternal nodeSet).normalize qSet

/-! ## Nodes -/

omit [LinearOrder N] in
theorem innerNodes_eq_flatMap (innerSets : List (SCPQuorumSet N)) : innerNodes innerSets = innerSets.flatMap allNodes := by
  induction innerSets with
  | nil => rfl
  | cons inner rest ih => rw [innerNodes, ih, List.flatMap_cons]

omit [LinearOrder N] in
theorem innerNodes_perm {l₁ l₂ : List (SCPQuorumSet N)} (hp : l₁.Perm l₂) : (innerNodes l₁).Perm (innerNodes l₂) := by
  rw [innerNodes_eq_flatMap, innerNodes_eq_flatMap]
  exact hp.flatMap_right allNodes

omit [LinearOrder N] in
theorem innerNodes_map_perm {f : SCPQuorumSet N → SCPQuorumSet N} {innerSets : List (SCPQuorumSet N)}
    (hf : ∀ inner ∈ innerSets, (allNodes (f inner)).Perm (allNodes inner)) :
    (innerNodes (innerSets.map f)).Perm (innerNodes innerSets) := by
  rw [innerNodes_eq_flatMap, innerNodes_eq_flatMap, List.flatMap_map]
  exact List.Perm.flatMap_left innerSets hf

theorem allNodes_reorder_perm (qSet : SCPQuorumSet N) : (allNodes (normalizeQuorumSetReorder qSet)).Perm (allNodes qSet) := by
  induction qSet with
  | mk threshold validators innerSets ih =>
    rw [normalizeQuorumSetReorder_mk, allNodes_mk, allNodes_mk]
    exact (List.perm_insertionSort _ validators).append
      ((innerNodes_perm (List.perm_insertionSort _ _)).trans (innerNodes_map_perm ih))

theorem simplifyInnerSets_nodes_perm {innerSets : List (SCPQuorumSet N)}
    (hinner : ∀ inner ∈ innerSets, (allNodes (normalizeQSetSimplify none inner)).Perm (allNodes inner)) :
    ((simplifyInnerSets none innerSets).1 ++ innerNodes (simplifyInnerSets none innerSets).2).Perm
      (innerNodes innerSets) := by
  induction innerSets with
  | nil => rfl
  | cons inner rest ih =>
    have hrest := ih fun i hi => hinner i (List.mem_cons_of_mem _ hi)
    have hself := hinner inner List.mem_cons_self
    rw [innerNodes]
    cases hs : singletonValidator (normalizeQSetSimplify none inner) with
    | some x =>
      -- `x` is the one node of the simplified inner set
      rw [simplifyInnerSets_cons_of_some hs]
      rw [singletonValidator_eq_some.mp hs, allNodes_mk] at hself
      simpa [innerNodes] using hself.append hrest
    | none =>
      -- the kept inner set moves from behind the merged validators to the front
      rw [simplifyInnerSets_cons_of_none hs, innerNodes]
      exact (List.perm_append_comm_assoc _ _ _).trans (hself.append hrest)

theorem allNodes_simplify_perm (qSet : SCPQuorumSet N) : (allNodes (normalizeQSetSimplify none qSet)).Perm (allNodes qSet) := by
  induction qSet with
  | mk threshold validators innerSets ih =>
    have hnodes := simplifyInnerSets_nodes_perm ih
    rw [normalizeQSetSimplify_mk, allNodes_mk]
    rcases collapseSingleInnerSet_eq threshold (validators ++ (simplifyInnerSets none innerSets).1)
      (simplifyInnerSets none innerSets).2 with ⟨k, rfl, hv, hi, hcollapse⟩ | hkeep
    · -- the collapsed set keeps the nodes of its one inner set
      obtain ⟨rfl, hmerged⟩ := List.append_eq_nil_iff.mp hv
      rw [hi, hmerged] at hnodes
      rw [hcollapse]
      simpa [innerNodes] using hnodes
    · rw [hkeep, allNodes_mk, List.append_assoc]
      exact (List.Perm.refl validators).append hnodes

/-! ## Weights -/

theorem bigDivideUnsigned_roundUp {A B C : ℕ} (hC : 0 < C) :
    bigDivideUnsigned A B C .roundUp =
      .ok ((A * B + C - 1) / C % 2 ^ 64, decide ((A * B + C - 1) / C ≤ UINT64_MAX)) := by
  simp [bigDivideUnsigned, Nat.pos_iff_ne_zero.mp hC]

theorem computeWeight_eq_ok {m total threshold r : ℕ} :
    computeWeight m total threshold = .ok r ↔
      threshold ≤ total ∧ 0 < total ∧ (m * threshold + total - 1) / total ≤ UINT64_MAX ∧
        r = (m * threshold + total - 1) / total := by
  by_cases hle : threshold ≤ total
  · rcases Nat.eq_zero_or_pos total with h0 | h0
    · simp only [computeWeight, bigDivideUnsigned, h0]
      split_ifs <;> simp_all
    · by_cases hover : (m * threshold + total - 1) / total ≤ UINT64_MAX
      · -- the quotient fits in 64 bits, where the truncation keeps it
        have hfits : (m * threshold + total - 1) / total < 2 ^ 64 := by
          unfold UINT64_MAX at hover
          omega
        have hdiv := bigDivideUnsigned_roundUp (A := m) (B := threshold) h0
        rw [Nat.mod_eq_of_lt hfits] at hdiv
        simp [computeWeight, hle, hdiv, hover, h0]
        exact eq_comm
      · -- the quotient does not fit in 64 bits: `releaseAssert(noOverflow)` fails
        simp [computeWeight, hle, bigDivideUnsigned_roundUp h0, hover, Functor.map, Except.map, throw, throwThe,
          MonadExceptOf.throw]
  · simp [computeWeight, hle]

theorem computeWeight_le {m total threshold r : ℕ} (h : computeWeight m total threshold = .ok r) :
    r ≤ UINT64_MAX := by
  obtain ⟨-, -, hfits, rfl⟩ := computeWeight_eq_ok.mp h
  exact hfits

theorem computeWeight_one {w : ℕ} (hw : w ≤ UINT64_MAX) : computeWeight w 1 1 = .ok w :=
  computeWeight_eq_ok.mpr ⟨le_rfl, Nat.one_pos, by simpa using hw, by simp⟩

theorem getNodeWeight_mk (nodeID : N) (threshold : uint32) (validators : List N)
    (innerSets : List (SCPQuorumSet N)) :
    getNodeWeight nodeID ⟨threshold, validators, innerSets⟩ =
      if nodeID ∈ validators then computeWeight UINT64_MAX (innerSets.length + validators.length) threshold.val
      else innerSetsWeight nodeID innerSets (innerSets.length + validators.length) threshold.val := by
  rw [getNodeWeight]

section Weight

variable {nodeID : N} {d n : ℕ}

theorem innerSetsWeight_cons_of_zero {q : SCPQuorumSet N} {rest : List (SCPQuorumSet N)}
    (h : getNodeWeight nodeID q = .ok 0) : innerSetsWeight nodeID (q :: rest) d n = innerSetsWeight nodeID rest d n := by
  simp [innerSetsWeight, h]

theorem innerSetsWeight_cons_of_pos {q : SCPQuorumSet N} {rest : List (SCPQuorumSet N)} {w : ℕ}
    (h : getNodeWeight nodeID q = .ok w) (hw : w ≠ 0) : innerSetsWeight nodeID (q :: rest) d n = computeWeight w d n := by
  simp [innerSetsWeight, h, hw]

theorem innerSetsWeight_cons_congr {q q' : SCPQuorumSet N} {rest rest' : List (SCPQuorumSet N)}
    (hq : getNodeWeight nodeID q = getNodeWeight nodeID q')
    (hrest : innerSetsWeight nodeID rest d n = innerSetsWeight nodeID rest' d n) :
    innerSetsWeight nodeID (q :: rest) d n = innerSetsWeight nodeID (q' :: rest') d n := by
  rw [innerSetsWeight, innerSetsWeight, hq, hrest]

theorem innerSetsWeight_le {innerSets : List (SCPQuorumSet N)} {r : ℕ}
    (h : innerSetsWeight nodeID innerSets d n = .ok r) : r ≤ UINT64_MAX := by
  induction innerSets with
  | nil =>
    simp only [innerSetsWeight, Except.pure_eq_ok] at h
    simp [← h]
  | cons q rest ih =>
    rw [innerSetsWeight] at h
    obtain ⟨w, -, hw⟩ := Except.bind_eq_ok.mp h
    split_ifs at hw
    · exact computeWeight_le hw
    · exact ih hw

theorem getNodeWeight_le {qSet : SCPQuorumSet N} {r : ℕ} (h : getNodeWeight nodeID qSet = .ok r) : r ≤ UINT64_MAX := by
  obtain ⟨threshold, validators, innerSets⟩ := qSet
  rw [getNodeWeight_mk] at h
  split_ifs at h
  · exact computeWeight_le h
  · exact innerSetsWeight_le h

theorem innerSetsWeight_of_forall_zero {innerSets : List (SCPQuorumSet N)}
    (h : ∀ q ∈ innerSets, getNodeWeight nodeID q = .ok 0) : innerSetsWeight nodeID innerSets d n = .ok 0 := by
  induction innerSets with
  | nil => rfl
  | cons q rest ih =>
    rw [innerSetsWeight_cons_of_zero (h q List.mem_cons_self)]
    exact ih fun q' hq' => h q' (List.mem_cons_of_mem q hq')

theorem getNodeWeight_of_not_mem {qSet : SCPQuorumSet N} (h : nodeID ∉ allNodes qSet) :
    getNodeWeight nodeID qSet = .ok 0 := by
  induction qSet with
  | mk threshold validators innerSets ih =>
    rw [allNodes_mk, List.mem_append, not_or] at h
    rw [getNodeWeight_mk, if_neg h.1]
    exact innerSetsWeight_of_forall_zero fun inner hinner =>
      ih inner hinner fun hn => h.2 ((allNodes_sublist_innerNodes hinner).subset hn)

theorem getNodeWeight_singleton_self (x : N) : getNodeWeight x ⟨1, [x], []⟩ = .ok UINT64_MAX := by
  rw [getNodeWeight_mk, if_pos List.mem_cons_self]
  exact computeWeight_one le_rfl

theorem innerSetsWeight_perm {l₁ l₂ : List (SCPQuorumSet N)} (hp : l₁.Perm l₂) :
    (innerNodes l₁).Nodup → innerSetsWeight nodeID l₁ d n = innerSetsWeight nodeID l₂ d n := by
  induction hp with
  | nil => intro _; rfl
  | cons q _ ih =>
    intro hnodup
    rw [innerNodes] at hnodup
    exact innerSetsWeight_cons_congr rfl (ih hnodup.of_append_right)
  | swap q₁ q₂ l =>
    intro hnodup
    rw [innerNodes, innerNodes] at hnodup
    by_cases h₁ : nodeID ∈ allNodes q₁
    · -- then `q₂`, which shares no node with `q₁`, weighs nothing
      have hz₂ := getNodeWeight_of_not_mem fun h₂ =>
        List.disjoint_of_nodup_append hnodup h₂ (List.mem_append_left _ h₁)
      calc innerSetsWeight nodeID (q₂ :: q₁ :: l) d n
          _ = innerSetsWeight nodeID (q₁ :: l) d n := innerSetsWeight_cons_of_zero hz₂
          _ = innerSetsWeight nodeID (q₁ :: q₂ :: l) d n :=
            innerSetsWeight_cons_congr rfl (innerSetsWeight_cons_of_zero hz₂).symm
    · have hz₁ := getNodeWeight_of_not_mem h₁
      calc innerSetsWeight nodeID (q₂ :: q₁ :: l) d n
          _ = innerSetsWeight nodeID (q₂ :: l) d n := innerSetsWeight_cons_congr rfl (innerSetsWeight_cons_of_zero hz₁)
          _ = innerSetsWeight nodeID (q₁ :: q₂ :: l) d n := (innerSetsWeight_cons_of_zero hz₁).symm
  | trans p₁ _ ih₁ ih₂ =>
    intro hnodup
    exact (ih₁ hnodup).trans (ih₂ ((innerNodes_perm p₁).nodup_iff.mp hnodup))

theorem innerSetsWeight_map {f : SCPQuorumSet N → SCPQuorumSet N} {innerSets : List (SCPQuorumSet N)}
    (hf : ∀ inner ∈ innerSets, getNodeWeight nodeID (f inner) = getNodeWeight nodeID inner) :
    innerSetsWeight nodeID (innerSets.map f) d n = innerSetsWeight nodeID innerSets d n := by
  induction innerSets with
  | nil => rfl
  | cons q rest ih =>
    exact innerSetsWeight_cons_congr (hf q List.mem_cons_self)
      (ih fun inner hinner => hf inner (List.mem_cons_of_mem q hinner))

theorem simplifyInnerSets_weight {innerSets : List (SCPQuorumSet N)}
    (hinner : ∀ inner ∈ innerSets,
      getNodeWeight nodeID (normalizeQSetSimplify none inner) = getNodeWeight nodeID inner)
    (hnodup : (innerNodes innerSets).Nodup) :
    (if nodeID ∈ (simplifyInnerSets none innerSets).1 then computeWeight UINT64_MAX d n
      else innerSetsWeight nodeID (simplifyInnerSets none innerSets).2 d n) =
      innerSetsWeight nodeID innerSets d n := by
  induction innerSets with
  | nil => simp [simplifyInnerSets]
  | cons inner rest ih =>
    rw [innerNodes] at hnodup
    have hrest := ih (fun i hi => hinner i (List.mem_cons_of_mem _ hi)) hnodup.of_append_right
    have hself := hinner inner List.mem_cons_self
    cases hs : singletonValidator (normalizeQSetSimplify none inner) with
    | some x =>
      rw [simplifyInnerSets_cons_of_some hs]
      rw [singletonValidator_eq_some.mp hs] at hself
      by_cases hx : nodeID = x
      · -- the merged node weighs `UINT64_MAX` in its singleton set
        subst hx
        rw [if_pos List.mem_cons_self, innerSetsWeight_cons_of_pos (hself ▸ getNodeWeight_singleton_self nodeID)]
        unfold UINT64_MAX
        omega
      · have hzero : getNodeWeight nodeID inner = .ok 0 := by
          rw [← hself]
          exact getNodeWeight_of_not_mem (by simp [allNodes_mk, innerNodes, hx])
        rw [innerSetsWeight_cons_of_zero hzero, ← hrest]
        simp [hx]
    | none =>
      rw [simplifyInnerSets_cons_of_none hs]
      by_cases hm : nodeID ∈ (simplifyInnerSets none rest).1
      · -- a node merged from a later set is no node of `inner`
        have hlater : nodeID ∈ innerNodes rest :=
          (simplifyInnerSets_nodes_perm fun i _ => allNodes_simplify_perm i).subset (List.mem_append_left _ hm)
        have hnot : nodeID ∉ allNodes inner := fun h => List.disjoint_of_nodup_append hnodup h hlater
        rw [if_pos hm, innerSetsWeight_cons_of_zero (getNodeWeight_of_not_mem hnot), ← hrest, if_pos hm]
      · have hkept : innerSetsWeight nodeID (simplifyInnerSets none rest).2 d n = innerSetsWeight nodeID rest d n := by
          rw [← hrest, if_neg hm]
        rw [if_neg hm]
        exact innerSetsWeight_cons_congr hself hkept

theorem getNodeWeight_collapse (threshold : uint32) (v : List N) (i : List (SCPQuorumSet N)) :
    getNodeWeight nodeID (collapseSingleInnerSet threshold v i) = getNodeWeight nodeID ⟨threshold, v, i⟩ := by
  rcases collapseSingleInnerSet_eq threshold v i with ⟨k, rfl, rfl, rfl, hk⟩ | hkeep
  · rw [hk, getNodeWeight_mk, if_neg List.not_mem_nil]
    cases hw : getNodeWeight nodeID k with
    | error e =>
      rw [innerSetsWeight, hw]
      rfl
    | ok w =>
      rcases Nat.eq_zero_or_pos w with rfl | hpos
      · rw [innerSetsWeight_cons_of_zero hw]
        rfl
      · rw [innerSetsWeight_cons_of_pos hw hpos.ne']
        exact (computeWeight_one (getNodeWeight_le hw)).symm
  · rw [hkeep]

theorem getNodeWeight_simplify (qSet : SCPQuorumSet N) (hnodup : (allNodes qSet).Nodup) :
    getNodeWeight nodeID (normalizeQSetSimplify none qSet) = getNodeWeight nodeID qSet := by
  induction qSet with
  | mk threshold validators innerSets ih =>
    rw [allNodes_mk] at hnodup
    have hinner : ∀ inner ∈ innerSets,
        getNodeWeight nodeID (normalizeQSetSimplify none inner) = getNodeWeight nodeID inner :=
      fun inner hinner => ih inner hinner (hnodup.of_append_right.sublist (allNodes_sublist_innerNodes hinner))
    -- merging moves entries from the inner sets to the validators and keeps their number
    have hd : (simplifyInnerSets none innerSets).2.length + (validators ++ (simplifyInnerSets none innerSets).1).length =
        innerSets.length + validators.length := by
      have := simplifyInnerSets_length none innerSets
      rw [List.length_append]
      omega
    rw [normalizeQSetSimplify_mk, getNodeWeight_collapse, getNodeWeight_mk, getNodeWeight_mk, hd]
    by_cases hv : nodeID ∈ validators
    · rw [if_pos (List.mem_append_left _ hv), if_pos hv]
    · rw [if_neg hv, ← simplifyInnerSets_weight hinner hnodup.of_append_right]
      simp only [List.mem_append, hv, false_or]

theorem getNodeWeight_reorder (qSet : SCPQuorumSet N) (hnodup : (allNodes qSet).Nodup) :
    getNodeWeight nodeID (normalizeQuorumSetReorder qSet) = getNodeWeight nodeID qSet := by
  induction qSet with
  | mk threshold validators innerSets ih =>
    rw [allNodes_mk] at hnodup
    have hinner : ∀ inner ∈ innerSets,
        getNodeWeight nodeID (normalizeQuorumSetReorder inner) = getNodeWeight nodeID inner :=
      fun inner hinner => ih inner hinner (hnodup.of_append_right.sublist (allNodes_sublist_innerNodes hinner))
    -- the sorted inner sets permute the reordered ones, which have no node twice
    have hperm := List.perm_insertionSort (SortLE qSetCompareInt) (innerSets.map normalizeQuorumSetReorder)
    have hnodup' : (innerNodes (innerSets.map normalizeQuorumSetReorder)).Nodup :=
      (innerNodes_map_perm fun i _ => allNodes_reorder_perm i).nodup_iff.mpr hnodup.of_append_right
    rw [normalizeQuorumSetReorder_mk, getNodeWeight_mk, getNodeWeight_mk, ← innerSetsWeight_perm hperm.symm hnodup',
      innerSetsWeight_map hinner]
    simp only [List.mem_insertionSort, List.length_insertionSort, List.length_map]

end Weight

/-- Normalizing a sane quorum set, with no node removed, keeps its slices, its v-blocking sets
and the weight of every node. -/
theorem normalizeQSet_preserves_meaning (qSet : SCPQuorumSet N) (hsane : isQuorumSetSane qSet false = true)
    (nodeSet : List N) (nodeID : N) :
    isQuorumSlice (normalizeQSet qSet none) nodeSet = isQuorumSlice qSet nodeSet ∧
      isVBlocking (normalizeQSet qSet none) nodeSet = isVBlocking qSet nodeSet ∧
      getNodeWeight nodeID (normalizeQSet qSet none) = getNodeWeight nodeID qSet := by
  have hnodup := (saneQSet_of_isQuorumSetSane hsane).nodup
  refine ⟨normalizeQSet_isQuorumSlice qSet nodeSet, normalizeQSet_isVBlocking qSet nodeSet, ?_⟩
  -- the simplified set has the same nodes, so none of them twice
  have hnodup' := (allNodes_simplify_perm qSet).nodup_iff.mpr hnodup
  rw [normalizeQSet, getNodeWeight_reorder _ hnodup', getNodeWeight_simplify qSet hnodup]

/-- A set with a singleton inner set to merge, an inner set to collapse and validators to sort. -/
def mixedQSet : SCPQuorumSet ℕ := ⟨2, [3, 0], [⟨1, [1], []⟩, ⟨1, [], [⟨2, [4, 2], []⟩]⟩]⟩

example : normalizeQSet mixedQSet none = ⟨2, [0, 1, 3], [⟨2, [2, 4], []⟩]⟩ := rfl

theorem normalizeQSet_preserves_meaning_mixed :
    isQuorumSetSane mixedQSet false = true ∧
      (isQuorumSlice (normalizeQSet mixedQSet none) [0, 2] = isQuorumSlice mixedQSet [0, 2] ∧
        isVBlocking (normalizeQSet mixedQSet none) [0, 2] = isVBlocking mixedQSet [0, 2] ∧
        getNodeWeight 4 (normalizeQSet mixedQSet none) = getNodeWeight 4 mixedQSet) :=
  ⟨by decide, normalizeQSet_preserves_meaning mixedQSet (by decide) [0, 2] 4⟩

end HcnetCore.Scp
