import HcnetCore.Scp.QuorumSlices
import HcnetCore.Library.SmallestSum
import Mathlib

/-! # The closest v-blocking set

`findClosestVBlocking` counts `leftTillBlock` down over the validators outside `nodes` and the
inner sets already blocked, then blocks what is left with its validators in `nodes` first and the
smallest results of the inner sets after. Every entry costs its validator or the nodes of its
inner result, and the validators cost one, the least any entry costs: taking the cheapest entries
first is a least choice, level by level.
-/

namespace HcnetCore.Scp

set_option autoImplicit false

variable {N : Type} [DecidableEq N]

theorem countP_or_of_disjoint {α : Type} (p q : α → Bool) (l : List α) (h : ∀ x ∈ l, p x = true → q x = false) :
    l.countP (fun x => p x || q x) = l.countP p + l.countP q := by
  induction l with
  | nil => rfl
  | cons x l ih =>
    have hx := h x List.mem_cons_self
    simp only [List.countP_cons, ih fun y hy => h y (List.mem_cons_of_mem _ hy)]
    cases hp : p x <;> cases hq : q x <;> simp [hp, hq] at hx ⊢ <;> omega

omit [DecidableEq N] in
theorem countP_innerNodes (p : N → Bool) (innerSets : List (SCPQuorumSet N)) :
    (innerNodes innerSets).countP p = (innerSets.map fun inner => (allNodes inner).countP p).sum := by
  induction innerSets with
  | nil => simp [innerNodes]
  | cons inner rest ih => rw [innerNodes, List.countP_append, ih, List.map_cons, List.sum_cons]

/-! ## Only the nodes of a quorum set matter to blocking it -/

theorem isVBlockingInternal_mono {nodeSet nodeSet' : List N} (qSet : SCPQuorumSet N) :
    (∀ x ∈ allNodes qSet, x ∈ nodeSet → x ∈ nodeSet') →
      isVBlockingInternal qSet nodeSet = true → isVBlockingInternal qSet nodeSet' = true := by
  induction qSet with
  | mk threshold validators innerSets ih =>
    intro hsub
    rw [isVBlockingInternal_iff, isVBlockingInternal_iff]
    rintro ⟨h0, hcount⟩
    have hv : validators.countP (fun v => decide (v ∈ nodeSet)) ≤ validators.countP (fun v => decide (v ∈ nodeSet')) := by
      refine List.countP_mono_left fun v hv h => ?_
      simp only [decide_eq_true_eq] at h ⊢
      exact hsub v (by rw [allNodes_mk]; exact List.mem_append_left _ hv) h
    have hi : innerSets.countP (fun inner => isVBlockingInternal inner nodeSet) ≤
        innerSets.countP (fun inner => isVBlockingInternal inner nodeSet') :=
      List.countP_mono_left fun inner hin h =>
        ih inner hin (fun x hx => hsub x ((allNodes_sublist_of_mem hin).subset hx)) h
    refine ⟨h0, le_trans hcount ?_⟩
    exact_mod_cast Nat.add_le_add hv hi

theorem isVBlockingInternal_congr {nodeSet nodeSet' : List N} (qSet : SCPQuorumSet N)
    (h : ∀ x ∈ allNodes qSet, x ∈ nodeSet ↔ x ∈ nodeSet') :
    isVBlockingInternal qSet nodeSet = isVBlockingInternal qSet nodeSet' :=
  Bool.eq_iff_iff.mpr ⟨isVBlockingInternal_mono qSet fun x hx => (h x hx).mp,
    isVBlockingInternal_mono qSet fun x hx => (h x hx).mpr⟩

omit [DecidableEq N] in
theorem allNodes_eq (qSet : SCPQuorumSet N) : allNodes qSet = qSet.validators ++ innerNodes qSet.innerSets := by
  obtain ⟨threshold, validators, innerSets⟩ := qSet
  exact allNodes_mk threshold validators innerSets

omit [DecidableEq N] in
theorem mem_allNodes_of_mem_validators {qSet : SCPQuorumSet N} {v : N} (hv : v ∈ qSet.validators) :
    v ∈ allNodes qSet := by
  rw [allNodes_eq]
  exact List.mem_append_left _ hv

omit [DecidableEq N] in
theorem allNodes_sublist_of_mem_innerSets {qSet inner : SCPQuorumSet N} (hinner : inner ∈ qSet.innerSets) :
    (allNodes inner).Sublist (allNodes qSet) := by
  obtain ⟨threshold, validators, innerSets⟩ := qSet
  exact allNodes_sublist_of_mem hinner

/-- How many entries of a level a node set must block: `1 + entries - threshold`. -/
def entriesToBlock (qSet : SCPQuorumSet N) : ℕ :=
  1 + qSet.validators.length + qSet.innerSets.length - qSet.threshold.val

omit [DecidableEq N] in
theorem entriesToBlock_le {qSet : SCPQuorumSet N} (hrange : ThresholdsInRange qSet) :
    0 < entriesToBlock qSet ∧ entriesToBlock qSet ≤ qSet.validators.length + qSet.innerSets.length := by
  obtain ⟨hpos, hle, -⟩ := hrange
  dsimp only [entriesToBlock]
  omega

theorem isVBlockingInternal_iff_count {qSet : SCPQuorumSet N} (hrange : ThresholdsInRange qSet)
    (hsmall : (allNodes qSet).length < 2 ^ 31) (nodeSet : List N) :
    isVBlockingInternal qSet nodeSet = true ↔
      entriesToBlock qSet ≤ qSet.validators.countP (fun v => decide (v ∈ nodeSet)) +
        qSet.innerSets.countP (fun inner => isVBlockingInternal inner nodeSet) := by
  have hentries := (entries_le_allNodes qSet hrange).1
  obtain @⟨threshold, validators, innerSets, hpos, hle, -⟩ := hrange
  have hthreshold : threshold ≠ 0 := fun h => by simp [h] at hpos
  dsimp only at hentries
  rw [isVBlockingInternal_iff, leftTillBlock_eq hpos hle (by omega), max_le_iff]
  dsimp only [entriesToBlock]
  constructor
  · rintro ⟨-, hcount, -⟩
    omega
  · intro hcount
    exact ⟨hthreshold, by omega, by omega⟩

def outsideNodes (qSet : SCPQuorumSet N) (nodes : List N) : List N :=
  (allNodes qSet).filter fun x => x ∉ nodes

theorem mem_outsideNodes_append {qSet : SCPQuorumSet N} {nodes X : List N} {x : N} (hx : x ∈ allNodes qSet) :
    x ∈ outsideNodes qSet nodes ++ X ↔ x ∉ nodes ∨ x ∈ X := by
  simp [outsideNodes, hx]

theorem isVBlockingInternal_outside_inner {qSet inner : SCPQuorumSet N} {nodes : List N}
    (hsub : ∀ x ∈ allNodes inner, x ∈ allNodes qSet) (X : List N) :
    isVBlockingInternal inner (outsideNodes qSet nodes ++ X) = isVBlockingInternal inner (outsideNodes inner nodes ++ X) :=
  isVBlockingInternal_congr inner fun x hx => by
    rw [mem_outsideNodes_append (hsub x hx), mem_outsideNodes_append hx]

/-! ## The two loops of `findClosestVBlocking` -/

theorem sizeDec_of_pos {x : ℕ} (hpos : 0 < x) (hlt : x < 2 ^ 64) : sizeDec x = x - 1 := by
  rw [sizeDec]
  omega

theorem closestValidators_eq (nodes validators : List N) {leftTillBlock : ℕ} (hpos : 0 < leftTillBlock)
    (hlt : leftTillBlock < 2 ^ 64) :
    closestValidators nodes none leftTillBlock validators =
      if leftTillBlock ≤ validators.countP (fun v => decide (v ∉ nodes)) then none
      else some (leftTillBlock - validators.countP (fun v => decide (v ∉ nodes)),
        validators.filter fun v => v ∈ nodes) := by
  induction validators generalizing leftTillBlock with
  | nil =>
    rw [closestValidators, List.countP_nil, if_neg (by omega)]
    rfl
  | cons v rest ih =>
    rw [closestValidators, if_neg (Option.some_ne_none v).symm]
    by_cases hv : v ∈ nodes
    · rw [if_pos hv, ih hpos hlt, List.countP_cons_of_neg (by simpa using hv), List.filter_cons_of_pos (by simpa using hv)]
      split_ifs <;> rfl
    · rw [if_neg hv, sizeDec_of_pos hpos hlt, List.countP_cons_of_pos (by simpa using hv),
        List.filter_cons_of_neg (by simpa using hv)]
      -- the count reaches zero here exactly when one more validator outside `nodes` is enough
      by_cases h0 : leftTillBlock - 1 = 0
      · rw [if_pos h0, if_pos (by omega)]
      · rw [if_neg h0, ih (by omega) (by omega)]
        by_cases hle : leftTillBlock ≤ rest.countP (fun v => decide (v ∉ nodes)) + 1
        · rw [if_pos (by omega), if_pos hle]
        · rw [if_neg (by omega), if_neg hle, Nat.sub_sub, Nat.add_comm 1]

theorem closestValidators_self (nodes : List N) {leftTillBlock : ℕ} (hpos : 0 < leftTillBlock)
    (hlt : leftTillBlock < 2 ^ 64) : closestValidators nodes none leftTillBlock nodes = some (leftTillBlock, nodes) := by
  have hnone : nodes.countP (fun v => decide (v ∉ nodes)) = 0 :=
    List.countP_eq_zero.mpr fun x hx h => of_decide_eq_true h hx
  have hall : nodes.filter (fun v => v ∈ nodes) = nodes := List.filter_eq_self.mpr fun x hx => decide_eq_true hx
  rw [closestValidators_eq nodes nodes hpos hlt, hnone, if_neg (by omega), hall, Nat.sub_zero]

omit [DecidableEq N] in
theorem closestInnerSets_eq_none_iff (results resInternals : List (List N)) {leftTillBlock : ℕ}
    (hpos : 0 < leftTillBlock) (hlt : leftTillBlock < 2 ^ 64) :
    closestInnerSets leftTillBlock results resInternals = none ↔
      leftTillBlock ≤ results.countP fun r => r.length = 0 := by
  induction results generalizing leftTillBlock resInternals with
  | nil =>
    simp only [closestInnerSets, reduceCtorEq, List.countP_nil, false_iff]
    omega
  | cons r rest ih =>
    rw [closestInnerSets]
    by_cases hr : r.length = 0
    · rw [if_pos hr, sizeDec_of_pos hpos hlt, List.countP_cons_of_pos (by simpa using hr)]
      split_ifs with h0
      · simp only [true_iff]
        omega
      · rw [ih _ (by omega) (by omega)]
        omega
    · rw [if_neg hr, ih _ hpos hlt, List.countP_cons_of_neg (by simpa using hr)]

omit [DecidableEq N] in
theorem closestInnerSets_eq_some {results resInternals sorted : List (List N)} {leftTillBlock left : ℕ}
    (hpos : 0 < leftTillBlock) (hlt : leftTillBlock < 2 ^ 64)
    (hsorted : resInternals.Pairwise fun a b => a.length ≤ b.length)
    (h : closestInnerSets leftTillBlock results resInternals = some (left, sorted)) :
    left = leftTillBlock - results.countP (fun r => r.length = 0) ∧
      sorted.Perm (resInternals ++ results.filter fun r => r.length ≠ 0) ∧
      sorted.Pairwise fun a b => a.length ≤ b.length := by
  induction results generalizing leftTillBlock resInternals with
  | nil =>
    simp only [closestInnerSets, Option.some.injEq, Prod.mk.injEq] at h
    obtain ⟨rfl, rfl⟩ := h
    simp [hsorted]
  | cons r rest ih =>
    rw [closestInnerSets] at h
    by_cases hr : r.length = 0
    · rw [if_pos hr, sizeDec_of_pos hpos hlt] at h
      split_ifs at h with h0
      obtain ⟨hleft, hperm, hs⟩ := ih (by omega) (by omega) hsorted h
      refine ⟨?_, ?_, hs⟩
      · rw [List.countP_cons_of_pos (by simpa using hr)]
        omega
      · rwa [List.filter_cons_of_neg (by simpa using hr)]
    · rw [if_neg hr] at h
      obtain ⟨hleft, hperm, hs⟩ := ih hpos hlt (SmallestSum.pairwise_orderedInsert List.length r resInternals hsorted) h
      refine ⟨?_, ?_, hs⟩
      · rwa [List.countP_cons_of_neg (by simpa using hr)]
      · rw [List.filter_cons_of_pos (by simpa using hr)]
        exact hperm.trans (((List.perm_orderedInsert _ r resInternals).append_right _).trans List.perm_middle.symm)

/-! ## One level of the greedy choice -/

/-- What `findClosestVBlocking` is for: nodes of `nodes` named by the quorum set, which block it
together with its nodes outside `nodes`, and no more of them than of any other set that does. -/
structure ClosestBlocking (qSet : SCPQuorumSet N) (nodes result : List N) : Prop where
  subset_nodes : ∀ x ∈ result, x ∈ nodes
  subset_allNodes : ∀ x ∈ result, x ∈ allNodes qSet
  blocks : isVBlockingInternal qSet (outsideNodes qSet nodes ++ result) = true
  minimal : ∀ X : List N, isVBlockingInternal qSet (outsideNodes qSet nodes ++ X) = true →
    result.length ≤ (allNodes qSet).countP fun x => x ∈ X

/-- What `findClosestVBlocking` returns at a level with `m` entries left to block: the
validators in `nodes` first, then the inner results of `sorted` in order. -/
def levelResult (validators nodes : List N) (sorted : List (List N)) (m : ℕ) : List N :=
  (validators.filter fun v => v ∈ nodes).take m ++
    (sorted.take (m - ((validators.filter fun v => v ∈ nodes).take m).length)).flatten

/-- The cost of each entry `levelResult` can block, in the order it takes them. -/
def levelCosts (validators nodes : List N) (sorted : List (List N)) : List ℕ :=
  (validators.filter fun v => v ∈ nodes).map (fun _ => 1) ++ sorted.map List.length

/-- The costs of the entries a node set `X` pays for at a level, beyond the nodes outside
`nodes`: its validators in `nodes` and in `X`, and the inner sets with a result that it blocks. -/
def paidCosts (validators nodes X : List N) (innerSets : List (SCPQuorumSet N)) (f : SCPQuorumSet N → List N)
    (blocked : SCPQuorumSet N → Bool) : List ℕ :=
  (validators.filter fun v => decide (v ∈ nodes) && decide (v ∈ X)).map (fun _ => 1) ++
    (innerSets.filter fun inner => decide ((f inner).length ≠ 0) && blocked inner).map fun inner => (f inner).length

theorem levelResult_length (validators nodes : List N) (sorted : List (List N)) (m : ℕ) :
    (levelResult validators nodes sorted m).length = ((levelCosts validators nodes sorted).take m).sum := by
  rw [levelResult, levelCosts, List.length_append, List.length_flatten, List.take_append, List.sum_append,
    List.length_map, ← List.map_take, ← List.map_take, List.length_take]
  -- both skip the validators taken, all of them once `m` exceeds their number
  have hskip : m - min m (validators.filter fun v => v ∈ nodes).length = m - (validators.filter fun v => v ∈ nodes).length := by
    omega
  simp only [List.map_const', List.sum_const_nat, List.length_take, Nat.mul_one, hskip]

section Level

variable {qSet : SCPQuorumSet N} {nodes : List N} {f : SCPQuorumSet N → List N} {sorted : List (List N)}
  (hIH : ∀ inner ∈ qSet.innerSets, ClosestBlocking inner nodes (f inner))
  (hperm : sorted.Perm ((qSet.innerSets.map f).filter fun r => r.length ≠ 0))
  (hsorted : sorted.Pairwise fun a b => a.length ≤ b.length)

omit [DecidableEq N] in
include hperm in
theorem mem_sorted {r : List N} (hr : r ∈ sorted) : ∃ inner ∈ qSet.innerSets, f inner = r ∧ r.length ≠ 0 := by
  obtain ⟨hr, hlen⟩ := List.mem_filter.mp (hperm.mem_iff.mp hr)
  obtain ⟨inner, hin, rfl⟩ := List.mem_map.mp hr
  exact ⟨inner, hin, rfl, by simpa using hlen⟩

omit [DecidableEq N] in
include hperm in
theorem sorted_length : sorted.length + (qSet.innerSets.map f).countP (fun r => r.length = 0) = qSet.innerSets.length := by
  have hsplit := List.length_eq_countP_add_countP (fun r : List N => decide (r.length = 0)) (l := qSet.innerSets.map f)
  rw [List.length_map] at hsplit
  rw [hperm.length_eq, ← List.countP_eq_length_filter, hsplit, Nat.add_comm]
  simp

theorem filter_length_add_countP (validators : List N) :
    (validators.filter fun v => v ∈ nodes).length + validators.countP (fun v => decide (v ∉ nodes)) = validators.length := by
  rw [← List.countP_eq_length_filter, List.length_eq_countP_add_countP (fun v => decide (v ∈ nodes))]
  simp

include hIH hperm in
theorem levelResult_subset {m : ℕ} {x : N} (hx : x ∈ levelResult qSet.validators nodes sorted m) :
    x ∈ nodes ∧ x ∈ allNodes qSet := by
  rw [levelResult, List.mem_append, List.mem_flatten] at hx
  rcases hx with hx | ⟨r, hr, hx⟩
  · obtain ⟨hv, hn⟩ := List.mem_filter.mp (List.mem_of_mem_take hx)
    exact ⟨by simpa using hn, by rw [allNodes_eq]; exact List.mem_append_left _ hv⟩
  · obtain ⟨inner, hin, rfl, -⟩ := mem_sorted hperm (List.mem_of_mem_take hr)
    exact ⟨(hIH inner hin).subset_nodes x hx,
      (allNodes_sublist_of_mem_innerSets hin).subset ((hIH inner hin).subset_allNodes x hx)⟩

include hIH hperm in
theorem levelResult_blocks (hrange : ThresholdsInRange qSet) (hsmall : (allNodes qSet).length < 2 ^ 31) {m : ℕ}
    (hm : entriesToBlock qSet ≤ qSet.validators.countP (fun v => decide (v ∉ nodes)) +
      (qSet.innerSets.map f).countP (fun r => r.length = 0) + m) :
    isVBlockingInternal qSet (outsideNodes qSet nodes ++ levelResult qSet.validators nodes sorted m) = true := by
  have hE := (entriesToBlock_le hrange).2
  have hresLen := @filter_length_add_countP _ _ nodes qSet.validators
  have hsortedLen := sorted_length hperm
  -- `res.take m` are the validators the result takes and `taken` its inner results
  set res := qSet.validators.filter fun v => v ∈ nodes with hres
  set taken := sorted.take (m - (res.take m).length) with htaken
  set R := levelResult qSet.validators nodes sorted m with hR
  have hvR : ∀ v ∈ res.take m, v ∈ R := fun v hv => List.mem_append_left _ hv
  have hiR : ∀ r ∈ taken, ∀ x ∈ r, x ∈ R := fun r hr x hx =>
    List.mem_append_right _ (List.mem_flatten.mpr ⟨r, hr, hx⟩)
  have hv : qSet.validators.countP (fun v => decide (v ∉ nodes)) + (res.take m).length ≤
      qSet.validators.countP (fun v => decide (v ∈ outsideNodes qSet nodes ++ R)) := by
    have hdisj : ∀ v ∈ qSet.validators, decide (v ∉ nodes) = true → decide (v ∈ res.take m) = false := by
      intro v _ hv
      simp only [decide_eq_true_eq, decide_eq_false_iff_not] at hv ⊢
      exact fun h => hv (by simpa using (List.mem_filter.mp (List.mem_of_mem_take h)).2)
    have htake : (res.take m).length ≤ qSet.validators.countP (fun v => decide (v ∈ res.take m)) := by
      calc (res.take m).length = (res.take m).countP (fun v => decide (v ∈ res.take m)) :=
            (List.countP_eq_length.mpr fun v hv => by simpa using hv).symm
        _ ≤ _ := ((List.take_sublist m res).trans List.filter_sublist).countP_le
    calc _ ≤ qSet.validators.countP (fun v => decide (v ∉ nodes)) +
          qSet.validators.countP (fun v => decide (v ∈ res.take m)) := Nat.add_le_add_left htake _
      _ = qSet.validators.countP (fun v => decide (v ∉ nodes) || decide (v ∈ res.take m)) :=
          (countP_or_of_disjoint _ _ _ hdisj).symm
      _ ≤ _ := List.countP_mono_left fun v hv h => by
          rw [decide_eq_true_eq, mem_outsideNodes_append (mem_allNodes_of_mem_validators hv)]
          simp only [Bool.or_eq_true, decide_eq_true_eq] at h
          exact h.imp_right (hvR v)
  have hi : (qSet.innerSets.map f).countP (fun r => r.length = 0) + taken.length ≤
      qSet.innerSets.countP (fun inner => isVBlockingInternal inner (outsideNodes qSet nodes ++ R)) := by
    have hdisj : ∀ inner ∈ qSet.innerSets, decide ((f inner).length = 0) = true → decide (f inner ∈ taken) = false := by
      intro inner _ hlen
      simp only [decide_eq_true_eq, decide_eq_false_iff_not] at hlen ⊢
      intro hmem
      obtain ⟨_, _, _, hne⟩ := mem_sorted hperm (List.mem_of_mem_take hmem)
      exact hne hlen
    have htake : taken.length ≤ qSet.innerSets.countP (fun inner => decide (f inner ∈ taken)) := by
      have hsub : taken.Subperm (qSet.innerSets.map f) :=
        ((List.take_sublist _ sorted).subperm.trans hperm.subperm).trans List.filter_sublist.subperm
      calc taken.length = taken.countP (fun r => decide (r ∈ taken)) :=
            (List.countP_eq_length.mpr fun r hr => by simpa using hr).symm
        _ ≤ (qSet.innerSets.map f).countP (fun r => decide (r ∈ taken)) := hsub.countP_le _
        _ = _ := List.countP_map
    rw [List.countP_map]
    calc _ ≤ qSet.innerSets.countP (fun inner => decide ((f inner).length = 0)) +
          qSet.innerSets.countP (fun inner => decide (f inner ∈ taken)) := Nat.add_le_add_left htake _
      _ = qSet.innerSets.countP (fun inner => decide ((f inner).length = 0) || decide (f inner ∈ taken)) :=
          (countP_or_of_disjoint _ _ _ hdisj).symm
      _ ≤ _ := List.countP_mono_left fun inner hin h => by
          have hfR : ∀ x ∈ f inner, x ∈ R := by
            simp only [Bool.or_eq_true, decide_eq_true_eq] at h
            rcases h with h | h
            · simp [List.eq_nil_of_length_eq_zero h]
            · exact hiR _ h
          rw [isVBlockingInternal_outside_inner (allNodes_sublist_of_mem_innerSets hin).subset]
          exact isVBlockingInternal_mono inner
            (fun x _ hx => List.mem_append.mpr ((List.mem_append.mp hx).imp id (hfR x))) (hIH inner hin).blocks
  have htakenLen : taken.length = min (m - min m res.length) sorted.length := by
    rw [htaken, List.length_take, List.length_take]
  rw [isVBlockingInternal_iff_count hrange hsmall]
  rw [List.length_take] at hv
  omega

include hperm hsorted in
theorem levelCosts_pairwise (validators : List N) : (levelCosts validators nodes sorted).Pairwise (· ≤ ·) := by
  rw [levelCosts, List.pairwise_append, List.pairwise_map, List.pairwise_map]
  refine ⟨List.pairwise_of_forall fun _ _ => le_refl 1, hsorted, ?_⟩
  intro a ha b hb
  obtain ⟨_, _, rfl⟩ := List.mem_map.mp ha
  obtain ⟨r, hr, rfl⟩ := List.mem_map.mp hb
  obtain ⟨_, _, _, hne⟩ := mem_sorted hperm hr
  exact Nat.one_le_iff_ne_zero.mpr hne

include hperm in
theorem paidCosts_subperm (X : List N) (blocked : SCPQuorumSet N → Bool) :
    (paidCosts qSet.validators nodes X qSet.innerSets f blocked).Subperm (levelCosts qSet.validators nodes sorted) := by
  rw [paidCosts, levelCosts]
  refine List.Subperm.append (List.Sublist.subperm ?_) ?_
  · exact (List.monotone_filter_right _ fun v h => by simp_all).map _
  · -- the inner results paid for are among the non-empty results, which `sorted` orders
    have hsub : ((qSet.innerSets.filter fun inner => decide ((f inner).length ≠ 0) && blocked inner).map f).Sublist
        ((qSet.innerSets.map f).filter fun r => r.length ≠ 0) := by
      rw [List.filter_map]
      exact (List.monotone_filter_right _ fun inner h => by simp_all).map f
    obtain ⟨l, hl, hls⟩ := hsub.subperm.trans hperm.symm.subperm
    rw [show (fun inner => (f inner).length) = List.length ∘ f from rfl, ← List.map_map]
    exact ⟨l.map List.length, hl.map _, hls.map _⟩

include hIH in
theorem paidCosts_sum_le (X : List N) :
    (paidCosts qSet.validators nodes X qSet.innerSets f
        fun inner => isVBlockingInternal inner (outsideNodes qSet nodes ++ X)).sum ≤
      (allNodes qSet).countP fun x => x ∈ X := by
  rw [paidCosts, List.sum_append, List.map_const', List.sum_const_nat, Nat.mul_one, allNodes_eq,
    List.countP_append, countP_innerNodes]
  apply Nat.add_le_add
  · rw [← List.countP_eq_length_filter]
    exact List.countP_mono_left fun v _ h => by simp_all
  · calc _ ≤ ((qSet.innerSets.filter fun inner => decide ((f inner).length ≠ 0) &&
            isVBlockingInternal inner (outsideNodes qSet nodes ++ X)).map
              fun inner => (allNodes inner).countP fun x => x ∈ X).sum :=
          List.sum_le_sum fun inner hin => ?_
      _ ≤ _ := (List.filter_sublist.map _).sum_le_sum fun _ _ => Nat.zero_le _
    obtain ⟨hin, hblocked⟩ := List.mem_filter.mp hin
    simp only [Bool.and_eq_true] at hblocked
    rw [isVBlockingInternal_outside_inner (allNodes_sublist_of_mem_innerSets hin).subset] at hblocked
    exact (hIH inner hin).minimal X hblocked.2

include hIH hperm hsorted in
theorem levelResult_minimal (hrange : ThresholdsInRange qSet) (hsmall : (allNodes qSet).length < 2 ^ 31) {m : ℕ}
    (hm : qSet.validators.countP (fun v => decide (v ∉ nodes)) +
      (qSet.innerSets.map f).countP (fun r => r.length = 0) + m ≤ entriesToBlock qSet)
    (X : List N) (hblock : isVBlockingInternal qSet (outsideNodes qSet nodes ++ X) = true) :
    (levelResult qSet.validators nodes sorted m).length ≤ (allNodes qSet).countP fun x => x ∈ X := by
  rw [isVBlockingInternal_iff_count hrange hsmall] at hblock
  have hv : qSet.validators.countP (fun v => decide (v ∈ outsideNodes qSet nodes ++ X)) ≤
      qSet.validators.countP (fun v => decide (v ∉ nodes)) +
        qSet.validators.countP (fun v => decide (v ∈ nodes) && decide (v ∈ X)) := by
    rw [← countP_or_of_disjoint _ _ _ fun v _ h => by simp_all]
    refine List.countP_mono_left fun v hv h => ?_
    rw [decide_eq_true_eq, mem_outsideNodes_append (mem_allNodes_of_mem_validators hv)] at h
    by_cases hn : v ∈ nodes <;> simp_all
  have hi : qSet.innerSets.countP (fun inner => isVBlockingInternal inner (outsideNodes qSet nodes ++ X)) ≤
      (qSet.innerSets.map f).countP (fun r => r.length = 0) +
        qSet.innerSets.countP (fun inner => decide ((f inner).length ≠ 0) &&
          isVBlockingInternal inner (outsideNodes qSet nodes ++ X)) := by
    rw [List.countP_map, ← countP_or_of_disjoint _ _ _ fun inner _ h => by simp_all]
    refine List.countP_mono_left fun inner _ h => ?_
    by_cases hlen : (f inner).length = 0 <;> simp_all
  have hcard : m ≤ (paidCosts qSet.validators nodes X qSet.innerSets f
      fun inner => isVBlockingInternal inner (outsideNodes qSet nodes ++ X)).length := by
    rw [paidCosts, List.length_append, List.length_map, List.length_map, ← List.countP_eq_length_filter,
      ← List.countP_eq_length_filter]
    omega
  rw [levelResult_length]
  calc ((levelCosts qSet.validators nodes sorted).take m).sum
      ≤ ((paidCosts qSet.validators nodes X qSet.innerSets f
          fun inner => isVBlockingInternal inner (outsideNodes qSet nodes ++ X) : List ℕ) : Multiset ℕ).sum :=
        SmallestSum.sum_take_le_of_le (levelCosts_pairwise hperm hsorted _)
          (Multiset.coe_le.mpr (paidCosts_subperm hperm X _)) (by simpa using hcard)
    _ = _ := Multiset.sum_coe _
    _ ≤ _ := paidCosts_sum_le hIH X

include hIH hperm hsorted in
theorem closestBlocking_levelResult (hrange : ThresholdsInRange qSet) (hsmall : (allNodes qSet).length < 2 ^ 31)
    {m : ℕ} (hm : qSet.validators.countP (fun v => decide (v ∉ nodes)) +
      (qSet.innerSets.map f).countP (fun r => r.length = 0) + m = entriesToBlock qSet) :
    ClosestBlocking qSet nodes (levelResult qSet.validators nodes sorted m) where
  subset_nodes _ hx := (levelResult_subset hIH hperm hx).1
  subset_allNodes _ hx := (levelResult_subset hIH hperm hx).2
  blocks := levelResult_blocks hIH hperm hrange hsmall hm.ge
  minimal := levelResult_minimal hIH hperm hsorted hrange hsmall hm.le

end Level

theorem levelResult_zero (validators nodes : List N) (sorted : List (List N)) :
    levelResult validators nodes sorted 0 = [] := by
  simp [levelResult]

theorem closestBlocking_nil {qSet : SCPQuorumSet N} {nodes : List N} {f : SCPQuorumSet N → List N}
    (hIH : ∀ inner ∈ qSet.innerSets, ClosestBlocking inner nodes (f inner)) (hrange : ThresholdsInRange qSet)
    (hsmall : (allNodes qSet).length < 2 ^ 31)
    (hm : entriesToBlock qSet ≤ qSet.validators.countP (fun v => decide (v ∉ nodes)) +
      (qSet.innerSets.map f).countP (fun r => r.length = 0)) :
    ClosestBlocking qSet nodes [] where
  subset_nodes _ hx := absurd hx List.not_mem_nil
  subset_allNodes _ hx := absurd hx List.not_mem_nil
  blocks := by
    have hblock := levelResult_blocks hIH (List.Perm.refl _) hrange hsmall (m := 0) hm
    rwa [levelResult_zero] at hblock
  minimal _ _ := Nat.zero_le _

/-! ## The whole quorum set -/

theorem findClosestVBlocking_mk_eq {threshold : uint32} {validators nodes res : List N}
    {innerSets : List (SCPQuorumSet N)} {left left' : ℕ} {sorted : List (List N)}
    (hv : closestValidators nodes none ((1 + validators.length + innerSets.length + 2 ^ 64 - threshold.val) % 2 ^ 64)
      validators = some (left, res))
    (hi : closestInnerSets left (innerSets.map fun inner => findClosestVBlocking inner nodes none) [] =
      some (left', sorted)) :
    findClosestVBlocking ⟨threshold, validators, innerSets⟩ nodes none =
      res.take left' ++ (sorted.take (left' - (res.take left').length)).flatten := by
  rw [findClosestVBlocking]
  dsimp only
  rw [hv]
  dsimp only
  rw [hi]

theorem findClosestVBlocking_closestBlocking (nodes : List N) (qSet : SCPQuorumSet N) :
    ThresholdsInRange qSet → (allNodes qSet).length < 2 ^ 31 →
      ClosestBlocking qSet nodes (findClosestVBlocking qSet nodes none) := by
  induction qSet with
  | mk threshold validators innerSets ih =>
    intro hrange hsmall
    have hE := entriesToBlock_le hrange
    have hentries := (entries_le_allNodes _ hrange).1
    dsimp only at hentries
    have hIH : ∀ inner ∈ innerSets, ClosestBlocking inner nodes (findClosestVBlocking inner nodes none) := by
      obtain ⟨-, -, hinner⟩ := hrange
      exact fun inner hin =>
        ih inner hin (hinner inner hin) (lt_of_le_of_lt (allNodes_sublist_of_mem hin).length_le hsmall)
    -- `leftTillBlock` starts at `entriesToBlock`, with no wrap in `size_t`
    have hleft : (1 + validators.length + innerSets.length + 2 ^ 64 - threshold.val) % 2 ^ 64 =
        entriesToBlock ⟨threshold, validators, innerSets⟩ := by
      dsimp only [entriesToBlock] at hE ⊢
      omega
    rw [findClosestVBlocking]
    dsimp only
    rw [hleft, closestValidators_eq nodes validators hE.1 (by omega)]
    split_ifs with hkv
    · exact closestBlocking_nil hIH hrange hsmall (by dsimp only; omega)
    · dsimp only
      cases hc : closestInnerSets (entriesToBlock ⟨threshold, validators, innerSets⟩ -
          validators.countP (fun v => decide (v ∉ nodes))) (innerSets.map fun inner => findClosestVBlocking inner nodes none) [] with
      | none =>
        have hke := (closestInnerSets_eq_none_iff _ [] (by omega) (by omega)).mp hc
        exact closestBlocking_nil hIH hrange hsmall (by dsimp only; omega)
      | some p =>
        obtain ⟨left, sorted⟩ := p
        have hke : ¬ (entriesToBlock ⟨threshold, validators, innerSets⟩ - validators.countP (fun v => decide (v ∉ nodes)) ≤
            (innerSets.map fun inner => findClosestVBlocking inner nodes none).countP fun r => r.length = 0) := by
          rw [← closestInnerSets_eq_none_iff _ [] (by omega) (by omega), hc]
          exact Option.some_ne_none _
        obtain ⟨hl, hperm, hsorted⟩ := closestInnerSets_eq_some (by omega) (by omega) List.Pairwise.nil hc
        rw [List.nil_append] at hperm
        exact closestBlocking_levelResult hIH hperm hsorted hrange hsmall (by dsimp only; omega)

/-- `findClosestVBlocking` is correct and minimal for a quorum set that names no node twice, has
its thresholds in range and fewer than `2 ^ 31` nodes: what it returns lies in `nodes`, blocks
the set together with the set's nodes outside `nodes`, and no shorter list does. -/
theorem findClosestVBlocking_minimal (qSet : SCPQuorumSet N) (nodes : List N) (hrange : ThresholdsInRange qSet)
    (hnodup : (allNodes qSet).Nodup) (hsmall : (allNodes qSet).length < 2 ^ 31) :
    (∀ x ∈ findClosestVBlocking qSet nodes none, x ∈ nodes) ∧
      isVBlocking qSet (outsideNodes qSet nodes ++ findClosestVBlocking qSet nodes none) = true ∧
      ∀ R' : List N, isVBlocking qSet (outsideNodes qSet nodes ++ R') = true →
        (findClosestVBlocking qSet nodes none).length ≤ R'.length := by
  have hclosest := findClosestVBlocking_closestBlocking nodes qSet hrange hsmall
  refine ⟨hclosest.subset_nodes, hclosest.blocks, fun R' hblock => ?_⟩
  -- no node is named twice, so `R'` holds at least as many entries as the nodes of the set in it
  calc (findClosestVBlocking qSet nodes none).length ≤ (allNodes qSet).countP (fun x => x ∈ R') :=
        hclosest.minimal R' hblock
    _ = ((allNodes qSet).filter fun x => x ∈ R').length := List.countP_eq_length_filter
    _ ≤ R'.length := (hnodup.filter _).length_le_of_subset fun x hx => by simpa using (List.mem_filter.mp hx).2

theorem findClosestVBlocking_minimal_nested :
    ThresholdsInRange nestedQSet ∧ (allNodes nestedQSet).Nodup ∧ (allNodes nestedQSet).length < 2 ^ 31 ∧
      ((∀ x ∈ findClosestVBlocking nestedQSet [0, 1, 2] none, x ∈ [0, 1, 2]) ∧
        isVBlocking nestedQSet (outsideNodes nestedQSet [0, 1, 2] ++ findClosestVBlocking nestedQSet [0, 1, 2] none) = true ∧
        ∀ R' : List ℕ, isVBlocking nestedQSet (outsideNodes nestedQSet [0, 1, 2] ++ R') = true →
          (findClosestVBlocking nestedQSet [0, 1, 2] none).length ≤ R'.length) := by
  have hrange : ThresholdsInRange nestedQSet := by
    refine .mk (by decide) (by decide) fun inner hin => ?_
    rw [List.mem_singleton] at hin
    subst hin
    exact .mk (by decide) (by decide) (by simp)
  have hnodup : (allNodes nestedQSet).Nodup := by decide
  have hsmall : (allNodes nestedQSet).length < 2 ^ 31 := by decide
  exact ⟨hrange, hnodup, hsmall, findClosestVBlocking_minimal nestedQSet [0, 1, 2] hrange hnodup hsmall⟩

def wideQSet : SCPQuorumSet ℕ := ⟨1, List.range (2 ^ 32 + 1), []⟩

/-- With `2 ^ 32 + 1` entries, `isVBlocking` reads `leftTillBlock` through its cast to `int` as
`1`, while `findClosestVBlocking` counts it in `size_t`: one node of `nodes` blocks the set, and
`findClosestVBlocking` returns all `2 ^ 32 + 1` of them. -/
theorem findClosestVBlocking_wide_not_minimal :
    ThresholdsInRange wideQSet ∧ (allNodes wideQSet).Nodup ∧
      isVBlocking wideQSet (outsideNodes wideQSet (List.range (2 ^ 32 + 1)) ++ [0]) = true ∧
      (findClosestVBlocking wideQSet (List.range (2 ^ 32 + 1)) none).length = 2 ^ 32 + 1 := by
  -- the proof keeps `List.range (2 ^ 32 + 1)` symbolic and rewrites only with lemmas over a generic
  -- node type: `simp` would unfold it through `List.range_succ`, and a defeq check across
  -- instances would evaluate it
  refine ⟨.mk (by decide) (by rw [List.length_range, List.length_nil]; decide) fun _ h => absurd h List.not_mem_nil,
    ?_, ?_, ?_⟩
  · rw [wideQSet, allNodes_mk, innerNodes, List.append_nil]
    exact List.nodup_range
  · have hcount : 0 < (List.range (2 ^ 32 + 1)).countP
        fun v => decide (v ∈ outsideNodes ⟨1, List.range (2 ^ 32 + 1), []⟩ (List.range (2 ^ 32 + 1)) ++ [0]) :=
      List.countP_pos_iff.mpr ⟨0, List.mem_range.mpr (by decide),
        decide_eq_true (List.mem_append_right _ (List.mem_singleton_self 0))⟩
    rw [isVBlocking, wideQSet, isVBlockingInternal_iff, List.length_range, List.length_nil, List.countP_nil]
    have hsize : sizeToInt ((1 + (2 ^ 32 + 1) + 0 + 2 ^ 64 - (1 : uint32).val) % 2 ^ 64) = 1 := by decide
    refine ⟨by decide, ?_⟩
    rw [hsize]
    omega
  · have hleft : (1 + (2 ^ 32 + 1) + 0 + 2 ^ 64 - (1 : uint32).val) % 2 ^ 64 = 2 ^ 32 + 1 := by decide
    have hv : closestValidators (List.range (2 ^ 32 + 1)) none
        ((1 + (List.range (2 ^ 32 + 1)).length + ([] : List (SCPQuorumSet ℕ)).length + 2 ^ 64 -
          (1 : uint32).val) % 2 ^ 64) (List.range (2 ^ 32 + 1)) = some (2 ^ 32 + 1, List.range (2 ^ 32 + 1)) := by
      rw [List.length_range, List.length_nil, hleft]
      exact closestValidators_self _ (by decide) (by decide)
    have hi : closestInnerSets (2 ^ 32 + 1) (([] : List (SCPQuorumSet ℕ)).map fun inner =>
        findClosestVBlocking inner (List.range (2 ^ 32 + 1)) none) [] = some (2 ^ 32 + 1, []) := by
      rw [List.map_nil, closestInnerSets]
    rw [wideQSet, findClosestVBlocking_mk_eq hv hi, List.take_nil, List.flatten_nil, List.append_nil,
      List.length_take, List.length_range, Nat.min_self]

end HcnetCore.Scp
