import HcnetCore.Herder.QuorumTracker
import HcnetCore.Library.ShortestPaths
import Mathlib

/-! # `rebuild` is a breadth-first search

The lookup of quorum sets is a directed graph: an edge from `n` to every node its quorum set
names. `rebuild` takes the backlog level by level, so that at level `k` every node nearer than `k`
is expanded, every node at `k` is in the map and, if it has a quorum set, still in the backlog, and
the nodes at `k + 1` found so far have the closest validators of the nodes at `k` expanded so far.
`Rebuilding` states this; each round of the loop keeps it, and an empty front moves it to the next
level. When the backlog is empty the map is the transitive quorum of the local node, with each
node's quorum set, its distance and the first hops of its shortest paths. Each round lowers the
count of rounds left by one, so the loop ends whenever the transitive quorum is finite, as it is
over the finitely many node ids.
-/

namespace HcnetCore.Herder

open Scp ShortestPath

set_option autoImplicit false
set_option linter.unusedSectionVars false

variable {N : Type} [DecidableEq N]

/-- An edge from `n` to `m`: the lookup has a quorum set for `n`, and it names `m` at some level. -/
def qsetEdge (lookup : N → Option (SCPQuorumSet N)) (n m : N) : Prop :=
  ∃ qSet, lookup n = some qSet ∧ m ∈ allNodes qSet

/-- `p` has been expanded with `qSet`, at level `k`. -/
def ExpandedAt (Q : QuorumMap N) (k : ℕ) (p : N) (qSet : SCPQuorumSet N) : Prop :=
  ∃ pinfo, Q p = some pinfo ∧ pinfo.quorumSet = some qSet ∧ pinfo.distance = k

/-- The rounds a node adds to the loop before it is expanded: one per node its quorum set names. -/
def work (lookup : N → Option (SCPQuorumSet N)) (Q : QuorumMap N) (n : N) : ℕ :=
  match (Q n).bind NodeInfo.quorumSet, lookup n with
  | none, some qSet => (allNodes qSet).length
  | _, _ => 0

/-- The rounds the loop has left over a set `R` of nodes that holds the map: one per node of the
backlog, and the rounds the nodes of `R` not yet expanded add. -/
def roundsLeft (lookup : N → Option (SCPQuorumSet N)) (R : Finset N) (Q : QuorumMap N) (backlog : List N) : ℕ :=
  backlog.length + ∑ n ∈ R, work lookup Q n

/-- The map of the transitive quorum of `L` under `lookup`: the nodes reachable from `L`, each with
the quorum set the lookup gives, its distance from `L` and, past `L`, the first hops of its shortest
paths as closest validators; `L` has none. Every node a quorum set of the map names is in it. -/
structure TransitiveQuorum (lookup : N → Option (SCPQuorumSet N)) (L : N) (Q : QuorumMap N) : Prop where
  mem_iff : ∀ n, (Q n).isSome ↔ ∃ j, Walk (qsetEdge lookup) L n j
  quorumSet : ∀ n info, Q n = some info → info.quorumSet = lookup n
  distance : ∀ n info, Q n = some info → IsDist (qsetEdge lookup) L n info.distance
  closest : ∀ n info, Q n = some info → 1 ≤ info.distance →
    ∀ v, v ∈ info.closestValidators ↔ IsDist (qsetEdge lookup) L v 1 ∧ OnShortestPath (qsetEdge lookup) L v n
  closest_local : ∀ info, Q L = some info → info.closestValidators = ∅
  named : ∀ n info qSet m, Q n = some info → info.quorumSet = some qSet → m ∈ allNodes qSet → (Q m).isSome

section Rebuild

variable (lookup : N → Option (SCPQuorumSet N)) (L : N)

/-- The map and the backlog `front ++ back` of `rebuild` at level `k`: `front` holds what is left of
level `k`, `back` what the expansions of level `k` queued. -/
structure Rebuilding (k : ℕ) (Q : QuorumMap N) (front back : List N) : Prop where
  dist : ∀ n info, Q n = some info → IsDist (qsetEdge lookup) L n info.distance ∧ info.distance ≤ k + 1
  complete : ∀ n j, IsDist (qsetEdge lookup) L n j → j ≤ k → (Q n).isSome
  expanded : ∀ n info qSet, Q n = some info → info.quorumSet = some qSet →
    lookup n = some qSet ∧ info.distance ≤ k
  below : ∀ n info, Q n = some info → info.distance < k → info.quorumSet = lookup n
  named : ∀ n info qSet m, Q n = some info → info.quorumSet = some qSet → m ∈ allNodes qSet → (Q m).isSome
  pending : ∀ n info qSet, Q n = some info → info.quorumSet = none → lookup n = some qSet →
    (info.distance = k → n ∈ front) ∧ (info.distance = k + 1 → n ∈ back)
  front_mem : ∀ x ∈ front, ∃ info, Q x = some info ∧ info.distance ≤ k
  back_mem : ∀ x ∈ back, (Q x).isSome
  closest : ∀ n info, Q n = some info → info.distance ≤ k →
    ∀ v, v ∈ info.closestValidators ↔ FirstHop (qsetEdge lookup) L v n
  closest_next : ∀ n info, Q n = some info → info.distance = k + 1 →
    ∀ v, v ∈ info.closestValidators ↔ ∃ p qSet, ExpandedAt Q k p qSet ∧ n ∈ allNodes qSet ∧
      (if k = 0 then v = n else FirstHop (qsetEdge lookup) L v p)

variable {lookup L}

@[simp] theorem localQuorum_self : localQuorum L L = some ⟨none, 0, ∅⟩ := Function.update_self ..

theorem localQuorum_eq_some {n : N} {info : NodeInfo N} (h : localQuorum L n = some info) :
    n = L ∧ info = ⟨none, 0, ∅⟩ := by
  by_cases hn : n = L
  · subst hn
    rw [localQuorum_self, Option.some.injEq] at h
    exact ⟨rfl, h.symm⟩
  · rw [localQuorum, Function.update_of_ne hn] at h
    cases h

theorem rebuilding_localQuorum : Rebuilding lookup L 0 (localQuorum L) [L] [] where
  dist n info h := by
    obtain ⟨rfl, rfl⟩ := localQuorum_eq_some h
    exact ⟨isDist_self n, Nat.zero_le 1⟩
  complete n j hn hj := by
    obtain rfl : j = 0 := by omega
    obtain rfl := isDist_zero_iff.mp hn
    simp
  expanded n info qSet h hq := by
    obtain ⟨rfl, rfl⟩ := localQuorum_eq_some h
    cases hq
  below n info h hk := by
    obtain ⟨rfl, rfl⟩ := localQuorum_eq_some h
    cases hk
  named n info qSet m h hq := by
    obtain ⟨rfl, rfl⟩ := localQuorum_eq_some h
    cases hq
  pending n info qSet h _ _ := by
    obtain ⟨rfl, rfl⟩ := localQuorum_eq_some h
    exact ⟨fun _ => List.mem_singleton_self n, fun h1 => absurd h1 (by simp)⟩
  front_mem x hx := by
    obtain rfl := List.mem_singleton.mp hx
    exact ⟨_, localQuorum_self, Nat.zero_le 0⟩
  back_mem x hx := by cases hx
  closest n info h _ v := by
    obtain ⟨rfl, rfl⟩ := localQuorum_eq_some h
    simp only [Finset.notMem_empty, false_iff]
    exact not_firstHop_self n v
  closest_next n info h hk := by
    obtain ⟨rfl, rfl⟩ := localQuorum_eq_some h
    cases hk

variable {k : ℕ} {Q : QuorumMap N} {front back : List N} {x : N}

theorem Rebuilding.exists_expanded_pred (hR : Rebuilding lookup L k Q [] back) {p n : N}
    (hp : IsDist (qsetEdge lookup) L p k) (hpn : qsetEdge lookup p n) :
    ∃ qSet, ExpandedAt Q k p qSet ∧ n ∈ allNodes qSet := by
  obtain ⟨qSet, hlookup, hn⟩ := hpn
  obtain ⟨pinfo, hpinfo⟩ := Option.isSome_iff_exists.mp (hR.complete p k hp le_rfl)
  have hdist : pinfo.distance = k := ((hR.dist p pinfo hpinfo).1.unique hp)
  cases hq : pinfo.quorumSet with
  | none => exact absurd ((hR.pending p pinfo qSet hpinfo hq hlookup).1 hdist) List.not_mem_nil
  | some recorded =>
    obtain ⟨hrec, _⟩ := hR.expanded p pinfo recorded hpinfo hq
    rw [hlookup, Option.some.injEq] at hrec
    subst hrec
    exact ⟨_, ⟨pinfo, hpinfo, hq, hdist⟩, hn⟩

theorem Rebuilding.next_level (hR : Rebuilding lookup L k Q [] back) : Rebuilding lookup L (k + 1) Q back [] where
  dist n info h := ⟨(hR.dist n info h).1, by have := (hR.dist n info h).2; omega⟩
  complete n j hn hj := by
    rcases Nat.lt_or_ge j (k + 1) with hlt | hge
    · exact hR.complete n j hn (by omega)
    · -- at level `k + 1`, named by the expanded predecessor
      obtain rfl : j = k + 1 := by omega
      obtain ⟨p, hp, hpn⟩ := hn.exists_pred
      obtain ⟨qSet, ⟨pinfo, hpinfo, hq, _⟩, hmem⟩ := hR.exists_expanded_pred hp hpn
      exact hR.named p pinfo qSet n hpinfo hq hmem
  expanded n info qSet h hq := by
    obtain ⟨hlookup, hle⟩ := hR.expanded n info qSet h hq
    exact ⟨hlookup, by omega⟩
  below n info h hk := by
    rcases Nat.lt_or_ge info.distance k with hlt | hge
    · exact hR.below n info h hlt
    · -- at level `k`, a node not expanded would still be in the front
      cases hq : info.quorumSet with
      | some qSet => exact (hR.expanded n info qSet h hq).1.symm
      | none =>
        cases hlookup : lookup n with
        | none => rfl
        | some qSet => exact absurd ((hR.pending n info qSet h hq hlookup).1 (by omega)) List.not_mem_nil
  named := hR.named
  pending n info qSet h hq hlookup := by
    refine ⟨fun hk => (hR.pending n info qSet h hq hlookup).2 hk, fun hk => ?_⟩
    have := (hR.dist n info h).2
    omega
  front_mem x hx := by
    obtain ⟨info, hinfo⟩ := Option.isSome_iff_exists.mp (hR.back_mem x hx)
    exact ⟨info, hinfo, (hR.dist x info hinfo).2⟩
  back_mem x hx := by cases hx
  closest n info h hk v := by
    rcases Nat.lt_or_ge info.distance (k + 1) with hlt | hge
    · exact hR.closest n info h (by omega) v
    · -- at level `k + 1` every predecessor at level `k` has been expanded
      have hdist : info.distance = k + 1 := by omega
      have hn : IsDist (qsetEdge lookup) L n (k + 1) := hdist ▸ (hR.dist n info h).1
      rw [hR.closest_next n info h hdist v, firstHop_iff_of_isDist_succ hn]
      constructor
      · rintro ⟨p, qSet, ⟨pinfo, hpinfo, hq, hpdist⟩, hmem, hhop⟩
        have hlookup := (hR.expanded p pinfo qSet hpinfo hq).1
        exact ⟨p, hpdist ▸ (hR.dist p pinfo hpinfo).1, ⟨qSet, hlookup, hmem⟩, hhop⟩
      · rintro ⟨p, hp, hpn, hhop⟩
        obtain ⟨qSet, hexp, hmem⟩ := hR.exists_expanded_pred hp hpn
        exact ⟨p, qSet, hexp, hmem, hhop⟩
  closest_next n info h hk := by
    have := (hR.dist n info h).2
    omega

theorem Rebuilding.pop (hR : Rebuilding lookup L k Q (x :: front) back) {info : NodeInfo N}
    (hx : Q x = some info) (hdone : info.quorumSet.isSome ∨ lookup x = none) :
    Rebuilding lookup L k Q front back where
  dist := hR.dist
  complete := hR.complete
  expanded := hR.expanded
  below := hR.below
  named := hR.named
  pending n ninfo qSet h hq hlookup := by
    obtain ⟨hfront, hback⟩ := hR.pending n ninfo qSet h hq hlookup
    refine ⟨fun hk => ?_, hback⟩
    rcases List.mem_cons.mp (hfront hk) with rfl | hmem
    · -- the node popped is the one that is still to expand: impossible
      rw [hx, Option.some.injEq] at h
      subst h
      simp [hq, hlookup] at hdone
    · exact hmem
  front_mem y hy := hR.front_mem y (List.mem_cons_of_mem x hy)
  back_mem := hR.back_mem
  closest := hR.closest
  closest_next := hR.closest_next

/-! ## One expansion -/

/-- The map `expand` leaves: `x` takes its quorum set, and each node the set names is visited one
edge further than `x`. -/
def expandedMap (Q : QuorumMap N) (x : N) (info : NodeInfo N) (qSet : SCPQuorumSet N) : QuorumMap N :=
  fun m =>
    if m ∈ allNodes qSet then
      visit (info.distance + 1) info.closestValidators m
        (Function.update Q x (some { info with quorumSet := some qSet }) m)
    else Function.update Q x (some { info with quorumSet := some qSet }) m

section Expanded

variable {info : NodeInfo N} {qSet : SCPQuorumSet N}

theorem expandedMap_self : expandedMap Q x info qSet x = some { info with quorumSet := some qSet } := by
  unfold expandedMap
  split_ifs
  · simp [visit]
  · exact Function.update_self ..

theorem expandedMap_of_lt {m : N} {im : NodeInfo N} (hne : m ≠ x) (hm : Q m = some im)
    (hlt : im.distance < info.distance + 1) : expandedMap Q x info qSet m = some im := by
  unfold expandedMap
  rw [Function.update_of_ne hne, hm]
  split_ifs
  · simp [visit, hlt]
  · rfl

theorem expandedMap_isSome {m : N} (h : (Q m).isSome ∨ m ∈ allNodes qSet) :
    (expandedMap Q x info qSet m).isSome := by
  by_cases hm : m = x
  · subst hm
    rw [expandedMap_self]
    rfl
  · unfold expandedMap
    rw [Function.update_of_ne hm]
    split_ifs with hmem
    · cases Q m with
      | none => rfl
      | some im =>
        simp only [visit]
        split_ifs <;> rfl
    · simpa [hmem] using h

theorem visit_bind_quorumSet (newDist : ℕ) (closest : Finset N) (m : N) (o : Option (NodeInfo N)) :
    (visit newDist closest m o).bind NodeInfo.quorumSet = o.bind NodeInfo.quorumSet := by
  cases o with
  | none => simp [visit]
  | some im =>
    simp only [visit]
    split_ifs <;> simp

theorem expandedMap_bind_quorumSet {m : N} (hne : m ≠ x) :
    (expandedMap Q x info qSet m).bind NodeInfo.quorumSet = (Q m).bind NodeInfo.quorumSet := by
  unfold expandedMap
  rw [Function.update_of_ne hne]
  split_ifs
  · exact visit_bind_quorumSet _ _ _ _
  · rfl

theorem expandedMap_cases (hopen : ∀ m ∈ allNodes qSet, m ≠ x → OpenAt (info.distance + 1) Q m)
    {m : N} {info' : NodeInfo N} (h : expandedMap Q x info qSet m = some info') :
    (m = x ∧ info' = { info with quorumSet := some qSet }) ∨
    (m ≠ x ∧ Q m = some info' ∧ (m ∈ allNodes qSet → info'.distance ≤ info.distance)) ∨
    (m ≠ x ∧ m ∈ allNodes qSet ∧ info'.quorumSet = none ∧ info'.distance = info.distance + 1 ∧
      (∀ im, Q m = some im → im.quorumSet = none ∧ im.distance = info.distance + 1) ∧
      ∀ v, v ∈ info'.closestValidators ↔ (∃ im, Q m = some im ∧ v ∈ im.closestValidators) ∨
        (if info.distance = 0 then v = m else v ∈ info.closestValidators)) := by
  by_cases hm : m = x
  · subst hm
    rw [expandedMap_self, Option.some.injEq] at h
    exact .inl ⟨rfl, h.symm⟩
  unfold expandedMap at h
  rw [Function.update_of_ne hm] at h
  split_ifs at h with hmem
  · cases hq : Q m with
    | none =>
      -- a node first named here
      rw [hq] at h
      simp only [visit, Option.some.injEq] at h
      subst h
      refine .inr (.inr ⟨hm, hmem, by simp, by simp, by simp, fun v => ?_⟩)
      simp only [mem_addClosest, Nat.add_eq_right]
      simp
    | some im =>
      rw [hq] at h
      simp only [visit] at h
      split_ifs at h with hlt
      · -- a nearer node is left alone
        rw [Option.some.injEq] at h
        subst h
        exact .inr (.inl ⟨hm, rfl, fun _ => by omega⟩)
      · -- a node as far: its closest validators gain those of `x`
        rw [Option.some.injEq] at h
        subst h
        obtain ⟨hnone, hdist⟩ := hopen m hmem hm im hq (by omega)
        refine .inr (.inr ⟨hm, hmem, by simpa using hnone, by simpa using hdist,
          fun im' him' => ?_, fun v => ?_⟩)
        · rw [Option.some.injEq] at him'
          subst him'
          exact ⟨hnone, hdist⟩
        · simp only [mem_addClosest, Nat.add_eq_right]
          simp
  · exact .inr (.inl ⟨hm, h, fun hmem' => absurd hmem' hmem⟩)

end Expanded

/-! ## One round -/

section Round

variable {info : NodeInfo N} {qSet : SCPQuorumSet N}

theorem Rebuilding.distance_of_front (hR : Rebuilding lookup L k Q (x :: front) back) (hx : Q x = some info)
    (hnone : info.quorumSet = none) (hlookup : lookup x = some qSet) : info.distance = k := by
  obtain ⟨info', hx', hle⟩ := hR.front_mem x List.mem_cons_self
  rw [hx, Option.some.injEq] at hx'
  subst hx'
  rcases Nat.lt_or_ge info.distance k with hlt | hge
  · have hbelow := hR.below x info hx hlt
    rw [hnone, hlookup] at hbelow
    cases hbelow
  · omega

theorem Rebuilding.openAt (hR : Rebuilding lookup L k Q front back) (m : N) : OpenAt (k + 1) Q m := by
  intro im hm hle
  have hdist := (hR.dist m im hm).2
  cases hq : im.quorumSet with
  | none => exact ⟨rfl, by omega⟩
  | some q =>
    have hexp := (hR.expanded m im q hm hq).2
    omega

theorem Rebuilding.expandedAt_expandedMap_iff (hR : Rebuilding lookup L k Q front back) (hx : Q x = some info)
    (hnone : info.quorumSet = none) (hk : info.distance = k) {p : N} {q : SCPQuorumSet N} :
    ExpandedAt (expandedMap Q x info qSet) k p q ↔ ExpandedAt Q k p q ∨ (p = x ∧ q = qSet) := by
  have hopen : ∀ m ∈ allNodes qSet, m ≠ x → OpenAt (info.distance + 1) Q m := by
    intro m _ _
    rw [hk]
    exact hR.openAt m
  constructor
  · rintro ⟨pinfo, hp, hq, hd⟩
    rcases expandedMap_cases hopen hp with ⟨rfl, rfl⟩ | ⟨_, hQp, _⟩ | ⟨_, _, hnone', _⟩
    · simp only [Option.some.injEq] at hq
      exact .inr ⟨rfl, hq.symm⟩
    · exact .inl ⟨pinfo, hQp, hq, hd⟩
    · rw [hnone'] at hq
      cases hq
  · rintro (⟨pinfo, hp, hq, hd⟩ | ⟨rfl, rfl⟩)
    · have hne : p ≠ x := by
        rintro rfl
        rw [hx, Option.some.injEq] at hp
        subst hp
        rw [hnone] at hq
        cases hq
      exact ⟨pinfo, expandedMap_of_lt hne hp (by omega), hq, hd⟩
    · exact ⟨_, expandedMap_self, rfl, hk⟩

theorem Rebuilding.expand_round (hR : Rebuilding lookup L k Q (x :: front) back) (hx : Q x = some info)
    (hnone : info.quorumSet = none) (hlookup : lookup x = some qSet) :
    Rebuilding lookup L k (expandedMap Q x info qSet) front (back ++ allNodes qSet) := by
  have hk := hR.distance_of_front hx hnone hlookup
  have hopen : ∀ m ∈ allNodes qSet, m ≠ x → OpenAt (info.distance + 1) Q m := by
    intro m _ _
    rw [hk]
    exact hR.openAt m
  have hxdist : IsDist (qsetEdge lookup) L x k := hk ▸ (hR.dist x info hx).1
  -- an entry of the map stays, at its distance
  have hkeep : ∀ m im, Q m = some im →
      ∃ im', expandedMap Q x info qSet m = some im' ∧ im'.distance = im.distance := by
    intro m im hm
    have hsome : (expandedMap Q x info qSet m).isSome :=
      expandedMap_isSome (Or.inl (Option.isSome_iff_exists.mpr ⟨im, hm⟩))
    obtain ⟨im', him'⟩ := Option.isSome_iff_exists.mp hsome
    refine ⟨im', him', ?_⟩
    rcases expandedMap_cases hopen him' with ⟨rfl, rfl⟩ | ⟨_, hQm, _⟩ | ⟨_, _, _, hd, hold, _⟩
    · rw [hx, Option.some.injEq] at hm
      subst hm
      rfl
    · rw [hm, Option.some.injEq] at hQm
      rw [hQm]
    · rw [hd, (hold im hm).2]
  -- a node first named here is at level `k + 1`
  have hnamed : ∀ n ∈ allNodes qSet, (∀ im, Q n = some im → im.distance = k + 1) →
      IsDist (qsetEdge lookup) L n (k + 1) := by
    intro n hmem hfar
    obtain ⟨j, hj⟩ := exists_isDist (hxdist.walk.tail ⟨qSet, hlookup, hmem⟩)
    have hle : j ≤ k + 1 := hj.le (hxdist.walk.tail ⟨qSet, hlookup, hmem⟩)
    rcases Nat.lt_or_ge j (k + 1) with hlt | hge
    · obtain ⟨im, him⟩ := Option.isSome_iff_exists.mp (hR.complete n j hj (by omega))
      have hd := hfar im him
      have hj' := (hR.dist n im him).1.unique hj
      omega
    · rwa [show j = k + 1 by omega] at hj
  refine
    { dist := ?dist, complete := ?complete, expanded := ?expanded, below := ?below, named := ?named,
      pending := ?pending, front_mem := ?front_mem, back_mem := ?back_mem, closest := ?closest,
      closest_next := ?closest_next }
  case dist =>
    intro n info' h
    rcases expandedMap_cases hopen h with ⟨rfl, rfl⟩ | ⟨_, hQn, _⟩ | ⟨_, hmem, _, hd, hold, _⟩
    · exact ⟨hk ▸ hxdist, by simp [hk]⟩
    · exact hR.dist n info' hQn
    · rw [hd, hk]
      exact ⟨hnamed n hmem fun im him => hk ▸ (hold im him).2, le_rfl⟩
  case complete =>
    intro n j hn hj
    exact expandedMap_isSome (Or.inl (hR.complete n j hn hj))
  case expanded =>
    intro n info' q h hq
    rcases expandedMap_cases hopen h with ⟨rfl, rfl⟩ | ⟨_, hQn, _⟩ | ⟨_, _, hnone', _⟩
    · simp only [Option.some.injEq] at hq
      exact ⟨hq ▸ hlookup, hk.le⟩
    · exact hR.expanded n info' q hQn hq
    · rw [hnone'] at hq
      cases hq
  case below =>
    intro n info' h hlt
    rcases expandedMap_cases hopen h with ⟨rfl, rfl⟩ | ⟨_, hQn, _⟩ | ⟨_, _, _, hd, _⟩
    · exact absurd hlt (by simp [hk])
    · exact hR.below n info' hQn hlt
    · omega
  case named =>
    intro n info' q m h hq hm
    rcases expandedMap_cases hopen h with ⟨rfl, rfl⟩ | ⟨_, hQn, _⟩ | ⟨_, _, hnone', _⟩
    · simp only [Option.some.injEq] at hq
      subst hq
      exact expandedMap_isSome (Or.inr hm)
    · exact expandedMap_isSome (Or.inl (hR.named n info' q m hQn hq hm))
    · rw [hnone'] at hq
      cases hq
  case pending =>
    intro n info' q h hq hl
    rcases expandedMap_cases hopen h with ⟨rfl, rfl⟩ | ⟨hne, hQn, _⟩ | ⟨_, hmem, _, hd, _⟩
    · cases hq
    · obtain ⟨hfront, hback⟩ := hR.pending n info' q hQn hq hl
      refine ⟨fun hdk => ?_, fun hdk => List.mem_append_left _ (hback hdk)⟩
      rcases List.mem_cons.mp (hfront hdk) with rfl | hmem
      · exact absurd rfl hne
      · exact hmem
    · exact ⟨fun hdk => by omega, fun _ => List.mem_append_right _ hmem⟩
  case front_mem =>
    intro y hy
    obtain ⟨iy, hiy, hle⟩ := hR.front_mem y (List.mem_cons_of_mem x hy)
    obtain ⟨iy', hiy', hd⟩ := hkeep y iy hiy
    exact ⟨iy', hiy', hd ▸ hle⟩
  case back_mem =>
    intro y hy
    rcases List.mem_append.mp hy with hback | hmem
    · exact expandedMap_isSome (Or.inl (hR.back_mem y hback))
    · exact expandedMap_isSome (Or.inr hmem)
  case closest =>
    intro n info' h hle v
    rcases expandedMap_cases hopen h with ⟨rfl, rfl⟩ | ⟨_, hQn, _⟩ | ⟨_, _, _, hd, _⟩
    · exact hR.closest n info hx hk.le v
    · exact hR.closest n info' hQn hle v
    · omega
  case closest_next =>
    intro n info' h hd v
    simp only [hR.expandedAt_expandedMap_iff hx hnone hk]
    rcases expandedMap_cases hopen h with ⟨rfl, rfl⟩ | ⟨_, hQn, hnear⟩ | ⟨_, hmem, _, _, hold, hmemv⟩
    · exact absurd hd (by simp [hk])
    · -- a node at level `k + 1` that `x` does not name keeps its closest validators
      have hnot : n ∉ allNodes qSet := fun hmem => by
        have := hnear hmem
        omega
      rw [hR.closest_next n info' hQn hd v]
      constructor
      · rintro ⟨p, q, hexp, hmem, hhop⟩
        exact ⟨p, q, .inl hexp, hmem, hhop⟩
      · rintro ⟨p, q, hexp | ⟨rfl, rfl⟩, hmem, hhop⟩
        · exact ⟨p, q, hexp, hmem, hhop⟩
        · exact absurd hmem hnot
    · -- a node `x` names gains the closest validators of `x`
      have hxhop : (if info.distance = 0 then v = n else v ∈ info.closestValidators) ↔
          (if k = 0 then v = n else FirstHop (qsetEdge lookup) L v x) := by
        rw [hk]
        split_ifs
        · rfl
        · exact hR.closest x info hx hk.le v
      have hbefore : (∃ im, Q n = some im ∧ v ∈ im.closestValidators) ↔
          ∃ p q, ExpandedAt Q k p q ∧ n ∈ allNodes q ∧ (if k = 0 then v = n else FirstHop (qsetEdge lookup) L v p) := by
        cases hQn : Q n with
        | none =>
          -- nothing expanded names a node not yet in the map
          simp only [reduceCtorEq, false_and, exists_false, false_iff, not_exists, not_and]
          rintro p q ⟨pinfo, hp, hq, _⟩ hmem' _
          have hsome := hR.named p pinfo q n hp hq hmem'
          rw [hQn] at hsome
          cases hsome
        | some im =>
          simp only [Option.some.injEq, exists_eq_left']
          exact hR.closest_next n im hQn (hk ▸ (hold im hQn).2) v
      rw [hmemv, hbefore, hxhop]
      constructor
      · rintro (⟨p, q, hexp, hmem', hhop⟩ | hhop)
        · exact ⟨p, q, .inl hexp, hmem', hhop⟩
        · exact ⟨x, qSet, .inr ⟨rfl, rfl⟩, hmem, hhop⟩
      · rintro ⟨p, q, hexp | ⟨rfl, rfl⟩, hmem', hhop⟩
        · exact .inl ⟨p, q, hexp, hmem', hhop⟩
        · exact .inr hhop

theorem Rebuilding.round (hR : Rebuilding lookup L k Q (x :: front) back) (fuel : ℕ) :
    ∃ Q' back', rebuildLoop lookup (fuel + 1) (x :: (front ++ back)) Q = rebuildLoop lookup fuel (front ++ back') Q' ∧
      Rebuilding lookup L k Q' front back' ∧
      ∀ R : Finset N, (∀ n, (Q n).isSome → n ∈ R) →
        roundsLeft lookup R Q' (front ++ back') + 1 = roundsLeft lookup R Q (x :: (front ++ back)) := by
  obtain ⟨info, hx, _⟩ := hR.front_mem x List.mem_cons_self
  -- a round that only pops its node
  have hpop : info.quorumSet.isSome ∨ lookup x = none →
      rebuildLoop lookup (fuel + 1) (x :: (front ++ back)) Q = rebuildLoop lookup fuel (front ++ back) Q := by
    intro hdone
    rw [rebuildLoop, hx]
    rcases hdone with hsome | hnone
    · obtain ⟨q, hq⟩ := Option.isSome_iff_exists.mp hsome
      simp only [hq]
    · simp only [hnone]
      split
      · rename_i hsome
        cases hsome
      · rfl
  by_cases hdone : info.quorumSet.isSome ∨ lookup x = none
  · refine ⟨Q, back, hpop hdone, hR.pop hx hdone, fun R _ => ?_⟩
    simp only [roundsLeft, List.length_cons]
    omega
  · obtain ⟨hnone, qSet, hl⟩ : info.quorumSet = none ∧ ∃ qSet, lookup x = some qSet := by
      simp only [not_or, Option.not_isSome_iff_eq_none] at hdone
      exact ⟨hdone.1, Option.ne_none_iff_exists'.mp hdone.2⟩
    have hk := hR.distance_of_front hx hnone hl
    have hexp : expand x qSet Q = (true, expandedMap Q x info qSet) :=
      expand_eq hx hnone fun m _ _ => by rw [hk]; exact hR.openAt m
    refine ⟨expandedMap Q x info qSet, back ++ allNodes qSet, ?_, hR.expand_round hx hnone hl, fun R hRQ => ?_⟩
    · simp only [rebuildLoop, hx, hnone, hl, hexp, if_true, List.append_assoc]
    · -- the expanded node's rounds move into the backlog, less the round just run
      have hxR : x ∈ R := hRQ x (by simp [hx])
      have hwork : ∀ n ∈ R.erase x, work lookup (expandedMap Q x info qSet) n = work lookup Q n := by
        intro n hn
        unfold work
        rw [expandedMap_bind_quorumSet (Finset.ne_of_mem_erase hn)]
      have hworkx : work lookup Q x = (allNodes qSet).length := by
        simp only [work, hx, Option.bind_some, hnone, hl]
      have hworkx' : work lookup (expandedMap Q x info qSet) x = 0 := by
        simp only [work, expandedMap_self, Option.bind_some]
      have hsum : ∑ n ∈ R.erase x, work lookup (expandedMap Q x info qSet) n = ∑ n ∈ R.erase x, work lookup Q n :=
        Finset.sum_congr rfl hwork
      simp only [roundsLeft, List.length_append, List.length_cons]
      rw [← Finset.add_sum_erase R _ hxR, ← Finset.add_sum_erase R _ hxR, hsum, hworkx, hworkx']
      omega

end Round

/-! ## The whole loop -/

theorem Rebuilding.exists_front (hR : Rebuilding lookup L k Q front back) :
    front ++ back = [] ∨ ∃ k' y front' back', front ++ back = y :: (front' ++ back') ∧
      Rebuilding lookup L k' Q (y :: front') back' := by
  cases front with
  | cons y front' => exact .inr ⟨k, y, front', back, rfl, hR⟩
  | nil =>
    cases back with
    | nil => exact .inl rfl
    | cons y back' => exact .inr ⟨k + 1, y, back', [], by simp, hR.next_level⟩

theorem Rebuilding.transitiveQuorum (hR : Rebuilding lookup L k Q [] []) : TransitiveQuorum lookup L Q := by
  have hR' := hR.next_level
  have hkey : ∀ n j, IsDist (qsetEdge lookup) L n j → j ≤ k + 1 → (Q n).isSome :=
    fun n j hn hj => hR'.complete n j hn hj
  -- no node lies at level `k + 2`: its predecessor at `k + 1` would still be to expand
  have hfar : ∀ n, ¬IsDist (qsetEdge lookup) L n (k + 2) := by
    intro n hn
    obtain ⟨p, hp, q, hlp, _⟩ := hn.exists_pred
    obtain ⟨pinfo, hpinfo⟩ := Option.isSome_iff_exists.mp (hkey p (k + 1) hp le_rfl)
    have hpd : pinfo.distance = k + 1 := (hR.dist p pinfo hpinfo).1.unique hp
    cases hq : pinfo.quorumSet with
    | none => exact absurd ((hR.pending p pinfo q hpinfo hq hlp).2 hpd) List.not_mem_nil
    | some q' =>
      have := (hR.expanded p pinfo q' hpinfo hq).2
      omega
  refine ⟨fun n => ⟨fun h => ?_, fun ⟨j, hw⟩ => ?_⟩, fun n info h => ?_, fun n info h => (hR.dist n info h).1,
    fun n info h _ v => hR'.closest n info h (hR.dist n info h).2 v, fun info h => ?_, hR.named⟩
  · obtain ⟨info, hinfo⟩ := Option.isSome_iff_exists.mp h
    exact ⟨_, (hR.dist n info hinfo).1.walk⟩
  · obtain ⟨d, hd⟩ := exists_isDist hw
    rcases Nat.lt_or_ge d (k + 2) with hlt | hge
    · exact hkey n d hd (by omega)
    · obtain ⟨m, hm⟩ := hd.exists_of_le hge
      exact absurd hm (hfar m)
  · -- a node not expanded has no quorum set: it would still be in the backlog
    rcases Nat.lt_or_ge info.distance k with hlt | hge
    · exact hR.below n info h hlt
    · cases hq : info.quorumSet with
      | some q => exact (hR.expanded n info q h hq).1.symm
      | none =>
        cases hl : lookup n with
        | none => rfl
        | some q =>
          have hpend := hR.pending n info q h hq hl
          have hle := (hR.dist n info h).2
          rcases Nat.lt_or_ge info.distance (k + 1) with hlt' | hge'
          · exact absurd (hpend.1 (by omega)) List.not_mem_nil
          · exact absurd (hpend.2 (by omega)) List.not_mem_nil
  · -- the local node is at distance zero, and has no first hop
    have hzero : info.distance = 0 := ((hR.dist L info h).1.unique (isDist_self L))
    refine Finset.eq_empty_of_forall_notMem fun v hv => ?_
    exact not_firstHop_self L v ((hR'.closest L info h (by omega) v).mp hv)

theorem rebuildLoop_of_rebuilding : ∀ (fuel k : ℕ) (Q : QuorumMap N) (front back : List N),
    Rebuilding lookup L k Q front back →
      (∀ e, rebuildLoop lookup fuel (front ++ back) Q = .error e → e = "rebuild does not end") ∧
      (∀ Q', rebuildLoop lookup fuel (front ++ back) Q = .ok Q' → TransitiveQuorum lookup L Q') := by
  intro fuel
  induction fuel with
  | zero =>
    intro k Q front back hR
    rcases hR.exists_front with hnil | ⟨k', y, front', back', hcons, _⟩
    · have hempty : front = [] ∧ back = [] := List.append_eq_nil_iff.mp hnil
      obtain ⟨rfl, rfl⟩ := hempty
      refine ⟨fun e he => ?_, fun Q' hQ' => ?_⟩
      · cases he
      · cases hQ'
        exact hR.transitiveQuorum
    · rw [hcons]
      refine ⟨fun e he => ?_, fun Q' hQ' => ?_⟩
      · cases he
        rfl
      · cases hQ'
  | succ fuel ih =>
    intro k Q front back hR
    rcases hR.exists_front with hnil | ⟨k', y, front', back', hcons, hR'⟩
    · have hempty : front = [] ∧ back = [] := List.append_eq_nil_iff.mp hnil
      obtain ⟨rfl, rfl⟩ := hempty
      refine ⟨fun e he => ?_, fun Q' hQ' => ?_⟩
      · cases he
      · cases hQ'
        exact hR.transitiveQuorum
    · obtain ⟨Q₁, back₁, hloop, hR₁, _⟩ := hR'.round fuel
      rw [hcons, hloop]
      exact ih k' Q₁ front' back₁ hR₁

theorem rebuildLoop_isOk (R : Finset N) (hreach : ∀ n j, Walk (qsetEdge lookup) L n j → n ∈ R) :
    ∀ (fuel k : ℕ) (Q : QuorumMap N) (front back : List N), Rebuilding lookup L k Q front back →
      roundsLeft lookup R Q (front ++ back) ≤ fuel → ∃ Q', rebuildLoop lookup fuel (front ++ back) Q = .ok Q' := by
  intro fuel
  induction fuel with
  | zero =>
    intro k Q front back hR hfuel
    rcases hR.exists_front with hnil | ⟨k', y, front', back', hcons, _⟩
    · rw [hnil]
      exact ⟨Q, by simp only [rebuildLoop]; rfl⟩
    · simp only [roundsLeft, hcons, List.length_cons] at hfuel
      omega
  | succ fuel ih =>
    intro k Q front back hR hfuel
    rcases hR.exists_front with hnil | ⟨k', y, front', back', hcons, hR'⟩
    · rw [hnil]
      exact ⟨Q, by simp only [rebuildLoop]; rfl⟩
    · obtain ⟨Q₁, back₁, hloop, hR₁, hrounds⟩ := hR'.round fuel
      -- the nodes of the map are reachable, hence in `R`
      have hcount := hrounds R fun n hn => by
        obtain ⟨info, hinfo⟩ := Option.isSome_iff_exists.mp hn
        exact hreach n _ (hR.dist n info hinfo).1.walk
      rw [hcons] at hfuel ⊢
      rw [hloop]
      exact ih k' Q₁ front' back₁ hR₁ (by omega)

end Rebuild

/-- `rebuild` computes the breadth-first closure of the transitive quorum, for every local node and
every lookup. It never throws: only running out of fuel, which stands for a loop that does not end,
fails. It ends whenever the transitive quorum is finite, as it is over the finitely many node ids.
The map it returns holds exactly the nodes reachable from the local node, each with the lookup's
quorum set, its distance and, past the local node, the first hops of its shortest paths as its
closest validators; the local node has none, and every node a quorum set of the map names is in
it. -/
theorem rebuild_transitiveQuorum (self : QuorumTracker N) (lookup : N → Option (SCPQuorumSet N)) :
    (∀ fuel e, rebuild lookup fuel self = .error e → e = "rebuild does not end") ∧
    ({n | ∃ j, Walk (qsetEdge lookup) self.localNodeID n j}.Finite →
      ∃ fuel t, rebuild lookup fuel self = .ok t) ∧
    ∀ fuel t, rebuild lookup fuel self = .ok t → TransitiveQuorum lookup self.localNodeID (getQuorum t) := by
  have hinit : Rebuilding lookup self.localNodeID 0 (localQuorum self.localNodeID) [self.localNodeID] [] :=
    rebuilding_localQuorum
  have hloop := fun fuel => rebuildLoop_of_rebuilding fuel 0 _ [self.localNodeID] [] hinit
  refine ⟨fun fuel e he => ?_, fun hfin => ?_, fun fuel t ht => ?_⟩
  · unfold rebuild at he
    cases h : rebuildLoop lookup fuel [self.localNodeID] (localQuorum self.localNodeID) with
    | error e' =>
      rw [h] at he
      obtain rfl : e' = e := by simpa [bind, Except.bind] using he
      exact (hloop fuel).1 e' h
    | ok q =>
      rw [h] at he
      cases he
  · -- as much fuel as rounds left over the reachable nodes
    set fuel := roundsLeft lookup hfin.toFinset (localQuorum self.localNodeID) [self.localNodeID]
    obtain ⟨Q', hQ'⟩ := rebuildLoop_isOk hfin.toFinset (fun n j hw => hfin.mem_toFinset.mpr ⟨j, hw⟩)
      fuel 0 _ [self.localNodeID] [] hinit le_rfl
    have hloopOk : rebuildLoop lookup fuel [self.localNodeID] (localQuorum self.localNodeID) = .ok Q' := hQ'
    refine ⟨fuel, { self with quorum := Q' }, ?_⟩
    unfold rebuild
    rw [hloopOk]
    rfl
  · unfold rebuild at ht
    obtain ⟨q, hq, ht⟩ := Except.bind_eq_ok.mp ht
    cases ht
    exact (hloop fuel).2 q hq

/-- Node `0` trusts `1` and `2`, node `1` trusts `2`, and node `2` has no quorum set known. -/
def chainLookup : Fin 3 → Option (SCPQuorumSet (Fin 3))
  | 0 => some ⟨2, [1, 2], []⟩
  | 1 => some ⟨1, [2], []⟩
  | 2 => none

theorem rebuild_transitiveQuorum_chain :
    ∃ fuel t, rebuild chainLookup fuel (⟨0, fun _ => none⟩ : QuorumTracker (Fin 3)) = .ok t :=
  (rebuild_transitiveQuorum _ chainLookup).2.1 (Set.toFinite _)

end HcnetCore.Herder
