import HcnetCore.Scp.QuorumSlices
import Mathlib

/-! # The transitive quorum of the local node

`QuorumTracker` keeps, for every node known to be in the local node's transitive quorum, the
quorum set it was expanded with (none for a node only named so far), its distance from the local
node and the validators of the local quorum set closest to it. `expand` fills in one node and
records every node its quorum set names; `rebuild` clears the map and expands breadth first from
the local node through a lookup of quorum sets. The map is a function to optional entries, a
quorum-set pointer an optional quorum set (`nullptr` is `none`), and `std::set<NodeID>` a
`Finset`.
-/

namespace HcnetCore.Herder

open Scp

set_option autoImplicit false

variable {N : Type} [DecidableEq N]

structure NodeInfo (N : Type) where
  quorumSet : Option (SCPQuorumSet N)
  distance : ℕ
  closestValidators : Finset N

abbrev QuorumMap (N : Type) := N → Option (NodeInfo N)

structure QuorumTracker (N : Type) where
  localNodeID : N
  quorum : QuorumMap N

mutual

/-- Two quorum sets of the same threshold, validators and inner sets: the comparison of the
quorum-set pointers in `expand`, read as equality of the sets they point to. -/
def qSetEq : SCPQuorumSet N → SCPQuorumSet N → Bool
  | ⟨t₁, v₁, i₁⟩, ⟨t₂, v₂, i₂⟩ => decide (t₁ = t₂) && decide (v₁ = v₂) && innerSetsEq i₁ i₂

def innerSetsEq : List (SCPQuorumSet N) → List (SCPQuorumSet N) → Bool
  | [], [] => true
  | a :: as, b :: bs => qSetEq a b && innerSetsEq as bs
  | _, _ => false

end

def forAllNodesList {σ : Type} (proc : N → σ → Bool × σ) : List N → σ → Bool × σ
  | [], s => (true, s)
  | n :: ns, s =>
    let (ok, s) := proc n s
    if ok then forAllNodesList proc ns s else (false, s)

def forAllNodes {σ : Type} (qSet : SCPQuorumSet N) (proc : N → σ → Bool × σ) (s : σ) : Bool × σ :=
  forAllNodesList proc (allNodes qSet) s

/-- The closest validators a path of `newDist` edges brings to `qNode` through a node whose own
are `closest`: `qNode` itself when it is in the local quorum set, else the node's. -/
def addClosest (newDist : ℕ) (closest : Finset N) (qNode : N) (info : NodeInfo N) : NodeInfo N :=
  if newDist = 1 then { info with closestValidators := insert qNode info.closestValidators }
  else { info with closestValidators := info.closestValidators ∪ closest }

/-- The lambda of `expand` at one node `qNode` of the quorum set: `qNode` is at most `newDist`
from the local node. A shorter known path leaves it alone; a node already expanded cannot take a
path that is not shorter; a shorter path replaces its closest validators, one as short adds to
them. -/
def expandNode (newDist : ℕ) (closest : Finset N) (qNode : N) (Q : QuorumMap N) : Bool × QuorumMap N :=
  match Q qNode with
  | none => (true, Function.update Q qNode (some (addClosest newDist closest qNode ⟨none, newDist, ∅⟩)))
  | some qNodeInfo =>
    if qNodeInfo.distance < newDist then (true, Q)
    else if qNodeInfo.quorumSet.isSome then (false, Q)
    else if newDist < qNodeInfo.distance then
      (true, Function.update Q qNode (some (addClosest newDist closest qNode
        { qNodeInfo with closestValidators := ∅, distance := newDist })))
    -- the remaining case: `newDist == qNodeInfo.mDistance`, as the code asserts
    else (true, Function.update Q qNode (some (addClosest newDist closest qNode qNodeInfo)))

def expand (id : N) (qSet : SCPQuorumSet N) (Q : QuorumMap N) : Bool × QuorumMap N :=
  match Q id with
  | none => (false, Q)
  | some nodeInfo =>
    match nodeInfo.quorumSet with
    | some recorded => (qSetEq recorded qSet, Q)
    | none =>
      let Q := Function.update Q id (some { nodeInfo with quorumSet := some qSet })
      forAllNodes qSet (expandNode (nodeInfo.distance + 1) nodeInfo.closestValidators) Q

/-- The `while (!backlog.empty())` loop of `rebuild`: the front node of the backlog, if not
expanded yet and the lookup has its quorum set, queues the nodes that set names and is expanded.
The loop ends only on an empty backlog: running out of fuel stands for a loop that does not end. -/
def rebuildLoop (lookup : N → Option (SCPQuorumSet N)) :
    ℕ → List N → QuorumMap N → Except String (QuorumMap N)
  | _, [], Q => pure Q
  | 0, _ :: _, _ => throw "rebuild does not end"
  | fuel + 1, node :: backlog, Q =>
    match Q node with
    | none => throw "Invalid state while rebuilding quorum state: node not in quorum map"
    | some nodeInfo =>
      match nodeInfo.quorumSet, lookup node with
      | none, some qSet =>
        let backlog := backlog ++ allNodes qSet
        let (success, Q) := expand node qSet Q
        if success then rebuildLoop lookup fuel backlog Q
        else throw "Invalid state while rebuilding quorum state: expand failed"
      | _, _ => rebuildLoop lookup fuel backlog Q

def localQuorum (localNodeID : N) : QuorumMap N :=
  Function.update (fun _ => none) localNodeID (some ⟨none, 0, ∅⟩)

def rebuild (lookup : N → Option (SCPQuorumSet N)) (fuel : ℕ) (self : QuorumTracker N) :
    Except String (QuorumTracker N) := do
  let quorum ← rebuildLoop lookup fuel [self.localNodeID] (localQuorum self.localNodeID)
  pure { self with quorum := quorum }

def getQuorum (self : QuorumTracker N) : QuorumMap N := self.quorum

/-! ## What one node of an expansion does -/

def visit (newDist : ℕ) (closest : Finset N) (qNode : N) : Option (NodeInfo N) → Option (NodeInfo N)
  | none => some (addClosest newDist closest qNode ⟨none, newDist, ∅⟩)
  | some info => if info.distance < newDist then some info else some (addClosest newDist closest qNode info)

/-- The entry of `m` does not stand in the way of a path of `newDist` edges: if it is that far
or further, it is exactly that far and not expanded. -/
def OpenAt (newDist : ℕ) (Q : QuorumMap N) (m : N) : Prop :=
  ∀ info, Q m = some info → newDist ≤ info.distance → info.quorumSet = none ∧ info.distance = newDist

@[simp] theorem addClosest_quorumSet (newDist : ℕ) (closest : Finset N) (qNode : N) (info : NodeInfo N) :
    (addClosest newDist closest qNode info).quorumSet = info.quorumSet := by
  unfold addClosest
  split_ifs <;> rfl

@[simp] theorem addClosest_distance (newDist : ℕ) (closest : Finset N) (qNode : N) (info : NodeInfo N) :
    (addClosest newDist closest qNode info).distance = info.distance := by
  unfold addClosest
  split_ifs <;> rfl

theorem mem_addClosest {newDist : ℕ} {closest : Finset N} {qNode v : N} {info : NodeInfo N} :
    v ∈ (addClosest newDist closest qNode info).closestValidators ↔
      v ∈ info.closestValidators ∨ (if newDist = 1 then v = qNode else v ∈ closest) := by
  unfold addClosest
  split_ifs
  · simp only [Finset.mem_insert]
    tauto
  · simp only [Finset.mem_union]

theorem addClosest_idem (newDist : ℕ) (closest : Finset N) (qNode : N) (info : NodeInfo N) :
    addClosest newDist closest qNode (addClosest newDist closest qNode info) =
      addClosest newDist closest qNode info := by
  unfold addClosest
  split_ifs
  · simp only [Finset.insert_idem]
  · simp only [Finset.union_assoc, Finset.union_idempotent]

theorem visit_visit (newDist : ℕ) (closest : Finset N) (qNode : N) (o : Option (NodeInfo N)) :
    visit newDist closest qNode (visit newDist closest qNode o) = visit newDist closest qNode o := by
  cases o with
  | none => simp [visit, addClosest_idem]
  | some info =>
    by_cases h : info.distance < newDist
    · simp [visit, h]
    · simp [visit, h, addClosest_idem]

theorem openAt_visit {newDist : ℕ} {closest : Finset N} {qNode : N} {o : Option (NodeInfo N)}
    (ho : ∀ info, o = some info → newDist ≤ info.distance → info.quorumSet = none ∧ info.distance = newDist) :
    ∀ info, visit newDist closest qNode o = some info → newDist ≤ info.distance →
      info.quorumSet = none ∧ info.distance = newDist := by
  intro info hinfo hle
  cases o with
  | none =>
    simp only [visit, Option.some.injEq] at hinfo
    subst hinfo
    simp
  | some old =>
    simp only [visit] at hinfo
    split_ifs at hinfo with hlt
    · cases hinfo
      omega
    · cases hinfo
      simpa using ho old rfl (by simpa using hle)

theorem expandNode_eq {newDist : ℕ} {closest : Finset N} {qNode : N} {Q : QuorumMap N}
    (hopen : OpenAt newDist Q qNode) :
    expandNode newDist closest qNode Q = (true, Function.update Q qNode (visit newDist closest qNode (Q qNode))) := by
  unfold expandNode
  cases hq : Q qNode with
  | none => rfl
  | some info =>
    by_cases hlt : info.distance < newDist
    · simp only [visit, if_pos hlt]
      exact congrArg (Prod.mk true) (Function.update_eq_self_iff.mpr hq.symm).symm
    · obtain ⟨hnone, hdist⟩ := hopen info hq (by omega)
      simp only [visit, if_false, hnone, Option.isSome_none, Bool.false_eq_true, hdist, lt_irrefl]

theorem forAllNodesList_expandNode (newDist : ℕ) (closest : Finset N) :
    ∀ (l : List N) (Q : QuorumMap N), (∀ m ∈ l, OpenAt newDist Q m) →
      forAllNodesList (expandNode newDist closest) l Q =
        (true, fun m => if m ∈ l then visit newDist closest m (Q m) else Q m)
  | [], Q, _ => by
    simp only [forAllNodesList, List.not_mem_nil, if_false]
  | m₀ :: l, Q, hopen => by
    set Q₁ := Function.update Q m₀ (visit newDist closest m₀ (Q m₀)) with hQ₁
    -- after the first node, the rest are still open: the first node's entry stays open
    have hopen₁ : ∀ m ∈ l, OpenAt newDist Q₁ m := by
      intro m hm info hinfo hle
      by_cases hm₀ : m = m₀
      · subst hm₀
        rw [hQ₁, Function.update_self] at hinfo
        exact openAt_visit (hopen m List.mem_cons_self) info hinfo hle
      · rw [hQ₁, Function.update_of_ne hm₀] at hinfo
        exact hopen m (List.mem_cons_of_mem _ hm) info hinfo hle
    simp only [forAllNodesList, expandNode_eq (hopen m₀ List.mem_cons_self), if_true]
    rw [← hQ₁, forAllNodesList_expandNode newDist closest l Q₁ hopen₁]
    refine congrArg (Prod.mk true) (funext fun m => ?_)
    by_cases hm₀ : m = m₀
    · subst hm₀
      simp only [hQ₁, Function.update_self, List.mem_cons_self, if_true]
      split_ifs
      · exact visit_visit newDist closest m (Q m)
      · rfl
    · simp only [hQ₁, Function.update_of_ne hm₀, List.mem_cons, hm₀, false_or]

theorem expand_eq {id : N} {qSet : SCPQuorumSet N} {Q : QuorumMap N} {info : NodeInfo N}
    (hid : Q id = some info) (hnone : info.quorumSet = none)
    (hopen : ∀ m ∈ allNodes qSet, m ≠ id → OpenAt (info.distance + 1) Q m) :
    expand id qSet Q =
      (true, fun m =>
        if m ∈ allNodes qSet then
          visit (info.distance + 1) info.closestValidators m
            (Function.update Q id (some { info with quorumSet := some qSet }) m)
        else Function.update Q id (some { info with quorumSet := some qSet }) m) := by
  unfold expand forAllNodes
  rw [hid]
  simp only [hnone]
  apply forAllNodesList_expandNode
  intro m hm entry hentry hle
  by_cases hm₀ : m = id
  · -- the node itself is one edge short of the nodes it names
    subst hm₀
    rw [Function.update_self] at hentry
    cases hentry
    dsimp only at hle
    omega
  · rw [Function.update_of_ne hm₀] at hentry
    exact hopen m hm hm₀ entry hentry hle

end HcnetCore.Herder
