import HcnetCore.Util.TarjanSCCCorrect
import Mathlib

/-! # Asset pairs in payment loops

`TransactionQueue::findAllAssetPairsInvolvedInPaymentLoops` numbers the assets of a
transaction's path payments, builds the graph of the edges between consecutive assets of each
payment's segment `sendAsset, path…, destAsset`, runs `TarjanSCCCalculator` on it, and returns
the edges that lie inside a strongly connected component of more than one node. A transaction is
the list of its operation bodies; `std::map<Asset, size_t>` is a function to optional numbers,
`std::vector` a list, and a `BitSet` a `Finset ℕ` walked in increasing order.
-/

namespace HcnetCore.Herder

set_option autoImplicit false
set_option linter.unusedSectionVars false

open StrongComponents Relation Util

variable {A : Type} [DecidableEq A]

/-- The fields of `PathPaymentStrictReceiveOp` and `PathPaymentStrictSendOp` that the function
reads. -/
structure PathPaymentOp (A : Type) where
  sendAsset : A
  destAsset : A
  path : List A

/-- An operation body, by the type the function switches on. -/
inductive OperationBody (A : Type)
  | pathPaymentStrictReceive (op : PathPaymentOp A)
  | pathPaymentStrictSend (op : PathPaymentOp A)
  | other

/-- The locals `assetToNum`, `numToAsset` and `graph`. -/
structure AssetGraph (A : Type) where
  assetToNum : A → Option ℕ
  numToAsset : List A
  graph : List (Finset ℕ)

namespace AssetGraph

/-- The lambda `internAsset`: the number of `a`, a fresh one with an empty bit set if `a` is new. -/
def internAsset (st : AssetGraph A) (a : A) : ℕ × AssetGraph A :=
  match st.assetToNum a with
  | some k => (k, st)
  | none =>
    let n := st.numToAsset.length
    (n, ⟨Function.update st.assetToNum a (some n), st.numToAsset ++ [a], st.graph ++ [∅]⟩)

/-- The lambda `internEdge`: `graph.at(si).set(di)`. -/
def internEdge (st : AssetGraph A) (src dst : A) : AssetGraph A :=
  let (si, st) := st.internAsset src
  let (di, st) := st.internAsset dst
  { st with graph := st.graph.modify si (insert di) }

/-- The lambda `internSegment`: an edge from each asset of `src, path…` to the next, then to
`dst`. -/
def internSegment (st : AssetGraph A) (src dst : A) (path : List A) : AssetGraph A :=
  let (prev, st) := path.foldl (fun (prev, st) a => (a, st.internEdge prev a)) (src, st)
  st.internEdge prev dst

/-- One operation of the loop over `tx->getRawOperations()`. -/
def addOperation (st : AssetGraph A) : OperationBody A → AssetGraph A
  | .pathPaymentStrictReceive pop => st.internSegment pop.sendAsset pop.destAsset pop.path
  | .pathPaymentStrictSend pop => st.internSegment pop.sendAsset pop.destAsset pop.path
  | .other => st

def empty : AssetGraph A := ⟨fun _ => none, [], []⟩

end AssetGraph

def vectorAt {α : Type} (v : List α) (i : ℕ) : Except String α :=
  match v[i]? with
  | some a => pure a
  | none => throw "vector::_M_range_check"

/-- The loop body over one component `scc` of `tsc.mSCCs`: with more than one node, every edge of
`graph` inside it, as a pair of assets. -/
def sccAssetPairs (numToAsset : List A) (graph : List (Finset ℕ)) (ret : List (A × A)) (scc : Finset ℕ) :
    Except String (List (A × A)) :=
  if scc.card > 1 then
    (scc.sort (· ≤ ·)).foldlM
      (fun ret src => do
        let edgesFromSrcInSCC := (← vectorAt graph src) ∩ scc
        (edgesFromSrcInSCC.sort (· ≤ ·)).foldlM
          (fun ret dst => do
            let a ← vectorAt numToAsset src
            let b ← vectorAt numToAsset dst
            pure (ret ++ [(a, b)]))
          ret)
      ret
  else pure ret

/-- `TransactionQueue::findAllAssetPairsInvolvedInPaymentLoops`. The closure handed to
`calculateSCCs` is `graph.at(i)`, which it only calls below `graph.size()`. -/
def findAllAssetPairsInvolvedInPaymentLoops (ops : List (OperationBody A)) : Except String (List (A × A)) := do
  let st := ops.foldl AssetGraph.addOperation AssetGraph.empty
  let tsc ← calculateSCCs st.graph.length fun i => st.graph.getD i ∅
  tsc.sccs.foldlM (sccAssetPairs st.numToAsset st.graph) []

/-! ## The asset graph of a transaction -/

/-- The edges of a segment: from each asset of `src, path…` to the next, the last to `dst`. -/
def segmentEdges : A → A → List A → List (A × A)
  | src, dst, [] => [(src, dst)]
  | src, dst, a :: path => (src, a) :: segmentEdges a dst path

/-- The edges of one operation's segment; none for an operation that is not a path payment. -/
def OperationBody.edges : OperationBody A → List (A × A)
  | .pathPaymentStrictReceive pop => segmentEdges pop.sendAsset pop.destAsset pop.path
  | .pathPaymentStrictSend pop => segmentEdges pop.sendAsset pop.destAsset pop.path
  | .other => []

def OperationBody.assets : OperationBody A → List A
  | .pathPaymentStrictReceive pop => pop.sendAsset :: pop.path ++ [pop.destAsset]
  | .pathPaymentStrictSend pop => pop.sendAsset :: pop.path ++ [pop.destAsset]
  | .other => []

/-- The path-payment asset graph of a transaction. -/
def PaymentEdge (ops : List (OperationBody A)) (a b : A) : Prop := ∃ op ∈ ops, (a, b) ∈ op.edges

theorem mem_segmentEdges {src dst : A} {path : List A} {a b : A} (h : (a, b) ∈ segmentEdges src dst path) :
    a ∈ src :: path ++ [dst] ∧ b ∈ src :: path ++ [dst] := by
  induction path generalizing src with
  | nil =>
    simp only [segmentEdges, List.mem_singleton, Prod.mk.injEq] at h
    obtain ⟨rfl, rfl⟩ := h
    simp
  | cons x path ih =>
    simp only [segmentEdges, List.mem_cons, Prod.mk.injEq] at h
    rcases h with ⟨rfl, rfl⟩ | h
    · simp
    · obtain ⟨ha, hb⟩ := ih h
      simp only [List.cons_append, List.mem_cons, List.mem_append] at ha hb ⊢
      tauto

theorem OperationBody.mem_assets_of_mem_edges {op : OperationBody A} {a b : A} (h : (a, b) ∈ op.edges) :
    a ∈ op.assets ∧ b ∈ op.assets := by
  cases op with
  | pathPaymentStrictReceive pop => exact mem_segmentEdges h
  | pathPaymentStrictSend pop => exact mem_segmentEdges h
  | other => simp [OperationBody.edges] at h

/-! ## The numbering of the assets -/

namespace AssetGraph

/-- `numToAsset` numbers distinct assets, `assetToNum` inverts it, and each number has a bit set. -/
structure Numbering (st : AssetGraph A) : Prop where
  nodup : st.numToAsset.Nodup
  length_graph : st.graph.length = st.numToAsset.length
  assetToNum_iff : ∀ a k, st.assetToNum a = some k ↔ st.numToAsset[k]? = some a

/-- The locals hold the graph of the edges `es`: the bit set of an asset's number holds the numbers
of the assets it has an edge to, and every asset numbered is an end of an edge. -/
structure Represents (st : AssetGraph A) (es : List (A × A)) : Prop extends st.Numbering where
  mem_graph_iff : ∀ i j, j ∈ st.graph.getD i ∅ ↔
    ∃ a b, st.numToAsset[i]? = some a ∧ st.numToAsset[j]? = some b ∧ (a, b) ∈ es
  interned : ∀ p ∈ es, p.1 ∈ st.numToAsset ∧ p.2 ∈ st.numToAsset
  named : ∀ a ∈ st.numToAsset, ∃ p ∈ es, p.1 = a ∨ p.2 = a

end AssetGraph

theorem getElem?_append_eq_some_iff {l l' : List A} (hnd : (l ++ l').Nodup) {a : A} (ha : a ∈ l) (i : ℕ) :
    (l ++ l')[i]? = some a ↔ l[i]? = some a := by
  obtain ⟨k, hk⟩ := List.mem_iff_getElem?.mp ha
  have hk' : (l ++ l')[k]? = some a := by
    rw [List.getElem?_append_left (List.getElem?_eq_some_iff.mp hk).1]
    exact hk
  constructor
  · intro hi
    have hlt : k < (l ++ l').length := (List.getElem?_eq_some_iff.mp hk').1
    rw [(List.getElem?_inj hlt hnd).mp (hk'.trans hi.symm)] at hk
    exact hk
  · intro hi
    rw [List.getElem?_append_left (List.getElem?_eq_some_iff.mp hi).1]
    exact hi

theorem getD_append_empty (g : List (Finset ℕ)) (i : ℕ) : (g ++ [∅]).getD i ∅ = g.getD i ∅ := by
  rcases Nat.lt_or_ge i g.length with h | h
  · rw [List.getD_append _ _ _ _ h]
  · rw [List.getD_eq_default _ _ h]
    rcases Nat.lt_or_ge i (g ++ [∅]).length with h' | h'
    · obtain rfl : i = g.length := by simp at h'; omega
      simp
    · exact List.getD_eq_default _ _ h'

theorem mem_getD_modify_insert (g : List (Finset ℕ)) (si di i j : ℕ) :
    j ∈ (g.modify si (insert di)).getD i ∅ ↔ (i = si ∧ si < g.length ∧ j = di) ∨ j ∈ g.getD i ∅ := by
  simp only [List.getD_eq_getElem?_getD, List.getElem?_modify]
  by_cases hi : si = i
  · subst hi
    cases hg : g[si]? with
    | none =>
      have : ¬ si < g.length := fun h => by simp [List.getElem?_eq_getElem h] at hg
      simp [this]
    | some s =>
      have : si < g.length := (List.getElem?_eq_some_iff.mp hg).1
      simp [this]
  · simp [hi, Ne.symm hi]

namespace AssetGraph

variable {st : AssetGraph A}

theorem Numbering.internAsset (h : st.Numbering) (a : A) :
    (st.internAsset a).2.Numbering ∧ (st.internAsset a).2.numToAsset[(st.internAsset a).1]? = some a ∧
    ∃ new : List A, (st.internAsset a).2.numToAsset = st.numToAsset ++ new ∧ (∀ x ∈ new, x = a) ∧
      ∀ i, (st.internAsset a).2.graph.getD i ∅ = st.graph.getD i ∅ := by
  unfold AssetGraph.internAsset
  cases hk : st.assetToNum a with
  | some k =>
    exact ⟨h, (h.assetToNum_iff a k).mp hk, [], by simp, by simp, fun _ => rfl⟩
  | none =>
    dsimp only
    have ha : a ∉ st.numToAsset := by
      intro ha
      obtain ⟨k, hk'⟩ := List.mem_iff_getElem?.mp ha
      rw [(h.assetToNum_iff a k).mpr hk'] at hk
      exact Option.some_ne_none k hk
    refine ⟨⟨?_, ?_, ?_⟩, ?_, [a], rfl, by simp, getD_append_empty st.graph⟩
    · refine List.nodup_append.mpr ⟨h.nodup, List.nodup_singleton a, ?_⟩
      intro x hx y hy hxy
      rw [List.mem_singleton.mp hy] at hxy
      exact ha (hxy ▸ hx)
    · simp [h.length_graph]
    · intro x k
      dsimp only
      by_cases hx : x = a
      · subst hx
        simp only [Function.update_self, Option.some.injEq, List.getElem?_append, List.getElem?_singleton]
        constructor
        · rintro rfl
          simp
        · intro hk'
          split at hk'
          · exact absurd (List.mem_of_getElem? hk') ha
          · split at hk'
            · omega
            · simp at hk'
      · rw [Function.update_of_ne hx, h.assetToNum_iff x k, List.getElem?_append]
        split
        · rfl
        · rw [List.getElem?_eq_none (by omega), List.getElem?_singleton]
          split <;> simp [Ne.symm hx]
    · simp

theorem Represents.internEdge {es : List (A × A)} (h : st.Represents es) (src dst : A) :
    (st.internEdge src dst).Represents (es ++ [(src, dst)]) := by
  obtain ⟨hN₁, hsi, new₁, hA₁, hnew₁, hg₁⟩ := h.toNumbering.internAsset src
  set st₁ := (st.internAsset src).2
  obtain ⟨hN₂, hdi, new₂, hA₂, hnew₂, hg₂⟩ := hN₁.internAsset dst
  set st₂ := (st₁.internAsset dst).2
  set si := (st.internAsset src).1
  set di := (st₁.internAsset dst).1
  have hA : st₂.numToAsset = st.numToAsset ++ (new₁ ++ new₂) := by rw [hA₂, hA₁, List.append_assoc]
  have hsi₂ : st₂.numToAsset[si]? = some src := by
    rw [hA₂, List.getElem?_append_left (List.getElem?_eq_some_iff.mp hsi).1]
    exact hsi
  have hsi_lt : si < st₂.graph.length := by
    rw [hN₂.length_graph]
    exact (List.getElem?_eq_some_iff.mp hsi₂).1
  have hold : ∀ a ∈ st.numToAsset, ∀ i : ℕ, st₂.numToAsset[i]? = some a ↔ st.numToAsset[i]? = some a := by
    intro a ha i
    rw [hA]
    exact getElem?_append_eq_some_iff (hA ▸ hN₂.nodup) ha i
  have hinj : ∀ (i j : ℕ) (a : A), st₂.numToAsset[i]? = some a → st₂.numToAsset[j]? = some a → i = j := by
    intro i j a hi hj
    exact (List.getElem?_inj (List.getElem?_eq_some_iff.mp hi).1 hN₂.nodup).mp (hi.trans hj.symm)
  have hlen : (st₂.graph.modify si (insert di)).length = st₂.numToAsset.length := by
    rw [List.length_modify, hN₂.length_graph]
  refine ⟨⟨hN₂.nodup, hlen, hN₂.assetToNum_iff⟩, ?_, ?_, ?_⟩
  · intro i j
    show j ∈ (st₂.graph.modify si (insert di)).getD i ∅ ↔ _
    rw [mem_getD_modify_insert, hg₂, hg₁, h.mem_graph_iff]
    constructor
    · rintro (⟨rfl, -, rfl⟩ | ⟨a, b, ha, hb, hab⟩)
      · exact ⟨src, dst, hsi₂, hdi, List.mem_append_right _ List.mem_cons_self⟩
      · exact ⟨a, b, (hold a (List.mem_of_getElem? ha) i).mpr ha, (hold b (List.mem_of_getElem? hb) j).mpr hb,
          List.mem_append_left _ hab⟩
    · rintro ⟨a, b, ha, hb, hab⟩
      rcases List.mem_append.mp hab with hab | hab
      · obtain ⟨ha', hb'⟩ := h.interned _ hab
        exact Or.inr ⟨a, b, (hold a ha' i).mp ha, (hold b hb' j).mp hb, hab⟩
      · obtain ⟨rfl, rfl⟩ := Prod.mk.inj (List.mem_singleton.mp hab)
        exact Or.inl ⟨hinj i si a ha hsi₂, hsi_lt, hinj j di b hb hdi⟩
  · intro p hp
    show p.1 ∈ st₂.numToAsset ∧ p.2 ∈ st₂.numToAsset
    rcases List.mem_append.mp hp with hp | hp
    · obtain ⟨h₁, h₂⟩ := h.interned p hp
      rw [hA]
      exact ⟨List.mem_append_left _ h₁, List.mem_append_left _ h₂⟩
    · rw [List.mem_singleton.mp hp]
      exact ⟨List.mem_of_getElem? hsi₂, List.mem_of_getElem? hdi⟩
  · intro a ha
    change a ∈ st₂.numToAsset at ha
    rw [hA, List.mem_append, List.mem_append] at ha
    rcases ha with ha | ha | ha
    · obtain ⟨p, hp, hpa⟩ := h.named a ha
      exact ⟨p, List.mem_append_left _ hp, hpa⟩
    · exact ⟨(src, dst), List.mem_append_right _ List.mem_cons_self, Or.inl (hnew₁ a ha).symm⟩
    · exact ⟨(src, dst), List.mem_append_right _ List.mem_cons_self, Or.inr (hnew₂ a ha).symm⟩

theorem internSegment_cons (src dst a : A) (path : List A) :
    st.internSegment src dst (a :: path) = (st.internEdge src a).internSegment a dst path := rfl

theorem Represents.internSegment {es : List (A × A)} (h : st.Represents es) (src dst : A) (path : List A) :
    (st.internSegment src dst path).Represents (es ++ segmentEdges src dst path) := by
  induction path generalizing st es src with
  | nil => exact h.internEdge src dst
  | cons a path ih =>
    rw [internSegment_cons, segmentEdges, ← List.singleton_append, ← List.append_assoc]
    exact ih (h.internEdge src a) a

theorem Represents.addOperation {es : List (A × A)} (h : st.Represents es) (op : OperationBody A) :
    (st.addOperation op).Represents (es ++ op.edges) := by
  cases op with
  | pathPaymentStrictReceive pop => exact h.internSegment _ _ _
  | pathPaymentStrictSend pop => exact h.internSegment _ _ _
  | other => simpa [AssetGraph.addOperation, OperationBody.edges] using h

theorem represents_empty : (AssetGraph.empty : AssetGraph A).Represents [] where
  nodup := List.nodup_nil
  length_graph := rfl
  assetToNum_iff := by simp [AssetGraph.empty]
  mem_graph_iff := by simp [AssetGraph.empty]
  interned := by simp
  named := by simp [AssetGraph.empty]

theorem represents_foldl (ops : List (OperationBody A)) :
    (ops.foldl AssetGraph.addOperation AssetGraph.empty).Represents (ops.flatMap OperationBody.edges) := by
  suffices h : ∀ (st : AssetGraph A) (es : List (A × A)), st.Represents es →
      (ops.foldl AssetGraph.addOperation st).Represents (es ++ ops.flatMap OperationBody.edges) by
    simpa using h _ _ represents_empty
  induction ops with
  | nil => simp
  | cons op ops ih =>
    intro st es h
    rw [List.foldl_cons, List.flatMap_cons, ← List.append_assoc]
    exact ih _ _ (h.addOperation op)

end AssetGraph

/-! ## The pairs returned -/

theorem vectorAt_of_getElem? {α : Type} {v : List α} {i : ℕ} {a : α} (h : v[i]? = some a) :
    vectorAt v i = .ok a := by
  simp [vectorAt, h, pure, Except.pure]

def namedPair (numToAsset : List A) (src dst : ℕ) : List (A × A) :=
  match numToAsset[src]?, numToAsset[dst]? with
  | some a, some b => [(a, b)]
  | _, _ => []

theorem mem_namedPair {numToAsset : List A} {src dst : ℕ} {a b : A} :
    (a, b) ∈ namedPair numToAsset src dst ↔ numToAsset[src]? = some a ∧ numToAsset[dst]? = some b := by
  unfold namedPair
  cases hs : numToAsset[src]? with
  | none => simp
  | some a' =>
    cases hd : numToAsset[dst]? with
    | none => simp
    | some b' =>
      simp only [List.mem_singleton, Prod.mk.injEq, Option.some.injEq]
      constructor <;> rintro ⟨rfl, rfl⟩ <;> exact ⟨rfl, rfl⟩

section Pairs

variable {numToAsset : List A} {graph : List (Finset ℕ)}
  (hlen : graph.length = numToAsset.length) (hgraph : ∀ i, ∀ j ∈ graph.getD i ∅, j < numToAsset.length)
include hlen hgraph

theorem sccAssetPairs_eq {scc : Finset ℕ} (hscc : ∀ x ∈ scc, x < numToAsset.length) (ret : List (A × A)) :
    sccAssetPairs numToAsset graph ret scc =
      .ok (ret ++ if scc.card > 1 then
        (scc.sort (· ≤ ·)).flatMap fun src => ((graph.getD src ∅ ∩ scc).sort (· ≤ ·)).flatMap (namedPair numToAsset src)
      else []) := by
  unfold sccAssetPairs
  split
  · apply Except.foldlM_append_eq
    intro src hsrc acc
    have hsrc_lt : src < numToAsset.length := hscc src ((Finset.mem_sort _).mp hsrc)
    have hg : graph[src]? = some (graph.getD src ∅) := by
      rw [List.getD_eq_getElem?_getD, List.getElem?_eq_getElem (hlen ▸ hsrc_lt)]
      rfl
    rw [vectorAt_of_getElem? hg, Except.ok_bind]
    apply Except.foldlM_append_eq
    intro dst hdst acc'
    have hdst_lt : dst < numToAsset.length :=
      hgraph src dst (Finset.mem_inter.mp ((Finset.mem_sort _).mp hdst)).1
    rw [vectorAt_of_getElem? (List.getElem?_eq_getElem hsrc_lt),
      vectorAt_of_getElem? (List.getElem?_eq_getElem hdst_lt)]
    simp [namedPair, List.getElem?_eq_getElem hsrc_lt, List.getElem?_eq_getElem hdst_lt, pure, Except.pure]
  · simp [pure, Except.pure]

theorem foldlM_sccAssetPairs {sccs : List (Finset ℕ)} (hsccs : ∀ S ∈ sccs, ∀ x ∈ S, x < numToAsset.length) :
    ∃ ret, sccs.foldlM (sccAssetPairs numToAsset graph) [] = .ok ret ∧
      ∀ a b, (a, b) ∈ ret ↔ ∃ S ∈ sccs, 1 < S.card ∧ ∃ s ∈ S, ∃ d ∈ S, d ∈ graph.getD s ∅ ∧
        numToAsset[s]? = some a ∧ numToAsset[d]? = some b := by
  refine ⟨_, Except.foldlM_append_eq _ _ sccs [] fun S hS acc => sccAssetPairs_eq hlen hgraph (hsccs S hS) acc, ?_⟩
  intro a b
  simp only [List.nil_append, List.mem_flatMap]
  constructor
  · rintro ⟨S, hS, hmem⟩
    split at hmem
    · simp only [List.mem_flatMap, Finset.mem_sort, Finset.mem_inter, mem_namedPair] at hmem
      obtain ⟨s, hs, d, ⟨hd, hdS⟩, ha, hb⟩ := hmem
      exact ⟨S, hS, by omega, s, hs, d, hdS, hd, ha, hb⟩
    · simp at hmem
  · rintro ⟨S, hS, hcard, s, hs, d, hdS, hd, ha, hb⟩
    refine ⟨S, hS, ?_⟩
    rw [if_pos (by omega)]
    simp only [List.mem_flatMap, Finset.mem_sort, Finset.mem_inter, mem_namedPair]
    exact ⟨s, hs, d, ⟨hd, hdS⟩, ha, hb⟩

end Pairs

/-! ## The pairs are the edges inside the payment loops -/

section Loops

variable {ops : List (OperationBody A)}

theorem paymentEdge_iff_mem (ops : List (OperationBody A)) (a b : A) :
    PaymentEdge ops a b ↔ (a, b) ∈ ops.flatMap OperationBody.edges := by
  simp [PaymentEdge, List.mem_flatMap]

variable {st : AssetGraph A} (hR : st.Represents (ops.flatMap OperationBody.edges))
include hR

theorem succEdge_iff {i j : ℕ} {a b : A} (ha : st.numToAsset[i]? = some a) (hb : st.numToAsset[j]? = some b) :
    SuccEdge (fun i => st.graph.getD i ∅) i j ↔ PaymentEdge ops a b := by
  rw [paymentEdge_iff_mem, SuccEdge, hR.mem_graph_iff]
  constructor
  · rintro ⟨a', b', ha', hb', hab⟩
    rw [ha, Option.some.injEq] at ha'
    rw [hb, Option.some.injEq] at hb'
    rw [ha', hb']
    exact hab
  · intro hab
    exact ⟨a, b, ha, hb, hab⟩

theorem reach_iff {i j : ℕ} {a b : A} (ha : st.numToAsset[i]? = some a) (hb : st.numToAsset[j]? = some b) :
    ReflTransGen (SuccEdge fun i => st.graph.getD i ∅) i j ↔ ReflTransGen (PaymentEdge ops) a b := by
  constructor
  · intro h
    -- each edge between numbers is the edge between the assets they number
    obtain ⟨b', hb', hab'⟩ := reach_of_simulation (R := fun (a : A) (i : ℕ) => st.numToAsset[i]? = some a)
      (E := PaymentEdge ops) (fun a i j hi hij => by
        obtain ⟨b, hb⟩ : ∃ b, st.numToAsset[j]? = some b := by
          obtain ⟨a', b, _, hb, _⟩ := (hR.mem_graph_iff i j).mp hij
          exact ⟨b, hb⟩
        exact ⟨b, hb, (succEdge_iff hR hi hb).mp hij⟩) ha h
    rw [hb, Option.some.injEq] at hb'
    rwa [← hb'] at hab'
  · intro h
    -- each edge out of a numbered asset leads to a numbered asset
    obtain ⟨j', hj', hij'⟩ := reach_of_simulation (R := fun (i : ℕ) (a : A) => st.numToAsset[i]? = some a)
      (E := SuccEdge fun i => st.graph.getD i ∅) (fun i a b hi hab => by
        obtain ⟨j, hj⟩ := List.mem_iff_getElem?.mp (hR.interned (a, b) ((paymentEdge_iff_mem ops a b).mp hab)).2
        exact ⟨j, hj, (succEdge_iff hR hi hj).mpr hab⟩) ha h
    have hj'lt : j' < st.numToAsset.length := (List.getElem?_eq_some_iff.mp hj').1
    rwa [(List.getElem?_inj hj'lt hR.nodup).mp (hj'.trans hb.symm)] at hij'

theorem mutual_iff {i j : ℕ} {a b : A} (ha : st.numToAsset[i]? = some a) (hb : st.numToAsset[j]? = some b) :
    Mutual (SuccEdge fun i => st.graph.getD i ∅) i j ↔ Mutual (PaymentEdge ops) a b := by
  unfold Mutual
  rw [reach_iff hR ha hb, reach_iff hR hb ha]

theorem exists_num_of_reach {a c : A} (h : ReflTransGen (PaymentEdge ops) a c) (hne : c ≠ a) :
    ∃ x : ℕ, st.numToAsset[x]? = some c := by
  rcases h.cases_tail with rfl | ⟨b, _, hbc⟩
  · exact absurd rfl hne
  · exact List.mem_iff_getElem?.mp (hR.interned (b, c) ((paymentEdge_iff_mem ops b c).mp hbc)).2

end Loops

theorem findAllAssetPairsInvolvedInPaymentLoops_spec (ops : List (OperationBody A))
    (hsmall : (ops.flatMap OperationBody.assets).length < 2 ^ 31) :
    ∃ ret, findAllAssetPairsInvolvedInPaymentLoops ops = .ok ret ∧
      ∀ a b, (a, b) ∈ ret ↔
        PaymentEdge ops a b ∧ Mutual (PaymentEdge ops) a b ∧ ∃ c, c ≠ a ∧ Mutual (PaymentEdge ops) a c := by
  set st := ops.foldl AssetGraph.addOperation AssetGraph.empty with hst
  have hR : st.Represents (ops.flatMap OperationBody.edges) := AssetGraph.represents_foldl ops
  have hlen := hR.length_graph
  have hgraph : ∀ i, ∀ j ∈ st.graph.getD i ∅, j < st.numToAsset.length := by
    intro i j hj
    obtain ⟨_, b, _, hb, _⟩ := (hR.mem_graph_iff i j).mp hj
    exact (List.getElem?_eq_some_iff.mp hb).1
  -- every numbered asset is named by an operation, so there are fewer than `2 ^ 31`
  have hn : st.graph.length < 2 ^ 31 := by
    have hsub : st.numToAsset ⊆ ops.flatMap OperationBody.assets := by
      intro a ha
      obtain ⟨p, hp, hpa⟩ := hR.named a ha
      obtain ⟨op, hop, hpop⟩ := List.mem_flatMap.mp hp
      have hends := OperationBody.mem_assets_of_mem_edges (a := p.1) (b := p.2) hpop
      refine List.mem_flatMap.mpr ⟨op, hop, ?_⟩
      rcases hpa with rfl | rfl
      · exact hends.1
      · exact hends.2
    have := (hR.nodup.subperm hsub).length_le
    omega
  obtain ⟨t, hrun, hdec⟩ := calculateSCCs_decomposition (g := fun i => st.graph.getD i ∅)
    (fun i _ j hj => hlen ▸ hgraph i j hj) hn
  have hsccs : ∀ S ∈ t.sccs, ∀ x ∈ S, x < st.numToAsset.length :=
    fun S hS x hx => hlen ▸ (hdec.mem_iff x).mpr ⟨S, hS, hx⟩
  obtain ⟨ret, hret, hmem⟩ := foldlM_sccAssetPairs hlen hgraph hsccs
  refine ⟨ret, ?_, ?_⟩
  · show (calculateSCCs st.graph.length fun i => st.graph.getD i ∅) >>=
        (fun tsc => tsc.sccs.foldlM (sccAssetPairs st.numToAsset st.graph) []) = .ok ret
    rw [hrun, Except.ok_bind]
    exact hret
  have hname : ∀ x, x < st.numToAsset.length → ∃ c, st.numToAsset[x]? = some c :=
    fun x hx => ⟨_, List.getElem?_eq_getElem hx⟩
  have hU : ∀ {x : ℕ} {c : A}, st.numToAsset[x]? = some c → x ∈ {i | i < st.graph.length} := by
    intro x c hx
    show x < st.graph.length
    rw [hlen]
    exact (List.getElem?_eq_some_iff.mp hx).1
  intro a b
  rw [hmem]
  constructor
  · rintro ⟨S, hS, hcard, s, hs, d, hdS, hd, ha, hb⟩
    refine ⟨(succEdge_iff hR ha hb).mp hd, ?_, ?_⟩
    · exact (mutual_iff hR ha hb).mp ((hdec.together_iff s (hU ha) d (hU hb)).mp ⟨S, hS, hs, hdS⟩)
    · -- a component of more than one node holds a second node, numbering another asset
      obtain ⟨x, hx, hxs⟩ := Finset.exists_mem_ne hcard s
      obtain ⟨c, hc⟩ := hname x (hsccs S hS x hx)
      refine ⟨c, fun hca => hxs ?_, ?_⟩
      · rw [hca] at hc
        exact (List.getElem?_inj (List.getElem?_eq_some_iff.mp hc).1 hR.nodup).mp (hc.trans ha.symm)
      · exact (mutual_iff hR ha hc).mp ((hdec.together_iff s (hU ha) x (hU hc)).mp ⟨S, hS, hs, hx⟩)
  · rintro ⟨hab, hmut, c, hca, hac⟩
    obtain ⟨ha', hb'⟩ := hR.interned (a, b) ((paymentEdge_iff_mem ops a b).mp hab)
    obtain ⟨s, hs⟩ := List.mem_iff_getElem?.mp ha'
    obtain ⟨d, hd⟩ := List.mem_iff_getElem?.mp hb'
    obtain ⟨x, hx⟩ := exists_num_of_reach hR hac.1 hca
    obtain ⟨S, hS, hsS⟩ := (hdec.mem_iff s).mp (hU hs)
    have hdS := hdec.mem_of_mutual hS hsS (hU hd) ((mutual_iff hR hs hd).mpr hmut)
    have hxS := hdec.mem_of_mutual hS hsS (hU hx) ((mutual_iff hR hs hx).mpr hac)
    have hxs : x ≠ s := by
      rintro rfl
      rw [hs, Option.some.injEq] at hx
      exact hca hx.symm
    exact ⟨S, hS, Finset.one_lt_card.mpr ⟨s, hsS, x, hxS, hxs.symm⟩, s, hsS, d, hdS,
      (succEdge_iff hR hs hd).mpr hab, hs, hd⟩

/-- `calculateSCCs` on fewer than `2 ^ 31` nodes whose successors are nodes returns their strongly
connected components: pairwise disjoint, non-empty, covering the nodes, each the nodes mutually
reachable with any of its members, and in reverse topological order; and so
`findAllAssetPairsInvolvedInPaymentLoops` returns exactly the edges of the transaction's
path-payment asset graph inside a component of more than one asset. -/
theorem calculateSCCs_components_paymentLoops :
    (∀ (n : ℕ) (getNodeSuccessors : ℕ → Finset ℕ), n < 2 ^ 31 → (∀ i < n, ∀ j ∈ getNodeSuccessors i, j < n) →
      ∃ t, calculateSCCs n getNodeSuccessors = .ok t ∧
        IsSCCDecomposition (SuccEdge getNodeSuccessors) {i | i < n} t.sccs) ∧
    ∀ (B : Type) [DecidableEq B] (ops : List (OperationBody B)), (ops.flatMap OperationBody.assets).length < 2 ^ 31 →
      ∃ ret, findAllAssetPairsInvolvedInPaymentLoops ops = .ok ret ∧
        ∀ a b, (a, b) ∈ ret ↔
          PaymentEdge ops a b ∧ Mutual (PaymentEdge ops) a b ∧ ∃ c, c ≠ a ∧ Mutual (PaymentEdge ops) a c :=
  ⟨fun _ _ hn hg => calculateSCCs_decomposition hg hn,
    fun _ _ ops hsmall => findAllAssetPairsInvolvedInPaymentLoops_spec ops hsmall⟩

theorem calculateSCCs_components_paymentLoops_roundTrip :
    (∃ t, calculateSCCs 2 (fun i => if i = 0 then {1} else {0}) = .ok t ∧
      IsSCCDecomposition (SuccEdge fun i => if i = 0 then {1} else {0}) {i | i < 2} t.sccs) ∧
    ∃ ret, findAllAssetPairsInvolvedInPaymentLoops [.pathPaymentStrictSend (⟨0, 0, [1]⟩ : PathPaymentOp ℕ)] = .ok ret ∧
      ∀ a b, (a, b) ∈ ret ↔
        PaymentEdge [.pathPaymentStrictSend (⟨0, 0, [1]⟩ : PathPaymentOp ℕ)] a b ∧
        Mutual (PaymentEdge [.pathPaymentStrictSend (⟨0, 0, [1]⟩ : PathPaymentOp ℕ)]) a b ∧
        ∃ c, c ≠ a ∧ Mutual (PaymentEdge [.pathPaymentStrictSend (⟨0, 0, [1]⟩ : PathPaymentOp ℕ)]) a c :=
  ⟨calculateSCCs_components_paymentLoops.1 2 _ (by decide) (by decide),
    calculateSCCs_components_paymentLoops.2 ℕ _ (by decide)⟩

end HcnetCore.Herder
