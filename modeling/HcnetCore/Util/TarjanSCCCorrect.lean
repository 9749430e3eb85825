import HcnetCore.Util.TarjanSCC
import HcnetCore.Library.StrongComponents
import Mathlib

/-! # `calculateSCCs` computes the strongly connected components

The proof follows the recursion of `scc`. Between two steps the search keeps `Searching`: the
visited nodes hold the indices handed out so far and are on the stack or in an emitted component,
the emitted components are closed in order (`ClosedComponents`), and every stack node reaches one
of the open calls. A call `scc(v)` from `t` ends in `Called`: what it visited is reached from `v`,
and every edge out of it leads into it, into an emitted component, or to a node under it on the
stack whose index bounds `v`'s low-link. The loop over `v`'s successors keeps `Scanning`. At a
root, the edges out of what the call visited therefore all lead into it or into emitted
components, and the nodes popped are exactly those mutually reachable with `v`.

With fewer than `2 ^ 31` nodes `mIndex` never wraps; with `2 ^ 31 + 1` it does, and a node is
lost.
-/

namespace HcnetCore.Util

set_option autoImplicit false

open StrongComponents Relation TarjanSCCCalculator

/-- The edges of the graph `calculateSCCs` is given: from `i` to each of its successors. -/
def SuccEdge (getNodeSuccessors : ℕ → Finset ℕ) (i j : ℕ) : Prop := j ∈ getNodeSuccessors i

namespace TarjanSCCCalculator

def Visited (t : TarjanSCCCalculator) (x : ℕ) : Prop := (t.nodes x).index ≠ -1

def Emitted (t : TarjanSCCCalculator) (x : ℕ) : Prop := ∃ S ∈ t.sccs, x ∈ S

def unvisited (t : TarjanSCCCalculator) : Finset ℕ :=
  (Finset.range t.nodeCount).filter fun x => (t.nodes x).index = -1

def New (t t' : TarjanSCCCalculator) (x : ℕ) : Prop := t'.Visited x ∧ ¬ t.Visited x

@[simp] theorem visited_setLowLink (t : TarjanSCCCalculator) (i x : ℕ) (low : ℤ) :
    (t.setLowLink i low).Visited x ↔ t.Visited x := by
  simp [Visited]

@[simp] theorem emitted_setLowLink (t : TarjanSCCCalculator) (i x : ℕ) (low : ℤ) :
    (t.setLowLink i low).Emitted x ↔ t.Emitted x := Iff.rfl

@[simp] theorem unvisited_setLowLink (t : TarjanSCCCalculator) (i : ℕ) (low : ℤ) :
    (t.setLowLink i low).unvisited = t.unvisited := by
  simp [unvisited]

@[simp] theorem new_setLowLink (t₀ t : TarjanSCCCalculator) (i x : ℕ) (low : ℤ) :
    t₀.New (t.setLowLink i low) x ↔ t₀.New t x := by
  simp [New]

theorem unvisited_card_le (t : TarjanSCCCalculator) : t.unvisited.card ≤ t.nodeCount := by
  calc t.unvisited.card ≤ (Finset.range t.nodeCount).card := Finset.card_filter_le _ _
    _ = t.nodeCount := Finset.card_range _

theorem mem_unvisited {t : TarjanSCCCalculator} {x : ℕ} (hx : x < t.nodeCount) (hv : ¬ t.Visited x) :
    x ∈ t.unvisited := by
  simp only [unvisited, Finset.mem_filter, Finset.mem_range]
  exact ⟨hx, not_not.mp hv⟩

theorem unvisited_visit {t : TarjanSCCCalculator} (h₀ : 0 ≤ t.index) {v : ℕ} (hv : ¬ t.Visited v) :
    (t.visit v).unvisited = t.unvisited.erase v := by
  ext x
  by_cases hx : x = v
  · subst hx
    simp only [unvisited, visit_nodes, if_true, Finset.mem_filter, Finset.mem_range, Finset.mem_erase,
      ne_eq, not_true_eq_false, false_and, iff_false, not_and]
    omega
  · simp [unvisited, visit_nodes, hx]

theorem visited_visit {t : TarjanSCCCalculator} (h₀ : 0 ≤ t.index) (v x : ℕ) :
    (t.visit v).Visited x ↔ x = v ∨ t.Visited x := by
  by_cases hx : x = v
  · subst hx
    simp only [Visited, visit_nodes, if_true, true_or, iff_true]
    omega
  · simp [Visited, visit_nodes, hx]

end TarjanSCCCalculator

variable (g : ℕ → Finset ℕ)

/-! ## What a stretch of the search keeps -/

/-- From `t` to `t'` the search left the nodes it did not visit as they were, only raised the
index, pushed nodes it visited on top of the stack and appended to `mSCCs`. -/
structure Grows (t t' : TarjanSCCCalculator) : Prop where
  nodeCount_eq : t'.nodeCount = t.nodeCount
  frame : ∀ x, ¬ t.New t' x → t'.nodes x = t.nodes x
  index_le : t.index ≤ t'.index
  stack : ∃ T, t'.stack = T ++ t.stack ∧ ∀ y ∈ T, t.New t' y
  sccs : t.sccs <+: t'.sccs

namespace Grows

variable {t t' t₁ t₂ : TarjanSCCCalculator}

theorem refl (t : TarjanSCCCalculator) : Grows t t where
  nodeCount_eq := rfl
  frame := fun _ _ => rfl
  index_le := le_rfl
  stack := ⟨[], rfl, by simp⟩
  sccs := List.prefix_refl _

theorem nodes_eq (h : Grows t t') {x : ℕ} (hx : t.Visited x) : t'.nodes x = t.nodes x :=
  h.frame x fun hn => hn.2 hx

theorem visited (h : Grows t t') {x : ℕ} (hx : t.Visited x) : t'.Visited x := by
  unfold Visited
  rw [h.nodes_eq hx]
  exact hx

theorem emitted (h : Grows t t') {x : ℕ} (hx : t.Emitted x) : t'.Emitted x := by
  obtain ⟨S, hS, hxS⟩ := hx
  exact ⟨S, h.sccs.subset hS, hxS⟩

theorem new_left {t₀ : TarjanSCCCalculator} (h : Grows t₁ t₂) {x : ℕ} (hx : t₀.New t₁ x) : t₀.New t₂ x :=
  ⟨h.visited hx.1, hx.2⟩

theorem new_right {t₀ : TarjanSCCCalculator} (h : Grows t₀ t₁) {x : ℕ} (hx : t₁.New t₂ x) : t₀.New t₂ x :=
  ⟨hx.1, fun h₀ => hx.2 (h.visited h₀)⟩

theorem new_cases {t₀ : TarjanSCCCalculator} {x : ℕ} (hx : t₀.New t₂ x) : t₀.New t₁ x ∨ t₁.New t₂ x := by
  by_cases h₁ : t₁.Visited x
  · exact Or.inl ⟨h₁, hx.2⟩
  · exact Or.inr ⟨hx.1, h₁⟩

theorem trans {t₀ : TarjanSCCCalculator} (h₁ : Grows t₀ t₁) (h₂ : Grows t₁ t₂) : Grows t₀ t₂ where
  nodeCount_eq := h₂.nodeCount_eq.trans h₁.nodeCount_eq
  frame := by
    intro x hx
    have hx₁ : ¬ t₀.New t₁ x := fun h => hx (h₂.new_left h)
    have hx₂ : ¬ t₁.New t₂ x := fun h => hx (h₁.new_right h)
    rw [h₂.frame x hx₂, h₁.frame x hx₁]
  index_le := h₁.index_le.trans h₂.index_le
  stack := by
    obtain ⟨T₁, hs₁, hT₁⟩ := h₁.stack
    obtain ⟨T₂, hs₂, hT₂⟩ := h₂.stack
    refine ⟨T₂ ++ T₁, by rw [hs₂, hs₁, List.append_assoc], ?_⟩
    intro y hy
    rcases List.mem_append.mp hy with hy | hy
    · exact h₁.new_right (hT₂ y hy)
    · exact h₂.new_left (hT₁ y hy)
  sccs := h₁.sccs.trans h₂.sccs

theorem setLowLink {t₀ : TarjanSCCCalculator} (h : Grows t₀ t) {i : ℕ} (hi : t₀.New t i) (low : ℤ) :
    Grows t₀ (t.setLowLink i low) where
  nodeCount_eq := h.nodeCount_eq
  frame := by
    intro x hx
    have hxi : x ≠ i := by
      rintro rfl
      exact hx ((new_setLowLink _ _ _ _ _).mpr hi)
    rw [setLowLink_nodes_of_ne _ _ hxi]
    exact h.frame x fun hn => hx ((new_setLowLink _ _ _ _ _).mpr hn)
  index_le := h.index_le
  stack := by
    obtain ⟨T, hs, hT⟩ := h.stack
    exact ⟨T, hs, fun y hy => (new_setLowLink _ _ _ _ _).mpr (hT y hy)⟩
  sccs := h.sccs

end Grows

/-! ## The invariant of the search -/

/-- The search between two steps, with the calls `scc(z)` for `z ∈ gray` open. -/
structure Searching (gray : List ℕ) (t : TarjanSCCCalculator) : Prop where
  small : t.nodeCount < 2 ^ 31
  visited_lt : ∀ x, t.Visited x → x < t.nodeCount
  index_add_card : t.index + t.unvisited.card = t.nodeCount
  index_mem : ∀ x, t.Visited x → 0 ≤ (t.nodes x).index ∧ (t.nodes x).index < t.index
  stack_nodup : t.stack.Nodup
  onStack_iff : ∀ x, (t.nodes x).onStack = true ↔ x ∈ t.stack
  visited_iff : ∀ x, t.Visited x ↔ x ∈ t.stack ∨ t.Emitted x
  not_emitted : ∀ x ∈ t.stack, ¬ t.Emitted x
  closed : ClosedComponents (SuccEdge g) t.sccs
  gray_mem : ∀ z ∈ gray, z ∈ t.stack
  reaches_gray : ∀ y ∈ t.stack, ∃ z ∈ gray, ReflTransGen (SuccEdge g) y z

namespace Searching

variable {g} {gray : List ℕ} {t : TarjanSCCCalculator}

theorem index_nonneg (hS : Searching g gray t) : 0 ≤ t.index := by
  have hcard := t.unvisited_card_le
  have := hS.index_add_card
  omega

theorem visited_of_mem_stack (hS : Searching g gray t) {x : ℕ} (hx : x ∈ t.stack) : t.Visited x :=
  (hS.visited_iff x).mpr (Or.inl hx)

theorem visited_of_emitted (hS : Searching g gray t) {x : ℕ} (hx : t.Emitted x) : t.Visited x :=
  (hS.visited_iff x).mpr (Or.inr hx)

theorem emitted_of_not_mem_stack (hS : Searching g gray t) {x : ℕ} (hx : t.Visited x) (hs : x ∉ t.stack) :
    t.Emitted x :=
  ((hS.visited_iff x).mp hx).resolve_left hs

theorem not_mutual (hS : Searching g gray t) {x y : ℕ} (hx : x ∈ t.stack) (hy : t.Emitted y) :
    ¬ Mutual (SuccEdge g) y x := by
  intro hyx
  obtain ⟨S, hS', hyS⟩ := hy
  exact hS.not_emitted x hx ⟨S, hS', (hS.closed.isComponent S hS').mem_of_mutual hyS hyx⟩

theorem regray (hS : Searching g gray t) {gray' : List ℕ} (hmem : ∀ z ∈ gray', z ∈ t.stack)
    (hreach : ∀ y ∈ t.stack, ∃ z ∈ gray', ReflTransGen (SuccEdge g) y z) : Searching g gray' t :=
  { hS with gray_mem := hmem, reaches_gray := hreach }

theorem setLowLink (hS : Searching g gray t) (i : ℕ) (low : ℤ) : Searching g gray (t.setLowLink i low) where
  small := hS.small
  visited_lt := fun x hx => hS.visited_lt x ((visited_setLowLink _ _ _ _).mp hx)
  index_add_card := by simpa using hS.index_add_card
  index_mem := fun x hx => by simpa using hS.index_mem x ((visited_setLowLink _ _ _ _).mp hx)
  stack_nodup := hS.stack_nodup
  onStack_iff := fun x => by simpa using hS.onStack_iff x
  visited_iff := fun x => by simpa using hS.visited_iff x
  not_emitted := hS.not_emitted
  closed := hS.closed
  gray_mem := hS.gray_mem
  reaches_gray := hS.reaches_gray

theorem intIncrement_index (hS : Searching g gray t) {v : ℕ} (hv : v < t.nodeCount) (hfresh : ¬ t.Visited v) :
    intIncrement t.index = t.index + 1 := by
  have hpos : 0 < t.unvisited.card := Finset.card_pos.mpr ⟨v, mem_unvisited hv hfresh⟩
  have hindex := hS.index_add_card
  exact intIncrement_of_lt hS.index_nonneg (by have := hS.small; omega)

theorem visit (hS : Searching g gray t) {v : ℕ} (hv : v < t.nodeCount) (hfresh : ¬ t.Visited v) :
    Searching g (v :: gray) (t.visit v) := by
  have hmem : v ∈ t.unvisited := mem_unvisited hv hfresh
  have hpos : 0 < t.unvisited.card := Finset.card_pos.mpr ⟨v, hmem⟩
  have hindex := hS.index_add_card
  have hinc := hS.intIncrement_index hv hfresh
  have hvisit := visited_visit hS.index_nonneg v
  have hv_stack : v ∉ t.stack := fun h => hfresh (hS.visited_of_mem_stack h)
  refine
    { small := hS.small
      visited_lt := ?_
      index_add_card := ?_
      index_mem := ?_
      stack_nodup := List.nodup_cons.mpr ⟨hv_stack, hS.stack_nodup⟩
      onStack_iff := ?_
      visited_iff := ?_
      not_emitted := ?_
      closed := hS.closed
      gray_mem := ?_
      reaches_gray := ?_ }
  · intro x hx
    rcases (hvisit x).mp hx with rfl | hx
    · exact hv
    · exact hS.visited_lt x hx
  · rw [visit_index, hinc, unvisited_visit hS.index_nonneg hfresh, Finset.card_erase_of_mem hmem]
    simp only [visit_nodeCount]
    omega
  · intro x hx
    rw [visit_index, hinc]
    by_cases hxv : x = v
    · subst hxv
      simp only [visit_nodes, if_true]
      exact ⟨hS.index_nonneg, by omega⟩
    · have := hS.index_mem x (((hvisit x).mp hx).resolve_left hxv)
      simp only [visit_nodes, hxv, if_false]
      omega
  · intro x
    by_cases hxv : x = v
    · subst hxv
      simp [visit_nodes]
    · simp [visit_nodes, hxv, hS.onStack_iff x]
  · intro x
    rw [hvisit x, visit_stack, List.mem_cons, hS.visited_iff x]
    simp only [Emitted, visit_sccs]
    tauto
  · intro x hx
    rcases List.mem_cons.mp hx with rfl | hx
    · exact fun he => hfresh (hS.visited_of_emitted he)
    · exact hS.not_emitted x hx
  · intro z hz
    rcases List.mem_cons.mp hz with rfl | hz
    · exact List.mem_cons_self
    · exact List.mem_cons_of_mem v (hS.gray_mem z hz)
  · intro y hy
    rcases List.mem_cons.mp hy with rfl | hy
    · exact ⟨y, List.mem_cons_self, ReflTransGen.refl⟩
    · obtain ⟨z, hz, hyz⟩ := hS.reaches_gray y hy
      exact ⟨z, List.mem_cons_of_mem v hz, hyz⟩

theorem grows_visit (hS : Searching g gray t) {v : ℕ}
    (hv : v < t.nodeCount) (hfresh : ¬ t.Visited v) : Grows t (t.visit v) where
  nodeCount_eq := rfl
  frame := by
    intro x hx
    have hxv : x ≠ v := by
      rintro rfl
      exact hx ⟨(visited_visit hS.index_nonneg x x).mpr (Or.inl rfl), hfresh⟩
    simp [visit_nodes, hxv]
  index_le := by
    rw [visit_index, hS.intIncrement_index hv hfresh]
    omega
  stack := by
    refine ⟨[v], rfl, ?_⟩
    intro y hy
    rw [List.mem_singleton.mp hy]
    exact ⟨(visited_visit hS.index_nonneg v v).mpr (Or.inl rfl), hfresh⟩
  sccs := List.prefix_refl _

end Searching

/-! ## One call of `scc` -/

/-- Where an edge out of the nodes a call visited since `t` may lead, seen at `t'`: to a node the
call visited, into an emitted component, or to a node on the stack under the call whose index is at
least the low-link `low`. -/
def Settled (t t' : TarjanSCCCalculator) (low : ℤ) (b : ℕ) : Prop :=
  t.New t' b ∨ t'.Emitted b ∨ (b ∈ t.stack ∧ low ≤ (t.nodes b).index)

@[simp] theorem settled_setLowLink (t t' : TarjanSCCCalculator) (i : ℕ) (l low : ℤ) (b : ℕ) :
    Settled t (t'.setLowLink i l) low b ↔ Settled t t' low b := by
  simp [Settled]

theorem Settled.mono {t t' t'' : TarjanSCCCalculator} {low low' : ℤ} {b : ℕ} (h : Grows t' t'')
    (hlow : low' ≤ low) (hb : Settled t t' low b) : Settled t t'' low' b := by
  rcases hb with hb | hb | ⟨hs, hle⟩
  · exact Or.inl (h.new_left hb)
  · exact Or.inr (Or.inl (h.emitted hb))
  · exact Or.inr (Or.inr ⟨hs, hlow.trans hle⟩)

/-- What `scc(v)`, called at `t` inside the calls `gray`, leaves at `t'`. -/
structure Called (gray : List ℕ) (v : ℕ) (t t' : TarjanSCCCalculator) : Prop where
  searching : Searching g gray t'
  grows : Grows t t'
  new_self : t.New t' v
  reach : ∀ x, t.New t' x → ReflTransGen (SuccEdge g) v x
  index_ge : ∀ x, t.New t' x → t.index ≤ (t'.nodes x).index
  lowLink_eq : (t'.nodes v).lowLink = t.index ∨
    ∃ z ∈ t.stack, (t.nodes z).index = (t'.nodes v).lowLink ∧ ReflTransGen (SuccEdge g) v z
  edges : ∀ a, t.New t' a → ∀ b ∈ g a, Settled t t' (t'.nodes v).lowLink b

/-- The loop of `scc(v)`, called at `t₀` inside the calls `gray`, at `t` after the successors
`done`. -/
structure Scanning (gray : List ℕ) (v : ℕ) (t₀ t : TarjanSCCCalculator) (done : List ℕ) : Prop where
  start : Searching g gray t₀
  searching : Searching g (v :: gray) t
  grows : Grows t₀ t
  new_self : t₀.New t v
  stack : ∃ T, t.stack = T ++ v :: t₀.stack ∧ ∀ y ∈ T, t₀.New t y
  reach : ∀ x, t₀.New t x → ReflTransGen (SuccEdge g) v x
  index_ge : ∀ x, t₀.New t x → t₀.index ≤ (t.nodes x).index
  index_self : (t.nodes v).index = t₀.index
  lowLink_le : (t.nodes v).lowLink ≤ t₀.index
  lowLink_eq : (t.nodes v).lowLink = t₀.index ∨
    ∃ z ∈ t₀.stack, (t₀.nodes z).index = (t.nodes v).lowLink ∧ ReflTransGen (SuccEdge g) v z
  edges : ∀ a, t₀.New t a → a ≠ v → ∀ b ∈ g a, Settled t₀ t (t.nodes v).lowLink b
  done_edges : ∀ b ∈ done, Settled t₀ t (t.nodes v).lowLink b

namespace Scanning

variable {g} {gray : List ℕ} {v : ℕ} {t₀ t : TarjanSCCCalculator} {done : List ℕ}

theorem not_new_of_mem_stack (hS : Scanning g gray v t₀ t done) {x : ℕ} (hx : x ∈ t₀.stack) :
    ¬ t₀.New t x :=
  fun hn => hn.2 (hS.start.visited_of_mem_stack hx)

theorem mem_stack (hS : Scanning g gray v t₀ t done) {x : ℕ} (hx : x ∈ t.stack) :
    x ∈ t₀.stack ∨ t₀.New t x := by
  obtain ⟨T, hs, hT⟩ := hS.stack
  rw [hs, List.mem_append, List.mem_cons] at hx
  rcases hx with hx | rfl | hx
  · exact Or.inr (hT x hx)
  · exact Or.inr hS.new_self
  · exact Or.inl hx

theorem mem_stack_of_mem_start (hS : Scanning g gray v t₀ t done) {x : ℕ} (hx : x ∈ t₀.stack) :
    x ∈ t.stack := by
  obtain ⟨T, hs, _⟩ := hS.stack
  rw [hs]
  exact List.mem_append_right T (List.mem_cons_of_mem v hx)

theorem index_lt_index (hS : Scanning g gray v t₀ t done) : t₀.index < t.index := by
  have h := (hS.searching.index_mem v hS.new_self.1).2
  rwa [hS.index_self] at h

theorem card_lt (hS : Scanning g gray v t₀ t done) : t.unvisited.card < t₀.unvisited.card := by
  have h₀ := hS.start.index_add_card
  have h₁ := hS.searching.index_add_card
  have hlt := hS.index_lt_index
  rw [hS.grows.nodeCount_eq] at h₁
  omega

theorem mem_start_of_index_lt (hS : Scanning g gray v t₀ t done) {z : ℕ} (hz : z ∈ t.stack)
    (hlt : (t.nodes z).index < t₀.index) : z ∈ t₀.stack := by
  rcases hS.mem_stack hz with hz | hz
  · exact hz
  · exact absurd (hS.index_ge z hz) (not_le.mpr hlt)

theorem index_start (hS : Scanning g gray v t₀ t done) {z : ℕ} (hz : z ∈ t₀.stack) :
    (t.nodes z).index = (t₀.nodes z).index := by
  rw [hS.grows.nodes_eq (hS.start.visited_of_mem_stack hz)]

theorem index_lt_of_mem_start (hS : Scanning g gray v t₀ t done) {z : ℕ} (hz : z ∈ t₀.stack) :
    (t₀.nodes z).index < t₀.index :=
  (hS.start.index_mem z (hS.start.visited_of_mem_stack hz)).2

end Scanning

namespace Searching

variable {g} {gray : List ℕ} {t : TarjanSCCCalculator}

theorem scanning_visit (hS : Searching g gray t) {v : ℕ}
    (hv : v < t.nodeCount) (hfresh : ¬ t.Visited v) : Scanning g gray v t (t.visit v) [] := by
  have hnew : ∀ x, t.New (t.visit v) x → x = v := by
    intro x hx
    exact ((visited_visit hS.index_nonneg v x).mp hx.1).resolve_right hx.2
  have hself : ((t.visit v).nodes v) = ⟨t.index, t.index, true⟩ := by simp [visit_nodes]
  refine
    { start := hS
      searching := hS.visit hv hfresh
      grows := hS.grows_visit hv hfresh
      new_self := ⟨(visited_visit hS.index_nonneg v v).mpr (Or.inl rfl), hfresh⟩
      stack := ⟨[], rfl, by simp⟩
      reach := ?_
      index_ge := ?_
      index_self := by rw [hself]
      lowLink_le := by rw [hself]
      lowLink_eq := by rw [hself]; exact Or.inl rfl
      edges := ?_
      done_edges := by simp }
  · intro x hx
    rw [hnew x hx]
  · intro x hx
    rw [hnew x hx, hself]
  · intro a ha hav
    exact absurd (hnew a ha) hav

end Searching

namespace Scanning

variable {g} {gray : List ℕ} {v : ℕ} {t₀ t : TarjanSCCCalculator} {done : List ℕ}

theorem step_unvisited (hS : Scanning g gray v t₀ t done) {j : ℕ} (hj : j ∈ g v) {t₂ : TarjanSCCCalculator}
    (hC : Called g (v :: gray) j t t₂) :
    Scanning g gray v t₀ (t₂.setLowLink v (min (t₂.nodes v).lowLink (t₂.nodes j).lowLink)) (done ++ [j]) := by
  have hv₂ : t₂.nodes v = t.nodes v := hC.grows.nodes_eq hS.new_self.1
  have hgrows : Grows t₀ t₂ := hS.grows.trans hC.grows
  set low := (t.nodes v).lowLink with hlow_def
  set low₂ := (t₂.nodes j).lowLink with hlow₂_def
  have hlow : ((t₂.setLowLink v (min (t₂.nodes v).lowLink low₂)).nodes v).lowLink = min low low₂ := by
    rw [setLowLink_nodes_lowLink_self, hv₂]
  have hnew : ∀ x, t₀.New t₂ x → t₀.New t x ∨ t.New t₂ x := fun x hx => Grows.new_cases hx
  -- what the nested call leaves open is settled for `v` at the lower of the two low-links
  have hlift : ∀ b, Settled t t₂ low₂ b → Settled t₀ t₂ (min low low₂) b := by
    rintro b (hb | hb | ⟨hs, hle⟩)
    · exact Or.inl (hS.grows.new_right hb)
    · exact Or.inr (Or.inl hb)
    · rcases hS.mem_stack hs with hs₀ | hn
      · rw [hS.index_start hs₀] at hle
        exact Or.inr (Or.inr ⟨hs₀, (min_le_right _ _).trans hle⟩)
      · exact Or.inl (hC.grows.new_left hn)
  have hkeep : ∀ b, Settled t₀ t low b → Settled t₀ t₂ (min low low₂) b :=
    fun b hb => hb.mono hC.grows (min_le_left _ _)
  refine
    { start := hS.start
      searching := hC.searching.setLowLink v _
      grows := hgrows.setLowLink (hC.grows.new_left hS.new_self) _
      new_self := (new_setLowLink _ _ _ _ _).mpr (hC.grows.new_left hS.new_self)
      stack := ?_
      reach := ?_
      index_ge := ?_
      index_self := by rw [setLowLink_nodes_index, hv₂, hS.index_self]
      lowLink_le := by rw [hlow]; exact (min_le_left _ _).trans hS.lowLink_le
      lowLink_eq := ?_
      edges := ?_
      done_edges := ?_ }
  · obtain ⟨T, hs, hT⟩ := hS.stack
    obtain ⟨T₂, hs₂, hT₂⟩ := hC.grows.stack
    refine ⟨T₂ ++ T, by rw [setLowLink_stack, hs₂, hs, List.append_assoc], ?_⟩
    intro y hy
    rw [new_setLowLink]
    rcases List.mem_append.mp hy with hy | hy
    · exact hS.grows.new_right (hT₂ y hy)
    · exact hC.grows.new_left (hT y hy)
  · intro x hx
    rcases hnew x ((new_setLowLink _ _ _ _ _).mp hx) with hx | hx
    · exact hS.reach x hx
    · exact ReflTransGen.head hj (hC.reach x hx)
  · intro x hx
    rw [setLowLink_nodes_index]
    rcases hnew x ((new_setLowLink _ _ _ _ _).mp hx) with hx | hx
    · rw [hC.grows.nodes_eq hx.1]
      exact hS.index_ge x hx
    · exact hS.index_lt_index.le.trans (hC.index_ge x hx)
  · rw [hlow]
    rcases le_or_gt low low₂ with hle | hlt
    · rw [min_eq_left hle]
      exact hS.lowLink_eq
    · rw [min_eq_right hlt.le]
      -- the nested call found a stack node under `v`: its index is below `v`'s
      rcases hC.lowLink_eq with heq | ⟨z, hz, hzi, hjz⟩
      · have := hS.index_lt_index
        have := hS.lowLink_le
        omega
      · have hzlt : (t.nodes z).index < t₀.index := by
          have := hS.lowLink_le
          omega
        have hz₀ := hS.mem_start_of_index_lt hz hzlt
        refine Or.inr ⟨z, hz₀, ?_, ReflTransGen.head hj hjz⟩
        rw [← hS.index_start hz₀, hzi]
  · intro a ha hav b hb
    rw [settled_setLowLink, hlow]
    rcases hnew a ((new_setLowLink _ _ _ _ _).mp ha) with ha | ha
    · exact hkeep b (hS.edges a ha hav b hb)
    · exact hlift b (hC.edges a ha b hb)
  · intro b hb
    rw [settled_setLowLink, hlow]
    rcases List.mem_append.mp hb with hb | hb
    · exact hkeep b (hS.done_edges b hb)
    · rw [List.mem_singleton.mp hb]
      exact Or.inl (hS.grows.new_right hC.new_self)

theorem step_onStack (hS : Scanning g gray v t₀ t done) {j : ℕ} (hj : j ∈ g v)
    (hon : (t.nodes j).onStack = true) :
    Scanning g gray v t₀ (t.setLowLink v (min (t.nodes v).lowLink (t.nodes j).index)) (done ++ [j]) := by
  have hjs : j ∈ t.stack := (hS.searching.onStack_iff j).mp hon
  set low := (t.nodes v).lowLink with hlow_def
  have hlow : ((t.setLowLink v (min low (t.nodes j).index)).nodes v).lowLink = min low (t.nodes j).index :=
    setLowLink_nodes_lowLink_self _ _ _
  have hkeep : ∀ b, Settled t₀ t low b → Settled t₀ t (min low (t.nodes j).index) b :=
    fun b hb => hb.mono (Grows.refl t) (min_le_left _ _)
  refine
    { start := hS.start
      searching := hS.searching.setLowLink v _
      grows := hS.grows.setLowLink hS.new_self _
      new_self := (new_setLowLink _ _ _ _ _).mpr hS.new_self
      stack := ?_
      reach := fun x hx => hS.reach x ((new_setLowLink _ _ _ _ _).mp hx)
      index_ge := fun x hx => by
        rw [setLowLink_nodes_index]
        exact hS.index_ge x ((new_setLowLink _ _ _ _ _).mp hx)
      index_self := by rw [setLowLink_nodes_index, hS.index_self]
      lowLink_le := by rw [hlow]; exact (min_le_left _ _).trans hS.lowLink_le
      lowLink_eq := ?_
      edges := ?_
      done_edges := ?_ }
  · obtain ⟨T, hs, hT⟩ := hS.stack
    exact ⟨T, hs, fun y hy => (new_setLowLink _ _ _ _ _).mpr (hT y hy)⟩
  · rw [hlow]
    rcases le_or_gt low (t.nodes j).index with hle | hlt
    · rw [min_eq_left hle]
      exact hS.lowLink_eq
    · rw [min_eq_right hlt.le]
      have hjlt : (t.nodes j).index < t₀.index := lt_of_lt_of_le hlt hS.lowLink_le
      have hj₀ := hS.mem_start_of_index_lt hjs hjlt
      exact Or.inr ⟨j, hj₀, (hS.index_start hj₀).symm, ReflTransGen.single hj⟩
  · intro a ha hav b hb
    rw [settled_setLowLink, hlow]
    exact hkeep b (hS.edges a ((new_setLowLink _ _ _ _ _).mp ha) hav b hb)
  · intro b hb
    rw [settled_setLowLink, hlow]
    rcases List.mem_append.mp hb with hb | hb
    · exact hkeep b (hS.done_edges b hb)
    · rw [List.mem_singleton.mp hb]
      rcases hS.mem_stack hjs with hj₀ | hn
      · exact Or.inr (Or.inr ⟨hj₀, by rw [← hS.index_start hj₀]; exact min_le_right _ _⟩)
      · exact Or.inl hn

theorem step_offStack (hS : Scanning g gray v t₀ t done) {j : ℕ} (hvis : t.Visited j)
    (hon : (t.nodes j).onStack = false) : Scanning g gray v t₀ t (done ++ [j]) := by
  have hjs : j ∉ t.stack := fun h => by simp [(hS.searching.onStack_iff j).mpr h] at hon
  refine { hS with done_edges := ?_ }
  intro b hb
  rcases List.mem_append.mp hb with hb | hb
  · exact hS.done_edges b hb
  · rw [List.mem_singleton.mp hb]
    exact Or.inr (Or.inl (hS.searching.emitted_of_not_mem_stack hvis hjs))

theorem sccEdge {recurse : ℕ → TarjanSCCCalculator → Except String TarjanSCCCalculator}
    (hrec : ∀ j t, Searching g (v :: gray) t → t.nodeCount = t₀.nodeCount → j < t.nodeCount → ¬ t.Visited j →
      t.unvisited.card < t₀.unvisited.card → ∃ t', recurse j t = .ok t' ∧ Called g (v :: gray) j t t')
    (hS : Scanning g gray v t₀ t done) {j : ℕ} (hj : j ∈ g v) (hjn : j < t₀.nodeCount) :
    ∃ t', sccEdge recurse v t j = .ok t' ∧ Scanning g gray v t₀ t' (done ++ [j]) := by
  have hjt : j < t.nodeCount := by rwa [hS.grows.nodeCount_eq]
  by_cases hw : (t.nodes j).index = -1
  · obtain ⟨t₂, hrun, hC⟩ :=
      hrec j t hS.searching hS.grows.nodeCount_eq hjt (not_not.mpr hw) hS.card_lt
    refine ⟨_, ?_, hS.step_unvisited hj hC⟩
    rw [sccEdge_of_unvisited hjt hw, hrun]
    rfl
  · cases hon : (t.nodes j).onStack with
    | true => exact ⟨_, sccEdge_of_onStack hjt hw hon, hS.step_onStack hj hon⟩
    | false => exact ⟨_, sccEdge_of_offStack hjt hw hon, hS.step_offStack hw hon⟩

theorem foldlM {recurse : ℕ → TarjanSCCCalculator → Except String TarjanSCCCalculator}
    (hrec : ∀ j t, Searching g (v :: gray) t → t.nodeCount = t₀.nodeCount → j < t.nodeCount → ¬ t.Visited j →
      t.unvisited.card < t₀.unvisited.card → ∃ t', recurse j t = .ok t' ∧ Called g (v :: gray) j t t') :
    ∀ (js done : List ℕ) (t : TarjanSCCCalculator), Scanning g gray v t₀ t done →
      (∀ j ∈ js, j ∈ g v ∧ j < t₀.nodeCount) →
      ∃ t', js.foldlM (HcnetCore.Util.sccEdge recurse v) t = .ok t' ∧ Scanning g gray v t₀ t' (done ++ js)
  | [], done, t, hS, _ => ⟨t, rfl, by simpa using hS⟩
  | j :: js, done, t, hS, hjs => by
    obtain ⟨hj, hjn⟩ := hjs j List.mem_cons_self
    obtain ⟨t₁, h₁, hS₁⟩ := hS.sccEdge hrec hj hjn
    obtain ⟨t', h', hS'⟩ := foldlM hrec js (done ++ [j]) t₁ hS₁ fun k hk => hjs k (List.mem_cons_of_mem j hk)
    refine ⟨t', ?_, by simpa using hS'⟩
    rw [List.foldlM_cons, h₁]
    exact h'

end Scanning

/-! ## The end of a call: a root pops its component -/

namespace TarjanSCCCalculator

/-- The state after the root `v` pops itself and the nodes `T` above it, down to `rest`, and
emits them as a component. -/
def popTo (t : TarjanSCCCalculator) (v : ℕ) (T rest : List ℕ) : TarjanSCCCalculator :=
  { t with
    stack := rest
    nodes := fun x => if x ∈ v :: T then { t.nodes x with onStack := false } else t.nodes x
    sccs := t.sccs ++ [(v :: T).toFinset ∪ {v}] }

variable (t : TarjanSCCCalculator) (v : ℕ) (T rest : List ℕ)

@[simp] theorem popTo_nodeCount : (t.popTo v T rest).nodeCount = t.nodeCount := rfl
@[simp] theorem popTo_index : (t.popTo v T rest).index = t.index := rfl
@[simp] theorem popTo_stack : (t.popTo v T rest).stack = rest := rfl

@[simp] theorem popTo_nodes_index (x : ℕ) : ((t.popTo v T rest).nodes x).index = (t.nodes x).index := by
  by_cases hx : x ∈ v :: T <;> simp only [popTo, hx, if_true, if_false]

@[simp] theorem popTo_nodes_lowLink (x : ℕ) : ((t.popTo v T rest).nodes x).lowLink = (t.nodes x).lowLink := by
  by_cases hx : x ∈ v :: T <;> simp only [popTo, hx, if_true, if_false]

theorem popTo_nodes_onStack (x : ℕ) :
    ((t.popTo v T rest).nodes x).onStack = if x ∈ v :: T then false else (t.nodes x).onStack := by
  by_cases hx : x ∈ v :: T <;> simp only [popTo, hx, if_true, if_false]

theorem popTo_nodes_of_not_mem {x : ℕ} (hx : x ∉ v :: T) : (t.popTo v T rest).nodes x = t.nodes x := by
  simp only [popTo, hx, if_false]

@[simp] theorem visited_popTo (x : ℕ) : (t.popTo v T rest).Visited x ↔ t.Visited x := by
  simp [Visited]

@[simp] theorem unvisited_popTo : (t.popTo v T rest).unvisited = t.unvisited := by
  simp [unvisited]

@[simp] theorem new_popTo (t₀ : TarjanSCCCalculator) (x : ℕ) : t₀.New (t.popTo v T rest) x ↔ t₀.New t x := by
  simp [New]

theorem mem_popped {x : ℕ} : x ∈ (v :: T).toFinset ∪ {v} ↔ x ∈ v :: T := by
  simp only [Finset.mem_union, List.mem_toFinset, Finset.mem_singleton, List.mem_cons]
  tauto

theorem emitted_popTo (x : ℕ) : (t.popTo v T rest).Emitted x ↔ t.Emitted x ∨ x ∈ v :: T := by
  simp only [Emitted, popTo, List.mem_append, List.mem_singleton]
  constructor
  · rintro ⟨S, hS | rfl, hx⟩
    · exact Or.inl ⟨S, hS, hx⟩
    · exact Or.inr (mem_popped v T |>.mp hx)
  · rintro (⟨S, hS, hx⟩ | hx)
    · exact ⟨S, Or.inl hS, hx⟩
    · exact ⟨_, Or.inr rfl, (mem_popped v T).mpr hx⟩

theorem emitIfRoot_of_root {t : TarjanSCCCalculator} {v : ℕ} (hroot : (t.nodes v).lowLink = (t.nodes v).index)
    {T rest : List ℕ} (hs : t.stack = T ++ v :: rest) (hvT : v ∉ T) :
    t.emitIfRoot v = .ok (t.popTo v T rest) := by
  simp only [emitIfRoot, hroot, if_true, hs, popScc_eq v hvT]
  rfl

theorem emitIfRoot_of_not_root {t : TarjanSCCCalculator} {v : ℕ} (hroot : (t.nodes v).lowLink ≠ (t.nodes v).index) :
    t.emitIfRoot v = .ok t := by
  simp [emitIfRoot, hroot, pure, Except.pure]

end TarjanSCCCalculator

namespace Scanning

variable {g} {gray : List ℕ} {v : ℕ} {t₀ t : TarjanSCCCalculator} {done : List ℕ}

theorem settled (hS : Scanning g gray v t₀ t done) (hdone : ∀ b ∈ g v, b ∈ done) :
    ∀ a, t₀.New t a → ∀ b ∈ g a, Settled t₀ t (t.nodes v).lowLink b := by
  intro a ha b hb
  by_cases hav : a = v
  · subst hav
    exact hS.done_edges b (hdone b hb)
  · exact hS.edges a ha hav b hb

theorem mem_stack_of_new (hS : Scanning g gray v t₀ t done) {y : ℕ} (hy : t₀.New t y) (he : ¬ t.Emitted y) :
    y ∈ t.stack :=
  ((hS.searching.visited_iff y).mp hy.1).resolve_right he

theorem new_of_mem (hS : Scanning g gray v t₀ t done) {T : List ℕ} (hT : ∀ y ∈ T, t₀.New t y) :
    ∀ x ∈ v :: T, t₀.New t x := by
  intro x hx
  rcases List.mem_cons.mp hx with rfl | hx
  · exact hS.new_self
  · exact hT x hx

section Root

variable (hS : Scanning g gray v t₀ t done) (hdone : ∀ b ∈ g v, b ∈ done)
  (hroot : (t.nodes v).lowLink = t₀.index)
include hS hdone hroot

theorem reach_of_root {y : ℕ} (hy : ReflTransGen (SuccEdge g) v y) : t₀.New t y ∨ t.Emitted y := by
  refine reach_of_closed (P := fun y => t₀.New t y ∨ t.Emitted y) ?_ (Or.inl hS.new_self) hy
  rintro a b (ha | ⟨S, hS', haS⟩) hab
  · rcases hS.settled hdone a ha b hab with hb | hb | ⟨hb, hle⟩
    · exact Or.inl hb
    · exact Or.inr hb
    · have := hS.index_lt_of_mem_start hb
      omega
  · exact Or.inr (hS.searching.closed.closed_mem hS' haS hab)

theorem mem_iff_mutual {T : List ℕ} (hs : t.stack = T ++ v :: t₀.stack) (hT : ∀ y ∈ T, t₀.New t y) (y : ℕ) :
    y ∈ v :: T ↔ Mutual (SuccEdge g) v y := by
  have hv : v ∈ t.stack := by
    rw [hs]
    exact List.mem_append_right T List.mem_cons_self
  constructor
  · intro hy
    have hvy := hS.reach y (hS.new_of_mem hT y hy)
    refine ⟨hvy, ?_⟩
    have hys : y ∈ t.stack := by
      rw [hs]
      rcases List.mem_cons.mp hy with rfl | hy
      · exact List.mem_append_right T List.mem_cons_self
      · exact List.mem_append_left _ hy
    obtain ⟨z, hz, hyz⟩ := hS.searching.reaches_gray y hys
    rcases List.mem_cons.mp hz with rfl | hz
    · exact hyz
    · -- an open call around `v` is on the stack under it, out of reach of a root
      have hz₀ := hS.start.gray_mem z hz
      rcases hS.reach_of_root hdone hroot (hvy.trans hyz) with hn | he
      · exact absurd hn (hS.not_new_of_mem_stack hz₀)
      · exact absurd he (hS.searching.not_emitted z (hS.mem_stack_of_mem_start hz₀))
  · intro hy
    have he : ¬ t.Emitted y := fun he => hS.searching.not_mutual hv he hy.symm
    rcases hS.reach_of_root hdone hroot hy.1 with hn | he'
    · have hys := hS.mem_stack_of_new hn he
      rw [hs, List.mem_append, List.mem_cons] at hys
      rcases hys with hys | rfl | hys
      · exact List.mem_cons_of_mem v hys
      · exact List.mem_cons_self
      · exact absurd hn (hS.not_new_of_mem_stack hys)
    · exact absurd he' he

theorem searching_popTo {T : List ℕ} (hs : t.stack = T ++ v :: t₀.stack) (hT : ∀ y ∈ T, t₀.New t y) :
    Searching g gray (t.popTo v T t₀.stack) := by
  have hS' := hS.searching
  have hnot₀ : ∀ x ∈ v :: T, x ∉ t₀.stack :=
    fun x hx h₀ => hS.not_new_of_mem_stack h₀ (hS.new_of_mem hT x hx)
  have hmem_stack : ∀ x, x ∈ t.stack ↔ x ∈ v :: T ∨ x ∈ t₀.stack := by
    intro x
    rw [hs, List.mem_append, List.mem_cons, List.mem_cons]
    tauto
  refine
    { small := hS'.small
      visited_lt := fun x hx => hS'.visited_lt x ((visited_popTo _ _ _ _ x).mp hx)
      index_add_card := by simpa using hS'.index_add_card
      index_mem := fun x hx => by simpa using hS'.index_mem x ((visited_popTo _ _ _ _ x).mp hx)
      stack_nodup := hS.start.stack_nodup
      onStack_iff := ?_
      visited_iff := ?_
      not_emitted := ?_
      closed := ?_
      gray_mem := hS.start.gray_mem
      reaches_gray := hS.start.reaches_gray }
  · intro x
    rw [popTo_nodes_onStack, popTo_stack]
    by_cases hx : x ∈ v :: T
    · simp only [hx, if_true, Bool.false_eq_true, false_iff]
      exact hnot₀ x hx
    · simp only [hx, if_false]
      rw [hS'.onStack_iff x, hmem_stack x]
      simp [hx]
  · intro x
    rw [visited_popTo, hS'.visited_iff x, hmem_stack x, emitted_popTo, popTo_stack]
    tauto
  · intro x hx he
    rcases (emitted_popTo _ _ _ _ x).mp he with he | he
    · exact hS'.not_emitted x (hS.mem_stack_of_mem_start hx) he
    · exact hnot₀ x he hx
  · apply hS'.closed.concat
    · exact isComponent_of_forall_mem_iff (a := v) fun y => by
        rw [mem_popped]
        exact hS.mem_iff_mutual hdone hroot hs hT y
    · exact ⟨v, (mem_popped v T).mpr List.mem_cons_self⟩
    · intro S hS''
      rw [Finset.disjoint_left]
      intro x hxS hxP
      exact hS'.not_emitted x ((hmem_stack x).mpr (Or.inl ((mem_popped v T).mp hxP))) ⟨S, hS'', hxS⟩
    · intro a ha b hab
      rw [mem_popped] at ha ⊢
      have hva := (hS.mem_iff_mutual hdone hroot hs hT a).mp ha
      rcases hS.reach_of_root hdone hroot (hva.1.tail hab) with hn | he
      · by_cases he : t.Emitted b
        · exact Or.inr he
        · have hbs := (hmem_stack b).mp (hS.mem_stack_of_new hn he)
          exact Or.inl (hbs.resolve_right fun h₀ => hS.not_new_of_mem_stack h₀ hn)
      · exact Or.inr he

theorem called_popTo {T : List ℕ} (hs : t.stack = T ++ v :: t₀.stack) (hT : ∀ y ∈ T, t₀.New t y) :
    Called g gray v t₀ (t.popTo v T t₀.stack) where
  searching := hS.searching_popTo hdone hroot hs hT
  grows :=
    { nodeCount_eq := hS.grows.nodeCount_eq
      frame := by
        intro x hx
        rw [new_popTo] at hx
        rw [popTo_nodes_of_not_mem _ _ _ _ fun hxT => hx (hS.new_of_mem hT x hxT)]
        exact hS.grows.frame x hx
      index_le := hS.grows.index_le
      stack := ⟨[], rfl, by simp⟩
      sccs := hS.grows.sccs.trans (List.prefix_append _ _) }
  new_self := (new_popTo _ _ _ _ _ _).mpr hS.new_self
  reach := fun x hx => hS.reach x ((new_popTo _ _ _ _ _ _).mp hx)
  index_ge := fun x hx => by
    rw [popTo_nodes_index]
    exact hS.index_ge x ((new_popTo _ _ _ _ _ _).mp hx)
  lowLink_eq := Or.inl (by rw [popTo_nodes_lowLink]; exact hroot)
  edges := by
    intro a ha b hb
    rw [popTo_nodes_lowLink]
    rcases hS.settled hdone a ((new_popTo _ _ _ _ _ _).mp ha) b hb with h | h | h
    · exact Or.inl ((new_popTo _ _ _ _ _ _).mpr h)
    · exact Or.inr (Or.inl ((emitted_popTo _ _ _ _ _).mpr (Or.inl h)))
    · exact Or.inr (Or.inr h)

end Root

theorem called_of_not_root (hS : Scanning g gray v t₀ t done) (hdone : ∀ b ∈ g v, b ∈ done)
    (hroot : (t.nodes v).lowLink ≠ t₀.index) : Called g gray v t₀ t where
  searching := by
    refine hS.searching.regray (fun z hz => hS.mem_stack_of_mem_start (hS.start.gray_mem z hz)) ?_
    intro y hy
    obtain ⟨z, hz, hyz⟩ := hS.searching.reaches_gray y hy
    rcases List.mem_cons.mp hz with rfl | hz
    · obtain ⟨z', hz', -, hvz'⟩ := hS.lowLink_eq.resolve_left hroot
      obtain ⟨z'', hz'', hz'z''⟩ := hS.start.reaches_gray z' hz'
      exact ⟨z'', hz'', hyz.trans (hvz'.trans hz'z'')⟩
    · exact ⟨z, hz, hyz⟩
  grows := hS.grows
  new_self := hS.new_self
  reach := hS.reach
  index_ge := hS.index_ge
  lowLink_eq := hS.lowLink_eq
  edges := hS.settled hdone

theorem emitIfRoot (hS : Scanning g gray v t₀ t done) (hdone : ∀ b ∈ g v, b ∈ done) :
    ∃ t', t.emitIfRoot v = .ok t' ∧ Called g gray v t₀ t' := by
  by_cases hroot : (t.nodes v).lowLink = t₀.index
  · obtain ⟨T, hs, hT⟩ := hS.stack
    have hvT : v ∉ T := by
      have hnd := hS.searching.stack_nodup
      rw [hs] at hnd
      exact fun hv => (List.nodup_append.mp hnd).2.2 v hv v List.mem_cons_self rfl
    refine ⟨_, emitIfRoot_of_root (by rw [hS.index_self]; exact hroot) hs hvT, ?_⟩
    exact hS.called_popTo hdone hroot hs hT
  · refine ⟨t, emitIfRoot_of_not_root (by rw [hS.index_self]; exact hroot), ?_⟩
    exact hS.called_of_not_root hdone hroot

end Scanning

/-! ## `scc` and `calculateSCCs` -/

section Run

variable {g} {n : ℕ} (hg : ∀ i < n, ∀ j ∈ g i, j < n)
include hg

theorem scc_called : ∀ (fuel : ℕ) (gray : List ℕ) (v : ℕ) (t : TarjanSCCCalculator), Searching g gray t →
    t.nodeCount = n → v < n → ¬ t.Visited v → t.unvisited.card ≤ fuel →
    ∃ t', scc g fuel v t = .ok t' ∧ Called g gray v t t'
  | 0, _, v, t, _, hn, hv, hfresh, hfuel => by
    have := Finset.card_pos.mpr ⟨v, mem_unvisited (hn ▸ hv) hfresh⟩
    omega
  | fuel + 1, gray, v, t, hS, hn, hv, hfresh, hfuel => by
    have hvt : v < t.nodeCount := hn ▸ hv
    have hS₀ := hS.scanning_visit hvt hfresh
    have hrec : ∀ j t', Searching g (v :: gray) t' → t'.nodeCount = t.nodeCount → j < t'.nodeCount →
        ¬ t'.Visited j → t'.unvisited.card < t.unvisited.card →
        ∃ t'', scc g fuel j t' = .ok t'' ∧ Called g (v :: gray) j t' t'' := by
      intro j t' hS' hn' hj hfresh' hcard
      exact scc_called fuel (v :: gray) j t' hS' (hn' ▸ hn) (by omega) hfresh' (by omega)
    have hsucc : ∀ j ∈ (g v).sort (· ≤ ·), j ∈ g v ∧ j < t.nodeCount := by
      intro j hj
      rw [Finset.mem_sort] at hj
      exact ⟨hj, hn ▸ hg v hv j hj⟩
    obtain ⟨t₁, hloop, hS₁⟩ := Scanning.foldlM hrec ((g v).sort (· ≤ ·)) [] (t.visit v) hS₀ hsucc
    obtain ⟨t', hend, hC⟩ := hS₁.emitIfRoot fun b hb => by simpa using hb
    refine ⟨t', ?_, hC⟩
    rw [scc_succ g fuel hvt, hloop]
    exact hend

omit hg in
theorem searching_cleared (hn : n < 2 ^ 31) : Searching g [] (TarjanSCCCalculator.cleared n) where
  small := hn
  visited_lt := fun x hx => absurd rfl hx
  index_add_card := by
    have hall : TarjanSCCCalculator.unvisited (TarjanSCCCalculator.cleared n) = Finset.range n := by
      simp [unvisited, TarjanSCCCalculator.cleared]
    rw [hall, Finset.card_range]
    simp [TarjanSCCCalculator.cleared]
  index_mem := fun x hx => absurd rfl hx
  stack_nodup := List.nodup_nil
  onStack_iff := fun x => by simp [TarjanSCCCalculator.cleared]
  visited_iff := fun x => by simp [Visited, Emitted, TarjanSCCCalculator.cleared]
  not_emitted := by simp [TarjanSCCCalculator.cleared]
  closed := closedComponents_nil
  gray_mem := by simp
  reaches_gray := by simp [TarjanSCCCalculator.cleared]

theorem calculateSCCs_loop (hn : n < 2 ^ 31) : ∀ k ≤ n, ∃ t,
    (List.range k).foldlM
      (fun self i => do
        let v ← self.nodeAt i
        if v.index = -1 then scc g n i self else pure self)
      (TarjanSCCCalculator.cleared n) = .ok t ∧
    Searching g [] t ∧ t.nodeCount = n ∧ ∀ x < k, t.Visited x
  | 0, _ => ⟨_, rfl, searching_cleared hn, rfl, by simp⟩
  | k + 1, hk => by
    obtain ⟨t, hloop, hS, hcount, hvis⟩ := calculateSCCs_loop hn k (by omega)
    have hkt : k < t.nodeCount := by omega
    rw [List.range_succ, List.foldlM_append, hloop]
    by_cases hw : (t.nodes k).index = -1
    · obtain ⟨t', hrun, hC⟩ := scc_called hg n [] k t hS hcount (by omega) (not_not.mpr hw)
        (hcount ▸ t.unvisited_card_le)
      refine ⟨t', ?_, hC.searching, hC.grows.nodeCount_eq.trans hcount, ?_⟩
      · simp [nodeAt_of_lt _ hkt, hw, hrun]
      · intro x hx
        rcases Nat.lt_succ_iff_lt_or_eq.mp hx with hx | rfl
        · exact hC.grows.visited (hvis x hx)
        · exact hC.new_self.1
    · refine ⟨t, ?_, hS, hcount, ?_⟩
      · simp [nodeAt_of_lt _ hkt, hw, pure, Except.pure]
      · intro x hx
        rcases Nat.lt_succ_iff_lt_or_eq.mp hx with hx | rfl
        · exact hvis x hx
        · exact hw

theorem calculateSCCs_decomposition (hn : n < 2 ^ 31) :
    ∃ t, calculateSCCs n g = .ok t ∧ IsSCCDecomposition (SuccEdge g) {i | i < n} t.sccs := by
  obtain ⟨t, hrun, hS, hcount, hvis⟩ := calculateSCCs_loop hg hn n le_rfl
  -- with no call open the stack is empty, so every visited node is emitted
  have hstack : t.stack = [] := by
    rcases hs : t.stack with _ | ⟨y, rest⟩
    · rfl
    · obtain ⟨z, hz, _⟩ := hS.reaches_gray y (by rw [hs]; exact List.mem_cons_self)
      exact absurd hz List.not_mem_nil
  refine ⟨t, hrun, hS.closed.isSCCDecomposition ?_⟩
  intro x
  constructor
  · intro hx
    have := (hS.visited_iff x).mp (hvis x hx)
    rw [hstack] at this
    exact this.resolve_left List.not_mem_nil
  · intro hx
    exact hcount ▸ hS.visited_lt x (hS.visited_of_emitted hx)

end Run

/-! ## Past `INT32_MAX` nodes

With `2 ^ 31 + 1` nodes and one edge from node `2 ^ 31 - 1` to node `2 ^ 31`, node `2 ^ 31 - 1`
takes the index `INT32_MAX` and its successor, after the wrap, `INT32_MIN`. The successor is a root
and is emitted; its low-link `INT32_MIN` then drops that of node `2 ^ 31 - 1` below its index, so
that node is never emitted. -/

/-- One edge, from node `2 ^ 31 - 1` to node `2 ^ 31`. -/
def wrapSuccessors (i : ℕ) : Finset ℕ := if i = 2 ^ 31 - 1 then {2 ^ 31} else ∅

/-- The calculator after `calculateSCCs` has visited `k` nodes without successors: each is its own
component. -/
def isolatedPrefix (n k : ℕ) : TarjanSCCCalculator :=
  ⟨fun x => if x < k then ⟨x, x, false⟩ else {}, n, [], k, (List.range k).map fun x => {x}⟩

theorem cleared_eq_isolatedPrefix (n : ℕ) : TarjanSCCCalculator.cleared n = isolatedPrefix n 0 := by
  simp [TarjanSCCCalculator.cleared, isolatedPrefix]

theorem scc_of_no_successors {g : ℕ → Finset ℕ} {fuel i : ℕ} {t : TarjanSCCCalculator} (hfuel : 0 < fuel)
    (hi : i < t.nodeCount) (hg : g i = ∅) : scc g fuel i t = .ok ((t.visit i).popTo i [] t.stack) := by
  obtain ⟨fuel, rfl⟩ : ∃ f, fuel = f + 1 := ⟨fuel - 1, by omega⟩
  have hroot : ((t.visit i).nodes i).lowLink = ((t.visit i).nodes i).index := by simp [visit_nodes]
  rw [scc_succ g fuel hi, hg, Finset.sort_empty, List.foldlM_nil]
  exact emitIfRoot_of_root hroot (T := []) rfl List.not_mem_nil

theorem scc_isolated {g : ℕ → Finset ℕ} {n k fuel : ℕ} (hk : k + 1 < 2 ^ 31) (hkn : k < n) (hg : g k = ∅) :
    scc g (fuel + 1) k (isolatedPrefix n k) = .ok (isolatedPrefix n (k + 1)) := by
  rw [scc_of_no_successors fuel.succ_pos (by simpa [isolatedPrefix] using hkn) hg]
  have hinc : intIncrement (k : ℤ) = ((k + 1 : ℕ) : ℤ) := by
    rw [intIncrement_of_lt (by omega) (by omega)]
    push_cast
    rfl
  simp only [Except.ok.injEq, popTo, isolatedPrefix, visit, hinc, TarjanSCCCalculator.mk.injEq, true_and]
  refine ⟨?_, ?_⟩
  · funext x
    by_cases hx : x = k
    · subst hx
      simp
    · have : x < k + 1 ↔ x < k := by omega
      simp [hx, this]
  · simp [List.range_succ]

theorem calculateSCCs_isolated_prefix : ∀ k ≤ 2 ^ 31 - 1,
    (List.range k).foldlM
      (fun self i => do
        let v ← self.nodeAt i
        if v.index = -1 then scc wrapSuccessors (2 ^ 31 + 1) i self else pure self)
      (TarjanSCCCalculator.cleared (2 ^ 31 + 1)) = .ok (isolatedPrefix (2 ^ 31 + 1) k)
  | 0, _ => by rw [cleared_eq_isolatedPrefix]; rfl
  | k + 1, hk => by
    rw [List.range_succ, List.foldlM_append, calculateSCCs_isolated_prefix k (by omega)]
    have hkn : k < (isolatedPrefix (2 ^ 31 + 1) k).nodeCount := by simp [isolatedPrefix]; omega
    have hfresh : ((isolatedPrefix (2 ^ 31 + 1) k).nodes k).index = -1 := by simp [isolatedPrefix]
    have hg : wrapSuccessors k = ∅ := by simp [wrapSuccessors]; omega
    simp only [List.foldlM_cons, List.foldlM_nil, Except.ok_bind, nodeAt_of_lt _ hkn, hfresh, if_true, bind_pure]
    exact @scc_isolated _ _ _ (2 ^ 31) (by omega) (by omega) hg

/-- With `2 ^ 31 + 1` nodes and the one edge from `2 ^ 31 - 1` to `2 ^ 31`, `calculateSCCs`
leaves node `2 ^ 31 - 1` out of every component. -/
theorem calculateSCCs_wrap_drops_node :
    (∀ i < 2 ^ 31 + 1, ∀ j ∈ wrapSuccessors i, j < 2 ^ 31 + 1) ∧
    ∃ t, calculateSCCs (2 ^ 31 + 1) wrapSuccessors = .ok t ∧ ∀ S ∈ t.sccs, 2 ^ 31 - 1 ∉ S := by
  refine ⟨?_, ?_⟩
  · intro i _ j hj
    unfold wrapSuccessors at hj
    split_ifs at hj
    · rw [Finset.mem_singleton.mp hj]
      omega
    · simp at hj
  set t := isolatedPrefix (2 ^ 31 + 1) (2 ^ 31 - 1) with ht
  set t₁ := t.visit (2 ^ 31 - 1) with ht₁
  set t₃ := (t₁.visit (2 ^ 31)).popTo (2 ^ 31) [] t₁.stack with ht₃
  set t₄ := t₃.setLowLink (2 ^ 31 - 1) (min (t₃.nodes (2 ^ 31 - 1)).lowLink (t₃.nodes (2 ^ 31)).lowLink) with ht₄
  have ha_lt : 2 ^ 31 - 1 < t.nodeCount := by simp [ht, isolatedPrefix]
  have hb_fresh : (t₁.nodes (2 ^ 31)).index = -1 := by
    simp [ht₁, visit_nodes, ht, isolatedPrefix]
  have hlow_a : (t₃.nodes (2 ^ 31 - 1)).lowLink = 2 ^ 31 - 1 := by
    simp [ht₃, ht₁, visit_nodes, ht, isolatedPrefix]
  have hlow_b : (t₃.nodes (2 ^ 31)).lowLink = -2 ^ 31 := by
    simp [ht₃, ht₁, visit_nodes, ht, isolatedPrefix, intIncrement]
  have hindex_a : (t₄.nodes (2 ^ 31 - 1)).index = 2 ^ 31 - 1 := by
    simp [ht₄, ht₃, ht₁, visit_nodes, ht, isolatedPrefix]
  have hindex_b : (t₄.nodes (2 ^ 31)).index ≠ -1 := by
    simp [ht₄, ht₃, ht₁, visit_nodes, ht, isolatedPrefix, intIncrement]
  -- node `2 ^ 31`: fresh, a root of its own, and its low-link `INT32_MIN` passes to `2 ^ 31 - 1`
  have hrun_a : scc wrapSuccessors (2 ^ 31 + 1) (2 ^ 31 - 1) t = .ok t₄ := by
    have hg_a : wrapSuccessors (2 ^ 31 - 1) = {2 ^ 31} := by simp [wrapSuccessors]
    have hg_b : wrapSuccessors (2 ^ 31) = ∅ := by simp [wrapSuccessors]
    have hb_lt : 2 ^ 31 < t₁.nodeCount := by simp [ht₁, ht, isolatedPrefix]
    have hroot : (t₄.nodes (2 ^ 31 - 1)).lowLink ≠ (t₄.nodes (2 ^ 31 - 1)).index := by
      rw [hindex_a, ht₄, setLowLink_nodes_lowLink_self, hlow_a, hlow_b]
      decide
    rw [scc_succ _ (2 ^ 31) ha_lt, hg_a, Finset.sort_singleton]
    simp only [List.foldlM_cons, List.foldlM_nil, bind_pure]
    have hrun_b : scc wrapSuccessors (2 ^ 31) (2 ^ 31) t₁ = .ok t₃ :=
      scc_of_no_successors (by omega) hb_lt hg_b
    rw [sccEdge_of_unvisited hb_lt hb_fresh, hrun_b]
    exact emitIfRoot_of_not_root hroot
  have hrange : List.range (2 ^ 31 + 1) = List.range (2 ^ 31 - 1) ++ [2 ^ 31 - 1] ++ [2 ^ 31] := by
    have h : ∀ k, List.range (k + 2) = List.range k ++ [k] ++ [k + 1] := fun k => by simp [List.range_succ]
    rw [show 2 ^ 31 + 1 = 2 ^ 31 - 1 + 2 by omega, h]
    rfl
  have ht₄_count : 2 ^ 31 < t₄.nodeCount := by simp [ht₄, ht₃, ht₁, ht, isolatedPrefix]
  have ha_fresh : (t.nodes (2 ^ 31 - 1)).index = -1 := by simp [ht, isolatedPrefix]
  refine ⟨t₄, ?_, ?_⟩
  · unfold calculateSCCs
    rw [hrange, List.foldlM_append, List.foldlM_append, calculateSCCs_isolated_prefix _ le_rfl, ← ht]
    simp only [List.foldlM_cons, List.foldlM_nil, Except.ok_bind, bind_pure, nodeAt_of_lt _ ha_lt, ha_fresh,
      if_true, hrun_a, nodeAt_of_lt _ ht₄_count, hindex_b, if_false]
    rfl
  · have hsccs : t₄.sccs = (List.range (2 ^ 31 - 1)).map (fun x => ({x} : Finset ℕ)) ++
        [([2 ^ 31] : List ℕ).toFinset ∪ {2 ^ 31}] := by
      simp [ht₄, ht₃, ht₁, ht, isolatedPrefix, popTo]
    rw [hsccs]
    intro S hS
    rcases List.mem_append.mp hS with hS | hS
    · obtain ⟨x, hx, rfl⟩ := List.mem_map.mp hS
      rw [List.mem_range] at hx
      rw [Finset.mem_singleton]
      omega
    · rw [List.mem_singleton.mp hS]
      simp

end HcnetCore.Util
