import Mathlib

/-! # Shortest paths in a directed graph

Walks of `k` edges along a relation `E`, the distance from a source as the least length of a walk,
and the first hops of the shortest paths to a node: the nodes one edge from the source that lie on
one of them. Breadth-first search finds these level by level, because a node at distance `k + 1` is
one edge from a node at distance `k`, and the first hops of its shortest paths are those of such
predecessors.
-/

namespace ShortestPath

set_option autoImplicit false

variable {α : Type} (E : α → α → Prop)

/-- A walk of `k` edges from `a` to `b`, built from its end. -/
inductive Walk (a : α) : α → ℕ → Prop
  | nil : Walk a a 0
  | tail {b c : α} {k : ℕ} : Walk a b k → E b c → Walk a c (k + 1)

/-- `b` is `k` edges from `a`, and no walk is shorter. -/
def IsDist (a b : α) (k : ℕ) : Prop := IsLeast {j | Walk E a b j} k

def OnShortestPath (a v b : α) : Prop :=
  ∃ i j, Walk E a v i ∧ Walk E v b j ∧ IsDist E a b (i + j)

/-- `v` is the first hop of a shortest path from `a` to `b`: one edge from `a`, on such a path. -/
def FirstHop (a v b : α) : Prop := IsDist E a v 1 ∧ OnShortestPath E a v b

variable {E}

/-! ## Walks -/

theorem Walk.append {a b c : α} {i j : ℕ} (h₁ : Walk E a b i) (h₂ : Walk E b c j) : Walk E a c (i + j) := by
  induction h₂ with
  | nil => exact h₁
  | tail _ hcd ih => exact ih.tail hcd

theorem Walk.eq_of_length_zero {a b : α} (h : Walk E a b 0) : b = a := by
  cases h
  rfl

theorem Walk.exists_last {a c : α} {k : ℕ} (h : Walk E a c (k + 1)) : ∃ b, Walk E a b k ∧ E b c := by
  cases h with
  | tail hw hbc => exact ⟨_, hw, hbc⟩

/-! ## Distances -/

theorem IsDist.walk {a b : α} {k : ℕ} (h : IsDist E a b k) : Walk E a b k := h.1

theorem IsDist.le {a b : α} {k j : ℕ} (h : IsDist E a b k) (hw : Walk E a b j) : k ≤ j := h.2 hw

theorem IsDist.unique {a b : α} {k j : ℕ} (h₁ : IsDist E a b k) (h₂ : IsDist E a b j) : k = j :=
  IsLeast.unique h₁ h₂

theorem isDist_self (a : α) : IsDist E a a 0 := ⟨Walk.nil, fun j _ => Nat.zero_le j⟩

theorem isDist_zero_iff {a b : α} : IsDist E a b 0 ↔ b = a := by
  constructor
  · intro h
    exact h.walk.eq_of_length_zero
  · rintro rfl
    exact isDist_self _

theorem exists_isDist {a b : α} {k : ℕ} (hw : Walk E a b k) : ∃ j, IsDist E a b j := by
  classical
  have hex : ∃ j, Walk E a b j := ⟨k, hw⟩
  exact ⟨Nat.find hex, Nat.find_spec hex, fun j hj => Nat.find_min' hex hj⟩

theorem IsDist.exists_pred {a c : α} {k : ℕ} (h : IsDist E a c (k + 1)) : ∃ b, IsDist E a b k ∧ E b c := by
  obtain ⟨b, hw, hbc⟩ := h.walk.exists_last
  obtain ⟨j, hj⟩ := exists_isDist hw
  have hjk : j ≤ k := hj.le hw
  have hkj : k + 1 ≤ j + 1 := h.le (hj.walk.tail hbc)
  obtain rfl : j = k := by omega
  exact ⟨b, hj, hbc⟩

theorem IsDist.exists_of_le {a c : α} {k j : ℕ} (h : IsDist E a c k) (hjk : j ≤ k) : ∃ b, IsDist E a b j := by
  induction k generalizing c with
  | zero =>
    obtain rfl : j = 0 := by omega
    exact ⟨c, h⟩
  | succ k ih =>
    rcases Nat.lt_or_ge j (k + 1) with hlt | hge
    · obtain ⟨b, hb, _⟩ := h.exists_pred
      exact ih hb (by omega)
    · obtain rfl : j = k + 1 := by omega
      exact ⟨c, h⟩

/-! ## First hops of shortest paths -/

theorem not_firstHop_self (a v : α) : ¬FirstHop E a v a := by
  rintro ⟨hv, i, j, hi, _, hd⟩
  have hzero : i + j = 0 := (isDist_self a).unique hd |>.symm
  obtain rfl : i = 0 := by omega
  obtain rfl := hi.eq_of_length_zero
  exact absurd (hv.unique (isDist_self v)) (by omega)

theorem firstHop_iff_of_isDist_one {a b v : α} (hb : IsDist E a b 1) : FirstHop E a v b ↔ v = b := by
  constructor
  · rintro ⟨hv, i, j, hi, hj, hd⟩
    have hsum : i + j = 1 := (hb.unique hd).symm
    have hone : 1 ≤ i := hv.le hi
    obtain rfl : j = 0 := by omega
    exact hj.eq_of_length_zero.symm
  · rintro rfl
    exact ⟨hb, 1, 0, hb.walk, Walk.nil, hb⟩

theorem firstHop_iff_of_isDist_succ_succ {a b v : α} {k : ℕ} (hb : IsDist E a b (k + 2)) :
    FirstHop E a v b ↔ ∃ p, IsDist E a p (k + 1) ∧ E p b ∧ FirstHop E a v p := by
  constructor
  · rintro ⟨hv, i, j, hi, hj, hd⟩
    have hsum : i + j = k + 2 := (hb.unique hd).symm
    have hone : 1 ≤ i := hv.le hi
    -- the path does not end at `v`: `v` is at distance one and `b` at `k + 2`
    obtain ⟨j, rfl⟩ : ∃ j', j = j' + 1 := by
      rcases j with _ | j
      · obtain rfl := hj.eq_of_length_zero
        exact absurd (hv.unique hb) (by omega)
      · exact ⟨j, rfl⟩
    obtain ⟨p, hvp, hpb⟩ := hj.exists_last
    have hap : Walk E a p (k + 1) := by
      have hw := hi.append hvp
      rwa [show i + j = k + 1 by omega] at hw
    obtain ⟨d, hd⟩ := exists_isDist hap
    have hdle : d ≤ k + 1 := hd.le hap
    have hdge : k + 2 ≤ d + 1 := hb.le (hd.walk.tail hpb)
    obtain rfl : d = k + 1 := by omega
    exact ⟨p, hd, hpb, hv, i, j, hi, hvp, by rwa [show i + j = k + 1 by omega]⟩
  · rintro ⟨p, hp, hpb, hv, i, j, hi, hj, hd⟩
    have hsum : i + j = k + 1 := (hp.unique hd).symm
    exact ⟨hv, i, j + 1, hi, hj.tail hpb, by rwa [show i + (j + 1) = k + 2 by omega]⟩

theorem firstHop_iff_of_isDist_succ {a b v : α} {k : ℕ} (hb : IsDist E a b (k + 1)) :
    FirstHop E a v b ↔ ∃ p, IsDist E a p k ∧ E p b ∧ (if k = 0 then v = b else FirstHop E a v p) := by
  rcases k with _ | k
  · rw [firstHop_iff_of_isDist_one hb]
    constructor
    · rintro rfl
      obtain ⟨p, hp, hpv⟩ := hb.exists_pred
      obtain rfl := isDist_zero_iff.mp hp
      exact ⟨p, hp, hpv, rfl⟩
    · rintro ⟨_, _, _, hv⟩
      exact hv
  · rw [firstHop_iff_of_isDist_succ_succ hb]
    simp only [Nat.add_one_ne_zero, if_false]

end ShortestPath
