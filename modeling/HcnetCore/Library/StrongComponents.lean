import Mathlib

/-! # Strongly connected components

Two nodes are in one strongly connected component when each reaches the other along `E`. A
depth-first search closes the components one at a time, each once every node it reaches is in it
or in a component closed before; a list of components kept that way is `ClosedComponents`, and
once it covers the nodes it is their decomposition into components in reverse topological order.
-/

namespace StrongComponents

set_option autoImplicit false

open Relation

variable {α : Type} (E : α → α → Prop)

def Mutual (a b : α) : Prop := ReflTransGen E a b ∧ ReflTransGen E b a

/-- `S` is a strongly connected component: for each of its members, the nodes it shares a
component with. -/
def IsComponent (S : Finset α) : Prop := ∀ a ∈ S, ∀ b, b ∈ S ↔ Mutual E a b

/-- Components in the order a search closes them: each is disjoint from the others, and what a
component of the first `k` has an edge to lies in one of the first `k`. -/
structure ClosedComponents (L : List (Finset α)) : Prop where
  isComponent : ∀ S ∈ L, IsComponent E S
  nonempty : ∀ S ∈ L, S.Nonempty
  pairwise_disjoint : L.Pairwise Disjoint
  closed : ∀ k, ∀ S ∈ L.take k, ∀ a ∈ S, ∀ b, E a b → ∃ T ∈ L.take k, b ∈ T

/-- The nodes `U` split into their strongly connected components, listed in reverse topological
order: an edge between two components goes to the earlier one. -/
structure IsSCCDecomposition (U : Set α) (L : List (Finset α)) : Prop where
  pairwise_disjoint : L.Pairwise Disjoint
  nonempty : ∀ S ∈ L, S.Nonempty
  mem_iff : ∀ a, a ∈ U ↔ ∃ S ∈ L, a ∈ S
  together_iff : ∀ a ∈ U, ∀ b ∈ U, (∃ S ∈ L, a ∈ S ∧ b ∈ S) ↔ Mutual E a b
  reverse_topological : ∀ i j (hi : i < L.length) (hj : j < L.length), i ≠ j →
    ∀ a ∈ L[i], ∀ b ∈ L[j], E a b → j < i

variable {E}

/-! ## Mutual reachability -/

theorem Mutual.symm {a b : α} (h : Mutual E a b) : Mutual E b a := ⟨h.2, h.1⟩

theorem Mutual.trans {a b c : α} (h₁ : Mutual E a b) (h₂ : Mutual E b c) : Mutual E a c :=
  ⟨h₁.1.trans h₂.1, h₂.2.trans h₁.2⟩

theorem reach_of_closed {P : α → Prop} (hP : ∀ a b, P a → E a b → P b) {a b : α} (ha : P a)
    (h : ReflTransGen E a b) : P b := by
  induction h with
  | refl => exact ha
  | tail _ hbc ih => exact hP _ _ ih hbc

theorem reach_of_simulation {β : Type} {r' : β → β → Prop} {R : α → β → Prop}
    (hsim : ∀ a x y, R a x → r' x y → ∃ b, R b y ∧ E a b) {a : α} {x y : β} (hx : R a x)
    (h : ReflTransGen r' x y) : ∃ b, R b y ∧ ReflTransGen E a b := by
  induction h with
  | refl => exact ⟨a, hx, ReflTransGen.refl⟩
  | tail _ hyz ih =>
    obtain ⟨b, hb, hab⟩ := ih
    obtain ⟨c, hc, hbc⟩ := hsim b _ _ hb hyz
    exact ⟨c, hc, hab.tail hbc⟩

theorem isComponent_of_forall_mem_iff {S : Finset α} {a : α} (h : ∀ b, b ∈ S ↔ Mutual E a b) :
    IsComponent E S := by
  intro c hc b
  have hac : Mutual E a c := (h c).mp hc
  rw [h b]
  constructor
  · intro hab
    exact hac.symm.trans hab
  · intro hcb
    exact hac.trans hcb

theorem IsComponent.mem_of_mutual {S : Finset α} (hS : IsComponent E S) {a b : α} (ha : a ∈ S)
    (h : Mutual E a b) : b ∈ S :=
  (hS a ha b).mpr h

/-! ## Components closed one at a time -/

theorem closedComponents_nil : ClosedComponents E ([] : List (Finset α)) where
  isComponent := by simp
  nonempty := by simp
  pairwise_disjoint := List.Pairwise.nil
  closed := by simp

namespace ClosedComponents

variable {L : List (Finset α)}

theorem closed_mem (hL : ClosedComponents E L) {S : Finset α} (hS : S ∈ L) {a b : α} (ha : a ∈ S)
    (hab : E a b) : ∃ T ∈ L, b ∈ T := by
  have hS' : S ∈ L.take L.length := by rwa [List.take_length]
  obtain ⟨T, hT, hb⟩ := hL.closed L.length S hS' a ha b hab
  rw [List.take_length] at hT
  exact ⟨T, hT, hb⟩

theorem concat (hL : ClosedComponents E L) {P : Finset α} (hP : IsComponent E P) (hne : P.Nonempty)
    (hdisj : ∀ S ∈ L, Disjoint S P) (hclosed : ∀ a ∈ P, ∀ b, E a b → b ∈ P ∨ ∃ T ∈ L, b ∈ T) :
    ClosedComponents E (L ++ [P]) where
  isComponent := by
    intro S hS
    rcases List.mem_append.mp hS with hS | hS
    · exact hL.isComponent S hS
    · rw [List.mem_singleton.mp hS]
      exact hP
  nonempty := by
    intro S hS
    rcases List.mem_append.mp hS with hS | hS
    · exact hL.nonempty S hS
    · rw [List.mem_singleton.mp hS]
      exact hne
  pairwise_disjoint := by
    rw [List.pairwise_append]
    refine ⟨hL.pairwise_disjoint, List.pairwise_singleton _ _, ?_⟩
    intro S hS T hT
    rw [List.mem_singleton.mp hT]
    exact hdisj S hS
  closed := by
    intro k
    rcases Nat.lt_or_ge L.length k with hk | hk
    · -- the whole list: the new component's edges, or those of a closed one
      rw [List.take_of_length_le (by simp; omega)]
      intro S hS a ha b hab
      rcases List.mem_append.mp hS with hS | hS
      · obtain ⟨T, hT, hb⟩ := hL.closed_mem hS ha hab
        exact ⟨T, List.mem_append_left _ hT, hb⟩
      · rw [List.mem_singleton.mp hS] at ha
        rcases hclosed a ha b hab with hb | ⟨T, hT, hb⟩
        · exact ⟨P, by simp, hb⟩
        · exact ⟨T, List.mem_append_left _ hT, hb⟩
    · rw [List.take_append_of_le_length hk]
      exact hL.closed k

theorem isSCCDecomposition (hL : ClosedComponents E L) {U : Set α} (hU : ∀ a, a ∈ U ↔ ∃ S ∈ L, a ∈ S) :
    IsSCCDecomposition E U L where
  pairwise_disjoint := hL.pairwise_disjoint
  nonempty := hL.nonempty
  mem_iff := hU
  together_iff := by
    intro a ha b _
    constructor
    · rintro ⟨S, hS, haS, hbS⟩
      exact ((hL.isComponent S hS) a haS b).mp hbS
    · intro hab
      obtain ⟨S, hS, haS⟩ := (hU a).mp ha
      exact ⟨S, hS, haS, (hL.isComponent S hS).mem_of_mutual haS hab⟩
  reverse_topological := by
    intro i j hi hj hij a ha b hb hab
    have hSi : L[i] ∈ L.take (i + 1) := List.mem_iff_getElem.mpr ⟨i, by simp; omega, by simp⟩
    obtain ⟨T, hT, hbT⟩ := hL.closed (i + 1) L[i] hSi a ha b hab
    obtain ⟨k, hk, rfl⟩ := List.mem_iff_getElem.mp hT
    have hki : k < i + 1 := by simp at hk; omega
    have hkL : k < L.length := by simp at hk; omega
    rw [List.getElem_take] at hbT
    -- `b` lies in the `j`th and the `k`th component, which are disjoint unless `j = k`
    have hjk : j = k := by
      by_contra hne
      have hdisj : Disjoint L[j] L[k] := by
        rcases Nat.lt_or_gt_of_ne hne with hlt | hlt
        · exact List.pairwise_iff_getElem.mp hL.pairwise_disjoint j k hj hkL hlt
        · exact (List.pairwise_iff_getElem.mp hL.pairwise_disjoint k j hkL hj hlt).symm
      exact Finset.disjoint_left.mp hdisj hb hbT
    omega

end ClosedComponents

theorem IsSCCDecomposition.mem_of_mutual {U : Set α} {L : List (Finset α)} (hL : IsSCCDecomposition E U L)
    {S : Finset α} (hS : S ∈ L) {a b : α} (ha : a ∈ S) (hb : b ∈ U) (h : Mutual E a b) : b ∈ S := by
  have haU : a ∈ U := (hL.mem_iff a).mpr ⟨S, hS, ha⟩
  obtain ⟨T, hT, haT, hbT⟩ := (hL.together_iff a haU b hb).mpr h
  by_cases hST : S = T
  · rw [hST]
    exact hbT
  · have hdisj := hL.pairwise_disjoint.forall hS hT hST
    exact absurd haT (Finset.disjoint_left.mp hdisj ha)

end StrongComponents
