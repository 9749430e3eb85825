import Mathlib

/-! # The smallest elements have the least sum

The first `r` elements of a list in increasing order have the least sum of any `r` elements drawn
from it: a greedy choice of the cheapest items is optimal when costs add up. Lists kept in order
by a size, with later equal sizes after earlier ones (`orderedInsert` on the strict order), stay
in increasing order.
-/

namespace SmallestSum

set_option autoImplicit false

theorem sum_take_le_of_le {L : List ℕ} (hL : L.Pairwise (· ≤ ·)) {s : Multiset ℕ} (hs : s ≤ (L : Multiset ℕ))
    {r : ℕ} (hr : r ≤ Multiset.card s) : (L.take r).sum ≤ s.sum := by
  induction L generalizing s r with
  | nil =>
    obtain rfl : s = 0 := Multiset.le_zero.mp hs
    obtain rfl : r = 0 := by simpa using hr
    simp
  | cons a L ih =>
    obtain ⟨ha, hL'⟩ := List.pairwise_cons.mp hL
    rw [← Multiset.cons_coe] at hs
    rcases r with _ | r
    · simp
    rw [List.take_succ_cons, List.sum_cons]
    by_cases has : a ∈ s
    · -- `a` is drawn: the others are drawn from the tail
      obtain ⟨t, rfl⟩ := Multiset.exists_cons_of_mem has
      have ht : t ≤ (L : Multiset ℕ) := (Multiset.cons_le_cons_iff a).mp hs
      have hsum := ih hL' ht (by simpa using hr)
      rw [Multiset.sum_cons]
      omega
    · -- `a` is not drawn: a drawn element `b` is at least `a`, and the others come from the tail
      have hsL : s ≤ (L : Multiset ℕ) := (Multiset.le_cons_of_notMem has).mp hs
      obtain ⟨b, hb⟩ : ∃ b, b ∈ s := Multiset.card_pos_iff_exists_mem.mp (by omega)
      obtain ⟨t, rfl⟩ := Multiset.exists_cons_of_mem hb
      have ht : t ≤ (L : Multiset ℕ) := le_trans (Multiset.le_cons_self t b) hsL
      have hab : a ≤ b := ha b (Multiset.mem_coe.mp (Multiset.mem_of_le hsL (Multiset.mem_cons_self b t)))
      have hsum := ih hL' ht (by simpa using hr)
      rw [Multiset.sum_cons]
      omega

variable {α : Type} (f : α → ℕ)

theorem pairwise_orderedInsert (a : α) (l : List α) (hl : l.Pairwise (fun x y => f x ≤ f y)) :
    (l.orderedInsert (fun x y => f x < f y) a).Pairwise (fun x y => f x ≤ f y) := by
  induction l with
  | nil => simp
  | cons b l ih =>
    obtain ⟨hb, hl'⟩ := List.pairwise_cons.mp hl
    rw [List.orderedInsert_cons]
    split_ifs with hab
    · exact List.Pairwise.cons (fun c hc => by
        rcases List.mem_cons.mp hc with rfl | hc
        · exact hab.le
        · exact le_trans hab.le (hb c hc)) hl
    · refine List.Pairwise.cons (fun c hc => ?_) (ih hl')
      rcases List.mem_cons.mp ((List.perm_orderedInsert _ a l).mem_iff.mp hc) with rfl | hc
      · omega
      · exact hb c hc

end SmallestSum
