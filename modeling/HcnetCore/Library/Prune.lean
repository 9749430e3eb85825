import Mathlib

/-! # Pruning a list to its greatest closed part

A round keeps the elements of `P` that pass `keep P`, and rounds repeat until one of them
drops nothing. When `keep` only lets more through against a larger list, the rounds stop
within `P.length + 1` rounds, and they stop at the largest part of `P` whose every element
passes `keep` against it: every such closed part survives every round.
-/

namespace Prune

set_option autoImplicit false

variable {α : Type} (keep : List α → α → Bool)

/-- One round: keep the elements that pass against the current list. -/
def round (P : List α) : List α := P.filter (keep P)

/-- Rounds until one drops nothing, for at most `fuel` rounds. -/
def rounds : ℕ → List α → List α
  | 0, P => P
  | fuel + 1, P => if P.length = (round keep P).length then round keep P else rounds fuel (round keep P)

/-- `keep` lets more through against a larger list. -/
def Monotone : Prop := ∀ ⦃P Q : List α⦄ ⦃x : α⦄, P ⊆ Q → keep P x = true → keep Q x = true

/-- Every element of `U` passes `keep` against `U`. -/
def Closed (U : List α) : Prop := ∀ x ∈ U, keep U x = true

variable {keep}

theorem round_sublist (P : List α) : (round keep P).Sublist P := List.filter_sublist

theorem round_eq_of_length_eq {P : List α} (h : P.length = (round keep P).length) : round keep P = P :=
  (round_sublist P).eq_of_length h.symm

theorem rounds_sublist (fuel : ℕ) (P : List α) : (rounds keep fuel P).Sublist P := by
  induction fuel generalizing P with
  | zero => exact List.Sublist.refl P
  | succ fuel ih =>
    rw [rounds]
    split_ifs
    · exact round_sublist P
    · exact (ih _).trans (round_sublist P)

theorem round_rounds {fuel : ℕ} {P : List α} (hfuel : P.length < fuel) :
    round keep (rounds keep fuel P) = rounds keep fuel P := by
  induction fuel generalizing P with
  | zero => omega
  | succ fuel ih =>
    rw [rounds]
    split_ifs with hlen
    · rw [round_eq_of_length_eq hlen, round_eq_of_length_eq hlen]
    · -- a round that drops something leaves fewer elements than rounds
      have hlt : (round keep P).length < P.length :=
        Nat.lt_of_le_of_ne (round_sublist P).length_le (Ne.symm hlen)
      exact ih (by omega)

theorem closed_rounds {fuel : ℕ} {P : List α} (hfuel : P.length < fuel) : Closed keep (rounds keep fuel P) := by
  intro x hx
  rw [← round_rounds hfuel] at hx
  exact (List.mem_filter.mp hx).2

theorem subset_round (hmono : Monotone keep) {U P : List α} (hU : Closed keep U) (hUP : U ⊆ P) :
    U ⊆ round keep P := by
  intro x hx
  exact List.mem_filter.mpr ⟨hUP hx, hmono hUP (hU x hx)⟩

theorem subset_rounds (hmono : Monotone keep) {U : List α} (hU : Closed keep U) (fuel : ℕ) {P : List α}
    (hUP : U ⊆ P) : U ⊆ rounds keep fuel P := by
  induction fuel generalizing P with
  | zero => exact hUP
  | succ fuel ih =>
    rw [rounds]
    split_ifs
    · exact subset_round hmono hU hUP
    · exact ih (subset_round hmono hU hUP)

end Prune
