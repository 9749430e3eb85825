import HcnetCore.Ledger.LedgerTxn
import HcnetCore.Library.SortedList
import Mathlib

/-! # The order of offers

`isBetterOffer` compares the binary64 quotients of two prices and then the offer ids.
Away from the price `0/0`, whose quotient is NaN, that is the lexicographic order of
`sortKey`, and the order book's `emplace`, `erase` and `upperBound` are the operations of
a list sorted by `sortKey`.
-/

namespace HcnetCore.Ledger

set_option autoImplicit false

variable {K : Type}

/-- A price that `isBetterOffer` can compare: not `0/0`, whose quotient is NaN. -/
def Price.Comparable (p : Price) : Prop := Binary64.div p.n p.d ≠ .nan

instance (p : Price) : Decidable p.Comparable := inferInstanceAs (Decidable (_ ≠ _))

/-- Where `isBetterOffer` puts a descriptor: its quotient on the extended line, then its id. -/
def OfferDescriptor.sortKey (d : OfferDescriptor) : WithBot (WithTop ℚ) ×ₗ ℤ :=
  toLex ((Binary64.div d.price.n d.price.d).toExt, d.offerID)

theorem isBetterOffer_iff {lhs rhs : OfferDescriptor} (hr : rhs.price.Comparable) :
    isBetterOffer lhs rhs = true ↔ lhs.price.Comparable ∧ lhs.sortKey < rhs.sortKey := by
  by_cases hl : lhs.price.Comparable
  · rw [OfferDescriptor.sortKey, OfferDescriptor.sortKey, Prod.Lex.toLex_lt_toLex,
      ← Binary64.lt_iff_toExt hl hr, ← Binary64.beq_iff_toExt hl hr]
    simp only [isBetterOffer]
    cases Binary64.lt (Binary64.div lhs.price.n lhs.price.d) (Binary64.div rhs.price.n rhs.price.d) <;>
      cases Binary64.beq (Binary64.div lhs.price.n lhs.price.d) (Binary64.div rhs.price.n rhs.price.d) <;>
      simp [hl]
  · have hNaN : Binary64.div lhs.price.n lhs.price.d = .nan := not_not.mp hl
    simp [isBetterOffer, hNaN, hl]

theorem isBetterOffer_eq_decide {lhs rhs : OfferDescriptor} (hl : lhs.price.Comparable)
    (hr : rhs.price.Comparable) : isBetterOffer lhs rhs = decide (lhs.sortKey < rhs.sortKey) := by
  rw [Bool.eq_iff_iff, isBetterOffer_iff hr, decide_eq_true_iff]
  exact and_iff_right hl

namespace OrderBook

abbrev sortKey (e : OfferDescriptor × LedgerKey K) : WithBot (WithTop ℚ) ×ₗ ℤ := e.1.sortKey

theorem emplace_eq {d : OfferDescriptor} {k : LedgerKey K} {ob : OrderBook K} (hd : d.price.Comparable)
    (hob : ∀ e ∈ ob, e.1.price.Comparable) :
    emplace d k ob = SortedList.emplace sortKey (d, k) ob := by
  induction ob with
  | nil => rfl
  | cons e ob ih =>
    have he := hob e List.mem_cons_self
    simp only [emplace, SortedList.emplace, isBetterOffer_eq_decide hd he, isBetterOffer_eq_decide he hd,
      decide_eq_true_eq, ih (fun e' he' => hob e' (List.mem_cons_of_mem _ he'))]

theorem erase_eq {d : OfferDescriptor} {ob : OrderBook K} (hd : d.price.Comparable)
    (hob : ∀ e ∈ ob, e.1.price.Comparable) :
    erase d ob = ob.eraseP fun e => sortKey e = d.sortKey := by
  induction ob with
  | nil => rfl
  | cons e ob ih =>
    have he := hob e List.mem_cons_self
    have hEquiv : equiv e.1 d = decide (sortKey e = d.sortKey) := by
      rw [equiv, isBetterOffer_eq_decide he hd, isBetterOffer_eq_decide hd he]
      rcases lt_trichotomy e.1.sortKey d.sortKey with h | h | h
      · simp [h, h.ne, not_lt_of_gt h]
      · simp [h]
      · simp [h, h.ne', not_lt_of_gt h]
    unfold erase at ih ⊢
    rw [List.eraseP_cons, List.eraseP_cons, hEquiv, ih (fun e' he' => hob e' (List.mem_cons_of_mem _ he'))]

end OrderBook

end HcnetCore.Ledger
