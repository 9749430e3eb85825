import Mathlib

/-! # Credit-based flow control

One direction of a credit-based flow: the sender sends only against credit that the receiver
has granted; the receiver reads what was sent in order, holds it while it works on it, counts it
as processed once done, and grants processed amounts back over a channel that may deliver its
grants in any order. The receiver may also raise its capacity and grant the raise at once.

Along every run the sender's credit, the data in flight, held and processed, and the grants in
flight add up to the receiver's capacity (`Channel.Conserved`). Hence the receiver has room for
whatever it reads next, and no grant takes the sender's credit above the capacity.
-/

namespace CreditFlow

set_option autoImplicit false

/-- One direction of a credit-based flow, counted in one resource. -/
structure Channel where
  credit : ℕ
  inFlight : List ℕ
  held : ℕ
  pending : ℕ
  grants : Multiset ℕ
  limit : ℕ

namespace Channel

/-- Everything between the two ends: credit, data in flight, held and processed, and grants. -/
def total (c : Channel) : ℕ := c.credit + c.inFlight.sum + c.held + c.pending + c.grants.sum

/-- The law of the flow: all of the receiver's capacity is somewhere between the two ends. -/
def Conserved (c : Channel) : Prop := c.total = c.limit

end Channel

inductive Step : Channel → Channel → Prop
  | send (c : Channel) (n : ℕ) (h : n ≤ c.credit) :
      Step c { c with credit := c.credit - n, inFlight := c.inFlight ++ [n] }
  | read (c : Channel) (n : ℕ) (rest : List ℕ) (h : c.inFlight = n :: rest) :
      Step c { c with inFlight := rest, held := c.held + n }
  | release (c : Channel) (n : ℕ) (h : n ≤ c.held) :
      Step c { c with held := c.held - n, pending := c.pending + n }
  | grant (c : Channel) (n : ℕ) (h : n ≤ c.pending) :
      Step c { c with pending := c.pending - n, grants := n ::ₘ c.grants }
  | deliver (c : Channel) (n : ℕ) (h : n ∈ c.grants) :
      Step c { c with credit := c.credit + n, grants := c.grants.erase n }
  | raise (c : Channel) (n : ℕ) :
      Step c { c with limit := c.limit + n, grants := n ::ₘ c.grants }

abbrev Steps : Channel → Channel → Prop := Relation.ReflTransGen Step

namespace Channel

variable {c c' : Channel}

theorem Conserved.step (hc : c.Conserved) (h : Step c c') : c'.Conserved := by
  unfold Conserved total at *
  cases h with
  | send n h =>
    dsimp only
    rw [List.sum_append, List.sum_singleton]
    omega
  | read n rest h =>
    dsimp only
    rw [h, List.sum_cons] at hc
    omega
  | release n h =>
    dsimp only
    omega
  | grant n h =>
    dsimp only
    rw [Multiset.sum_cons]
    omega
  | deliver n h =>
    dsimp only
    have hsum := Multiset.sum_erase h
    omega
  | raise n =>
    dsimp only
    rw [Multiset.sum_cons]
    omega

theorem Conserved.steps (hc : c.Conserved) (h : Steps c c') : c'.Conserved := by
  induction h with
  | refl => exact hc
  | tail _ hstep ih => exact ih.step hstep

theorem Conserved.held_add_le {n : ℕ} {rest : List ℕ} (hc : c.Conserved) (h : c.inFlight = n :: rest) :
    c.held + n ≤ c.limit := by
  unfold Conserved total at hc
  rw [h, List.sum_cons] at hc
  omega

theorem Conserved.credit_add_le {n : ℕ} (hc : c.Conserved) (h : n ∈ c.grants) : c.credit + n ≤ c.limit := by
  unfold Conserved total at hc
  have hsum := Multiset.sum_erase h
  omega

end Channel

/-! ## Runs of several operations

Operations named by the state they reach, so that a model's step can be matched without
rewriting the reached state into the constructor's form. -/

namespace Steps

variable {c c' : Channel}

theorem send {n : ℕ} (h : n ≤ c.credit) (h' : c' = { c with credit := c.credit - n, inFlight := c.inFlight ++ [n] }) :
    Steps c c' :=
  h' ▸ .single (.send c n h)

theorem read {n : ℕ} {rest : List ℕ} (h : c.inFlight = n :: rest)
    (h' : c' = { c with inFlight := rest, held := c.held + n }) : Steps c c' :=
  h' ▸ .single (.read c n rest h)

theorem release {n : ℕ} (h : n ≤ c.held) (h' : c' = { c with held := c.held - n, pending := c.pending + n }) :
    Steps c c' :=
  h' ▸ .single (.release c n h)

theorem grant {n : ℕ} (h : n ≤ c.pending) (h' : c' = { c with pending := c.pending - n, grants := n ::ₘ c.grants }) :
    Steps c c' :=
  h' ▸ .single (.grant c n h)

theorem deliver {n : ℕ} (h : n ∈ c.grants) (h' : c' = { c with credit := c.credit + n, grants := c.grants.erase n }) :
    Steps c c' :=
  h' ▸ .single (.deliver c n h)

theorem raise {n : ℕ} (h' : c' = { c with limit := c.limit + n, grants := n ::ₘ c.grants }) : Steps c c' :=
  h' ▸ .single (.raise c n)

theorem sendAll (l : List ℕ) (h : l.sum ≤ c.credit)
    (h' : c' = { c with credit := c.credit - l.sum, inFlight := c.inFlight ++ l }) : Steps c c' := by
  subst h'
  induction l generalizing c with
  | nil => simpa using Relation.ReflTransGen.refl
  | cons n l ih =>
    rw [List.sum_cons] at h
    refine Relation.ReflTransGen.head (.send c n (by omega)) ?_
    refine (ih (c := { c with credit := c.credit - n, inFlight := c.inFlight ++ [n] }) (by simp only; omega)).trans ?_
    simp only [List.sum_cons, List.append_assoc, List.singleton_append, Nat.sub_sub]
    exact .refl

theorem grantAll (l : List ℕ) (h : l.sum ≤ c.pending)
    (h' : c' = { c with pending := c.pending - l.sum, grants := c.grants + l }) : Steps c c' := by
  subst h'
  induction l generalizing c with
  | nil => simpa using Relation.ReflTransGen.refl
  | cons n l ih =>
    rw [List.sum_cons] at h
    refine Relation.ReflTransGen.head (.grant c n (by omega)) ?_
    refine (ih (c := { c with pending := c.pending - n, grants := n ::ₘ c.grants }) (by simp only; omega)).trans ?_
    simp only [List.sum_cons, Nat.sub_sub, Multiset.cons_add, ← Multiset.cons_coe, Multiset.add_cons]
    exact .refl

end Steps

end CreditFlow
