import HcnetCore.Util.Numeric
import HcnetCore.Overlay.FlowControlCapacity

/-! # Resource vectors of util/TxResource

A `Resource` is a tuple of `int64_t` counts (operations, instructions, bytes, ...) of one size
`n`, a function `Fin n → ℤ` here: the size checks of every operation then hold by their type.
Comparisons are componentwise, `operator+` asserts that no component passes `INT64_MAX`, and
`operator-=` that none goes below zero. Over non-negative counts, `subtractNonNegative` is the
positive part of the difference, so repeated subtraction adds up and the result is zero exactly
when the first vector is below the second.
-/

namespace HcnetCore

open Overlay (releaseAssert releaseAssert_of_true)

set_option autoImplicit false

abbrev Resource (n : ℕ) := Fin n → ℤ

namespace Resource

variable {n : ℕ}

def anyPositive (r : Resource n) : Bool := decide (∃ i, 0 < r i)

/-- `anyGreater`: some component of `lhs` is above that of `rhs`. -/
def anyGreater (lhs rhs : Resource n) : Bool := decide (∃ i, rhs i < lhs i)

/-- `operator<=`: every component is at most the other's. -/
def le (lhs rhs : Resource n) : Bool := decide (∀ i, lhs i ≤ rhs i)

/-- `subtractNonNegative`: the difference, clamped at zero componentwise. -/
def subtractNonNegative (lhs rhs : Resource n) : Resource n :=
  fun i => if lhs i > rhs i then lhs i - rhs i else 0

/-- `Resource::canAdd`: no component of the sum would pass `INT64_MAX`. -/
def canAdd (r other : Resource n) : Bool := decide (∀ i, ¬ INT64_MAX - r i < other i)

/-- `operator+`, through `operator+=`, which asserts `canAdd`. -/
def add (lhs rhs : Resource n) : Except String (Resource n) := do
  releaseAssert (canAdd lhs rhs = true) "canAdd(other)"
  pure (lhs + rhs)

/-- `operator-=`, which asserts that no component goes below zero. -/
def sub (lhs rhs : Resource n) : Except String (Resource n) := do
  releaseAssert (∀ i, lhs i ≥ rhs i) "mResources[i] >= other.mResources[i]"
  pure (lhs - rhs)

def makeEmpty : Resource n := 0

/-! ## The order of resource vectors -/

@[simp] theorem le_eq_true {lhs rhs : Resource n} : le lhs rhs = true ↔ lhs ≤ rhs := by
  simp [le, Pi.le_def]

@[simp] theorem anyGreater_eq_true {lhs rhs : Resource n} : anyGreater lhs rhs = true ↔ ¬ lhs ≤ rhs := by
  simp [anyGreater, Pi.le_def]

@[simp] theorem anyPositive_eq_true {r : Resource n} : anyPositive r = true ↔ ¬ r ≤ 0 := by
  simp [anyPositive, Pi.le_def]

theorem canAdd_eq_true {r other : Resource n} : canAdd r other = true ↔ r + other ≤ fun _ => INT64_MAX := by
  simp only [canAdd, decide_eq_true_eq, Pi.le_def, Pi.add_apply]
  exact forall_congr' fun i => by omega

theorem add_eq_ok {lhs rhs : Resource n} (h : lhs + rhs ≤ fun _ => INT64_MAX) : add lhs rhs = .ok (lhs + rhs) := by
  simp [add, releaseAssert_of_true (canAdd_eq_true.mpr h), pure, Except.pure]

theorem add_eq_error {lhs rhs : Resource n} (h : ¬ lhs + rhs ≤ fun _ => INT64_MAX) :
    add lhs rhs = .error "canAdd(other)" := by
  have hc : ¬ canAdd lhs rhs = true := fun h' => h (canAdd_eq_true.mp h')
  simp only [add, releaseAssert, hc]
  rfl

theorem add_eq_ok_iff {lhs rhs r : Resource n} :
    add lhs rhs = .ok r ↔ (lhs + rhs ≤ fun _ => INT64_MAX) ∧ lhs + rhs = r := by
  by_cases h : lhs + rhs ≤ fun _ => INT64_MAX
  · rw [add_eq_ok h]
    simp [h]
  · rw [add_eq_error h]
    simp [h]

theorem sub_eq_ok {lhs rhs : Resource n} (h : rhs ≤ lhs) : sub lhs rhs = .ok (lhs - rhs) := by
  simp [sub, releaseAssert_of_true (fun i => h i), pure, Except.pure]

end Resource

end HcnetCore
