import Mathlib

/-! # Stack machines that work at the top

A machine whose state is a stack of levels, innermost first, and whose operations
touch only the levels near the top: as long as a run keeps at least one level above
a stack `cs`, it leaves `cs` as it was. So a level opened over `cs` and rolled back
before anything below it was touched gives `cs` back.
-/

namespace StackMachine

set_option autoImplicit false

variable {α ω : Type}

def Above (cs s : List α) : Prop := ∃ t, t ≠ [] ∧ s = t ++ cs

/-- A step that leaves `cs` alone whenever it leaves some level above it. -/
def KeepsBelow (step : List α → List α) : Prop :=
  ∀ cs s, Above cs s → cs.length < (step s).length → Above cs (step s)

section Run

variable {σ τ : Type}

/-- The state after a sequence of operations, applied from the left. -/
def run (step : ω → σ → σ) (ops : List ω) (s : σ) : σ :=
  ops.foldl (fun s op => step op s) s

@[simp] theorem run_nil (step : ω → σ → σ) (s : σ) : run step [] s = s := rfl

@[simp] theorem run_cons (step : ω → σ → σ) (op : ω) (ops : List ω) (s : σ) :
    run step (op :: ops) s = run step ops (step op s) := rfl

theorem run_append (step : ω → σ → σ) (ops ops' : List ω) (s : σ) :
    run step (ops ++ ops') s = run step ops' (run step ops s) :=
  List.foldl_append

theorem run_simulation (step : ω → σ → σ) (step' : ω → τ → τ) (R : σ → τ → Prop)
    (hstep : ∀ op s t, R s t → R (step op s) (step' op t)) :
    ∀ (ops : List ω) (s : σ) (t : τ), R s t → R (run step ops s) (run step' ops t)
  | [], _, _, h => h
  | op :: ops, s, t, h => run_simulation step step' R hstep ops _ _ (hstep op s t h)

end Run

theorem above_cons (cs t : List α) (x : α) : Above cs (x :: (t ++ cs)) :=
  ⟨x :: t, List.cons_ne_nil x t, rfl⟩

theorem eq_cons_of_above {cs s : List α} (h : Above cs s) (hlen : s.length = cs.length + 1) :
    ∃ c, s = c :: cs := by
  obtain ⟨t, ht, rfl⟩ := h
  rw [List.length_append] at hlen
  obtain ⟨c, rfl⟩ := List.length_eq_one_iff.mp (by omega : t.length = 1)
  exact ⟨c, rfl⟩

/-- What one step does to a stack: push a level, leave it, replace the top level, pop it, or
merge the top two levels into one. -/
inductive TopChange (s : List α) : List α → Prop
  | push (y : α) : TopChange s (y :: s)
  | same : TopChange s s
  | replace (x y : α) (rest : List α) (h : s = x :: rest) : TopChange s (y :: rest)
  | pop (x : α) (rest : List α) (h : s = x :: rest) : TopChange s rest
  | merge (x z y : α) (rest : List α) (h : s = x :: z :: rest) : TopChange s (y :: rest)

theorem TopChange.above {cs s s' : List α} (h : TopChange s s') (hs : Above cs s)
    (hlen : cs.length < s'.length) : Above cs s' := by
  obtain ⟨t, ht, rfl⟩ := hs
  obtain ⟨x₀, t, rfl⟩ := List.exists_cons_of_ne_nil ht
  cases h with
  | push y => exact above_cons cs (x₀ :: t) y
  | same => exact above_cons cs t x₀
  | replace x y rest h =>
    cases h
    exact above_cons cs t y
  | pop x rest h =>
    cases h
    rcases t with _ | ⟨z, t⟩
    · exact absurd hlen (Nat.lt_irrefl _)
    · exact above_cons cs t z
  | merge x z y rest h =>
    rcases t with _ | ⟨z', t⟩
    · simp only [List.nil_append, List.cons_append, List.cons.injEq] at h
      obtain ⟨-, rfl⟩ := h
      simp at hlen
    · simp only [List.cons_append, List.cons.injEq] at h
      obtain ⟨-, -, rfl⟩ := h
      exact above_cons cs t y

theorem keepsBelow_of_topChange {step : List α → List α} (h : ∀ s, TopChange s (step s)) :
    KeepsBelow step :=
  fun _ s hs hlen => (h s).above hs hlen

variable {step : ω → List α → List α}

theorem above_run (hstep : ∀ op, KeepsBelow (step op)) {cs : List α} :
    ∀ (ops : List ω) (s : List α), Above cs s →
      (∀ n, n ≤ ops.length → cs.length < (run step (ops.take n) s).length) →
      Above cs (run step ops s)
  | [], _, hs, _ => hs
  | op :: ops, s, hs, hopen => by
    have hFirst : cs.length < (step op s).length := hopen 1 (by simp)
    refine above_run hstep ops (step op s) (hstep op cs s hs hFirst) fun n hn => ?_
    have h := hopen (n + 1) (by simp; omega)
    rwa [List.take_succ_cons, run_cons] at h

theorem run_open_pop (hstep : ∀ op s, TopChange s (step op s)) {cs : List α} {opn pop : ω}
    {ops : List ω} (hOpened : Above cs (step opn cs)) (hPop : ∀ c, step pop (c :: cs) = cs)
    (hopen : ∀ n, n ≤ ops.length → cs.length < (run step (opn :: ops.take n) cs).length)
    (hlen : (run step (opn :: ops) cs).length = cs.length + 1) :
    run step (opn :: ops ++ [pop]) cs = cs := by
  have hAbove := above_run (fun op => keepsBelow_of_topChange (hstep op)) ops (step opn cs) hOpened hopen
  obtain ⟨c, hc⟩ := eq_cons_of_above hAbove hlen
  rw [run_append, run_cons, run_cons, hc, run_nil]
  exact hPop c

end StackMachine
