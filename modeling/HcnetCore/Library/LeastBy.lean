import Mathlib

/-! # Least elements by a key

`IsLeastBy key p r` says that the optional `r` is an element of least key among those
that satisfy `p`, and is `none` only when no element does: what a query for the best
element answers. The lemmas say how such answers combine: the smaller of two answers
answers the union, a scan step that takes a smaller element keeps the answer, and an
answer carries over along a correspondence that keeps keys. Beside them, the count that
proves a search moving strictly down a finite list of stops ends.
-/

namespace LeastBy

set_option autoImplicit false

variable {α β γ : Type} [LinearOrder β] {key : α → β}

/-- `r` has the least key among the elements that satisfy `p`; `none` when there are none. -/
def IsLeastBy (key : α → β) (p : α → Prop) : Option α → Prop
  | none => ∀ a, ¬ p a
  | some a => p a ∧ ∀ b, p b → key a ≤ key b

/-- The answer of smaller key, the second one on a tie. -/
def minBy (key : α → β) : Option α → Option α → Option α
  | some a, none => some a
  | none, some b => some b
  | some a, some b => if key a < key b then some a else some b
  | none, none => none

@[simp] theorem isLeastBy_none {p : α → Prop} : IsLeastBy key p none ↔ ∀ a, ¬ p a := Iff.rfl

@[simp] theorem isLeastBy_some {p : α → Prop} {a : α} :
    IsLeastBy key p (some a) ↔ p a ∧ ∀ b, p b → key a ≤ key b := Iff.rfl

theorem IsLeastBy.congr {p q : α → Prop} {r : Option α} (h : IsLeastBy key p r) (hpq : ∀ a, p a ↔ q a) :
    IsLeastBy key q r := by
  cases r with
  | none => exact fun a hq => h a ((hpq a).mpr hq)
  | some a => exact ⟨(hpq a).mp h.1, fun b hb => h.2 b ((hpq b).mpr hb)⟩

theorem IsLeastBy.unique {p : α → Prop} {r r' : Option α}
    (hinj : ∀ a b, p a → p b → key a = key b → a = b) (h : IsLeastBy key p r) (h' : IsLeastBy key p r') :
    r = r' := by
  cases r with
  | none =>
    cases r' with
    | none => rfl
    | some a' => exact absurd h'.1 (h a')
  | some a =>
    cases r' with
    | none => exact absurd h.1 (h' a)
    | some a' => exact congrArg some (hinj a a' h.1 h'.1 (le_antisymm (h.2 a' h'.1) (h'.2 a h.1)))

theorem IsLeastBy.minBy {p q : α → Prop} {r s : Option α} (hr : IsLeastBy key p r) (hs : IsLeastBy key q s) :
    IsLeastBy key (fun a => p a ∨ q a) (LeastBy.minBy key r s) := by
  cases r with
  | none =>
    cases s with
    | none => exact fun a => by simp [hr a, hs a]
    | some b => exact ⟨.inr hs.1, fun c hc => hc.elim (fun hp => absurd hp (hr c)) (hs.2 c)⟩
  | some a =>
    cases s with
    | none => exact ⟨.inl hr.1, fun c hc => hc.elim (hr.2 c) (fun hq => absurd hq (hs c))⟩
    | some b =>
      simp only [LeastBy.minBy]
      split
      · rename_i hab
        exact ⟨.inl hr.1, fun c hc => hc.elim (hr.2 c) (fun hq => hab.le.trans (hs.2 c hq))⟩
      · rename_i hab
        have hba : key b ≤ key a := not_lt.mp hab
        exact ⟨.inr hs.1, fun c hc => hc.elim (fun hp => hba.trans (hr.2 c hp)) (hs.2 c)⟩

theorem IsLeastBy.insert {p : α → Prop} {r : Option α} (h : IsLeastBy key p r) (a : α) :
    IsLeastBy key (fun b => b = a ∨ p b) (if r.all (fun c => decide (key a < key c)) then some a else r) := by
  cases r with
  | none =>
    refine ⟨.inl rfl, fun b hb => ?_⟩
    rcases hb with rfl | hb
    · exact le_rfl
    · exact absurd hb (h b)
  | some c =>
    simp only [Option.all_some, decide_eq_true_eq]
    split
    · rename_i hac
      refine ⟨.inl rfl, fun b hb => ?_⟩
      rcases hb with rfl | hb
      · exact le_rfl
      · exact hac.le.trans (h.2 b hb)
    · rename_i hac
      refine ⟨.inr h.1, fun b hb => ?_⟩
      rcases hb with rfl | hb
      · exact not_lt.mp hac
      · exact h.2 b hb

theorem IsLeastBy.bind {key' : γ → β} {p : α → Prop} {q : γ → Prop} {r : Option α} {f : α → Option γ}
    (h : IsLeastBy key p r) (hf : ∀ a, p a → ∃ c, f a = some c ∧ q c ∧ key' c = key a)
    (hq : ∀ c, q c → ∃ a, p a ∧ f a = some c) : IsLeastBy key' q (r.bind f) := by
  cases r with
  | none =>
    intro c hc
    obtain ⟨a, hpa, -⟩ := hq c hc
    exact h a hpa
  | some a =>
    obtain ⟨c, hfa, hqc, hkey⟩ := hf a h.1
    rw [Option.bind_some, hfa]
    refine ⟨hqc, fun c' hc' => ?_⟩
    obtain ⟨a', hpa', hfa'⟩ := hq c' hc'
    obtain ⟨c'', hfa'', -, hkey'⟩ := hf a' hpa'
    rw [hfa'] at hfa''
    cases hfa''
    rw [hkey, hkey']
    exact h.2 a' hpa'

theorem countP_lt_countP {p q : α → Bool} {l : List α} (h : ∀ x ∈ l, p x → q x) {a : α} (ha : a ∈ l)
    (hqa : q a) (hpa : ¬ p a) : l.countP p < l.countP q := by
  induction l with
  | nil => cases ha
  | cons y ys ih =>
    have hys : ∀ x ∈ ys, p x → q x := fun x hx => h x (List.mem_cons_of_mem _ hx)
    rw [List.countP_cons, List.countP_cons]
    rcases List.mem_cons.mp ha with rfl | ha'
    · have hle := List.countP_mono_left hys
      simp [hqa, hpa]
      omega
    · have hlt := ih hys ha'
      by_cases hpy : p y
      · simp [hpy, h y List.mem_cons_self hpy]
        omega
      · by_cases hqy : q y <;> simp [hpy, hqy] <;> omega

end LeastBy
