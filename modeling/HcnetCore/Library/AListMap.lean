import Mathlib

/-! # Mapping and folding association lists

`AList.mapVal` rewrites every value in place. A fold over the entries of an
association list whose step touches only the key it is given can be read key by
key: a key the list does not hold keeps its value, and a key it holds gets the
value of the one step made at it.
-/

namespace AList

set_option autoImplicit false

variable {α : Type} {β γ : α → Type}

/-- Apply `f` to every value, keeping the keys and their order. -/
def mapVal (f : (a : α) → β a → γ a) (s : AList β) : AList γ :=
  ⟨s.entries.map (Sigma.map id f), List.NodupKeys.map₂ f s.entries s.nodupKeys⟩

@[simp] theorem keys_mapVal (f : (a : α) → β a → γ a) (s : AList β) :
    (s.mapVal f).keys = s.keys :=
  List.map₂_keys f s.entries

@[simp] theorem lookup_mapVal [DecidableEq α] (f : (a : α) → β a → γ a) (s : AList β) (a : α) :
    (s.mapVal f).lookup a = (s.lookup a).map (f a) :=
  List.dlookup_map₂ a

theorem foldlM_invariant {σ δ ε : Type} (P : σ → Prop) (step : σ → δ → Except ε σ) (l : List δ)
    (hstep : ∀ s d s', d ∈ l → P s → step s d = .ok s' → P s') (s s' : σ) (hs : P s)
    (h : l.foldlM step s = .ok s') : P s' := by
  induction l generalizing s with
  | nil =>
    cases h
    exact hs
  | cons d l ih =>
    rw [List.foldlM_cons] at h
    cases h₁ : step s d with
    | error err => simp [h₁, bind, Except.bind] at h
    | ok s₁ =>
      simp only [h₁, bind, Except.bind] at h
      have hs₁ := hstep s d s₁ List.mem_cons_self hs h₁
      exact ih (fun s d s' hd => hstep s d s' (List.mem_cons_of_mem _ hd)) s₁ hs₁ h

theorem foldlM_isOk {σ δ ε : Type} (step : σ → δ → Except ε σ) (l : List δ)
    (hstep : ∀ s d, d ∈ l → ∃ s', step s d = .ok s') (s : σ) :
    ∃ s', l.foldlM step s = .ok s' := by
  induction l generalizing s with
  | nil => exact ⟨s, rfl⟩
  | cons d l ih =>
    obtain ⟨s₁, h₁⟩ := hstep s d List.mem_cons_self
    obtain ⟨s', h'⟩ := ih (fun s d' hd' => hstep s d' (List.mem_cons_of_mem _ hd')) s₁
    exact ⟨s', by rw [List.foldlM_cons]; simp only [h₁, bind, Except.bind]; exact h'⟩

section Fold

variable [DecidableEq α] {σ ε : Type} (get : σ → AList γ) (step : σ → (a : α) → β a → Except ε σ)

theorem foldlM_lookup (R : (a : α) → Option (γ a) → β a → Option (γ a) → Prop)
    (hstep : ∀ s a b s', step s a b = .ok s' →
      R a ((get s).lookup a) b ((get s').lookup a) ∧ ∀ x, x ≠ a → (get s').lookup x = (get s).lookup x)
    (l : List (Sigma β)) (hl : l.NodupKeys) (s s' : σ)
    (h : l.foldlM (fun acc e => step acc e.1 e.2) s = .ok s') (x : α) :
    (x ∉ l.keys → (get s').lookup x = (get s).lookup x) ∧
      ∀ b, l.dlookup x = some b → R x ((get s).lookup x) b ((get s').lookup x) := by
  induction l generalizing s with
  | nil =>
    cases h
    exact ⟨fun _ => rfl, fun b hb => by simp at hb⟩
  | cons e l ih =>
    obtain ⟨a, b⟩ := e
    rw [List.nodupKeys_cons] at hl
    rw [List.foldlM_cons] at h
    cases hs : step s a b with
    | error err => simp [hs, bind, Except.bind] at h
    | ok s₁ =>
      simp only [hs, bind, Except.bind] at h
      obtain ⟨hR, hFrame⟩ := hstep s a b s₁ hs
      obtain ⟨ihOut, ihIn⟩ := ih hl.2 s₁ h
      by_cases hx : x = a
      · subst hx
        refine ⟨fun hNot => (hNot (by simp [List.keys])).elim, ?_⟩
        intro b' hb'
        rw [List.dlookup_cons_eq] at hb'
        cases hb'
        rw [ihOut hl.1]
        exact hR
      · refine ⟨fun hNot => ?_, fun b' hb' => ?_⟩
        · rw [ihOut (fun hm => hNot (by rw [List.keys_cons]; exact List.mem_cons_of_mem _ hm)), hFrame x hx]
        · rw [List.dlookup_cons_ne _ _ hx] at hb'
          rw [← hFrame x hx]
          exact ihIn b' hb'

theorem foldlM_ok (s₀ : σ)
    (hframe : ∀ s a b s', step s a b = .ok s' → ∀ x, x ≠ a → (get s').lookup x = (get s).lookup x)
    (l : List (Sigma β)) (hl : l.NodupKeys)
    (hok : ∀ s a b, l.dlookup a = some b → (get s).lookup a = (get s₀).lookup a →
      ∃ s', step s a b = .ok s')
    (s : σ) (hs : ∀ a, a ∈ l.keys → (get s).lookup a = (get s₀).lookup a) :
    ∃ s', l.foldlM (fun acc e => step acc e.1 e.2) s = .ok s' := by
  induction l generalizing s with
  | nil => exact ⟨s, rfl⟩
  | cons e l ih =>
    obtain ⟨a, b⟩ := e
    rw [List.nodupKeys_cons] at hl
    have hHead : (get s).lookup a = (get s₀).lookup a := hs a (by simp [List.keys])
    obtain ⟨s₁, hs₁⟩ := hok s a b (List.dlookup_cons_eq _ _ _) hHead
    have hTail : ∀ a' b', l.dlookup a' = some b' → ∀ s, (get s).lookup a' = (get s₀).lookup a' →
        ∃ s', step s a' b' = .ok s' := by
      intro a' b' hb' s hsa
      have ha' : a' ≠ a := fun h => hl.1 (h ▸ List.dlookup_isSome.mp (by simp [hb']))
      exact hok s a' b' (by rw [List.dlookup_cons_ne _ _ ha']; exact hb') hsa
    obtain ⟨s', hs'⟩ := ih hl.2 (fun s a' b' hb' hsa => hTail a' b' hb' s hsa) s₁ (by
      intro a' ha'
      have hne : a' ≠ a := fun h => hl.1 (h ▸ ha')
      rw [hframe s a b s₁ hs₁ a' hne]
      exact hs a' (by rw [List.keys_cons]; exact List.mem_cons_of_mem _ ha'))
    refine ⟨s', ?_⟩
    rw [List.foldlM_cons]
    simp only [hs₁, bind, Except.bind]
    exact hs'

end Fold

end AList
