import Mathlib

/-! # Invariants of state transformers that can fail

A transition `σ → Except ε (α × σ)` that succeeds is taken apart bind by bind: `bind_eq_ok`
names the intermediate result. What a transition keeps is stated as `Follows I R s s'`: the
new state satisfies the invariant `I` and is related to the start by `R`. With `R` reflexive
and transitive, it chains along the binds of a transition and along whole runs.
-/

namespace Except

set_option autoImplicit false

variable {ε α β : Type}

theorem bind_eq_ok {x : Except ε α} {f : α → Except ε β} {b : β} :
    x >>= f = .ok b ↔ ∃ a, x = .ok a ∧ f a = .ok b := by
  cases x with
  | error e => simp [bind, Except.bind]
  | ok a => simp [bind, Except.bind]

theorem map_eq_ok {x : Except ε α} {f : α → β} {b : β} : f <$> x = .ok b ↔ ∃ a, x = .ok a ∧ f a = b := by
  cases x with
  | error e => simp [Functor.map, Except.map]
  | ok a => simp [Functor.map, Except.map]

theorem ok_of_seq_eq_ok {a : Except ε Unit} {x : Except ε β} {b : β} (h : (a >>= fun _ => x) = .ok b) :
    x = .ok b := by
  obtain ⟨_, _, hx⟩ := bind_eq_ok.mp h
  exact hx

@[simp] theorem ok_bind {a : α} {f : α → Except ε β} : (Except.ok a >>= f) = f a := rfl

@[simp] theorem throw_bind {e : ε} {f : α → Except ε β} : (throw e >>= f : Except ε β) = throw e := rfl

@[simp] theorem pure_eq_ok {a b : α} : (pure a : Except ε α) = .ok b ↔ a = b := by
  simp [pure, Except.pure]

theorem snd_eq_of_pure_eq_ok {σ : Type} {a r : α} {s s' : σ} (h : (pure (a, s) : Except ε (α × σ)) = .ok (r, s')) :
    s' = s := by
  simp only [pure_eq_ok, Prod.mk.injEq] at h
  exact h.2.symm

@[simp] theorem throw_ne_ok {e : ε} {b : α} : (throw e : Except ε α) ≠ .ok b := by
  simp [throw, throwThe, MonadExceptOf.throw]

theorem foldlM_of_step {σ : Type} (P : σ → Prop) (f : σ → α → Except ε σ)
    (hstep : ∀ s a, P s → ∃ s', f s a = .ok s' ∧ P s') :
    ∀ (l : List α) (s : σ), P s → ∃ s', l.foldlM f s = .ok s' ∧ P s'
  | [], s, hs => ⟨s, rfl, hs⟩
  | a :: l, s, hs => by
    obtain ⟨s₁, h₁, hs₁⟩ := hstep s a hs
    obtain ⟨s', h', hs'⟩ := foldlM_of_step P f hstep l s₁ hs₁
    exact ⟨s', by rw [List.foldlM_cons, h₁]; exact h', hs'⟩

theorem foldlM_induction {σ : Type} (P : σ → Prop) {f : σ → α → Except ε σ} {l : List α}
    (hstep : ∀ s a s', a ∈ l → P s → f s a = .ok s' → P s') {s s' : σ} (hs : P s)
    (h : l.foldlM f s = .ok s') : P s' := by
  induction l generalizing s with
  | nil =>
    cases h
    exact hs
  | cons a l ih =>
    rw [List.foldlM_cons] at h
    obtain ⟨s₁, h₁, h⟩ := bind_eq_ok.mp h
    exact ih (fun s b s' hb => hstep s b s' (List.mem_cons_of_mem a hb)) (hstep s a s₁ List.mem_cons_self hs h₁) h

theorem foldlM_map_comm {σ : Type} (f : σ → α → Except ε σ) (g : σ → σ)
    (hf : ∀ s a, f (g s) a = (f s a).map g) : ∀ (l : List α) (s : σ), l.foldlM f (g s) = (l.foldlM f s).map g
  | [], _ => rfl
  | a :: l, s => by
    rw [List.foldlM_cons, List.foldlM_cons, hf]
    cases f s a with
    | error e => rfl
    | ok s₁ => exact foldlM_map_comm f g hf l s₁

theorem foldlM_append_eq {β : Type} (f : List β → α → Except ε (List β)) (g : α → List β) :
    ∀ (l : List α) (acc : List β), (∀ a ∈ l, ∀ acc, f acc a = .ok (acc ++ g a)) →
      l.foldlM f acc = .ok (acc ++ l.flatMap g)
  | [], acc, _ => by simp [pure, Except.pure]
  | a :: l, acc, hf => by
    rw [List.foldlM_cons, hf a List.mem_cons_self acc, ok_bind,
      foldlM_append_eq f g l (acc ++ g a) fun b hb => hf b (List.mem_cons_of_mem a hb)]
    simp

end Except

namespace Invariant

set_option autoImplicit false

variable {σ : Type} (I : σ → Prop) (R : σ → σ → Prop)

/-- `s'` satisfies `I` and is reached from `s` along `R`. -/
def Follows (s s' : σ) : Prop := I s' ∧ R s s'

variable {I R}

theorem Follows.refl [Std.Refl R] {s : σ} (hs : I s) : Follows I R s s :=
  ⟨hs, Std.Refl.refl s⟩

theorem Follows.trans [IsTrans σ R] {s s₁ s₂ : σ} (h₁ : Follows I R s s₁) (h₂ : I s₁ → Follows I R s₁ s₂) :
    Follows I R s s₂ :=
  ⟨(h₂ h₁.1).1, IsTrans.trans _ _ _ h₁.2 (h₂ h₁.1).2⟩

end Invariant
