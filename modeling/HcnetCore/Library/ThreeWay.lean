import Mathlib

/-! # Three-way comparisons

A comparison `cmp : α → α → ℤ` in the manner of C++'s `int`-valued comparators: negative,
zero or positive. `LawfulAt cmp a` says that it behaves as a linear order at `a`: swapping the
arguments negates the result, only `a` itself compares equal to `a`, and `≤ 0` chains from
`a`. Breaking ties with a second comparison and comparing lists lexicographically keep this,
and sorting by a comparison that is lawful everywhere gives one list for every permutation of
the input.
-/

namespace ThreeWay

set_option autoImplicit false

variable {α β : Type}

structure LawfulAt (cmp : α → α → ℤ) (a : α) : Prop where
  swap : ∀ b, cmp b a = -cmp a b
  eq_of_eq_zero : ∀ b, cmp a b = 0 → a = b
  le_trans : ∀ b c, cmp a b ≤ 0 → cmp b c ≤ 0 → cmp a c ≤ 0

def Lawful (cmp : α → α → ℤ) : Prop := ∀ a, LawfulAt cmp a

variable {cmp : α → α → ℤ}

def thenCompare (res next : ℤ) : ℤ := if res ≠ 0 then res else next

/-- Compare the first components, and on a tie the second. -/
def pairCompare (cmp₁ : α → α → ℤ) (cmp₂ : β → β → ℤ) (x y : α × β) : ℤ :=
  thenCompare (cmp₁ x.1 y.1) (cmp₂ x.2 y.2)

theorem LawfulAt.pair {cmp₁ : α → α → ℤ} {cmp₂ : β → β → ℤ} {a₁ : α} {a₂ : β} (h₁ : LawfulAt cmp₁ a₁)
    (h₂ : LawfulAt cmp₂ a₂) : LawfulAt (pairCompare cmp₁ cmp₂) (a₁, a₂) where
  swap := by
    rintro ⟨b₁, b₂⟩
    simp only [pairCompare, thenCompare, h₁.swap b₁, h₂.swap b₂]
    split_ifs <;> omega
  eq_of_eq_zero := by
    rintro ⟨b₁, b₂⟩ h
    simp only [pairCompare, thenCompare] at h
    split_ifs at h with h0
    · exact absurd h h0
    · rw [h₁.eq_of_eq_zero b₁ (not_not.mp h0), h₂.eq_of_eq_zero b₂ h]
  le_trans := by
    rintro ⟨b₁, b₂⟩ ⟨c₁, c₂⟩ hab hbc
    simp only [pairCompare, thenCompare] at hab hbc ⊢
    by_cases hx : cmp₁ a₁ b₁ = 0
    · -- the first components of `a` and `b` tie, so `b` compares to `c` as `a` does
      obtain rfl := h₁.eq_of_eq_zero b₁ hx
      rw [if_neg (not_not.mpr hx)] at hab
      split_ifs at hbc ⊢ with hz
      · exact hbc
      · exact h₂.le_trans b₂ c₂ hab hbc
    · rw [if_pos hx] at hab
      have hy : cmp₁ b₁ c₁ ≤ 0 := by
        split_ifs at hbc with hy
        · exact hbc
        · omega
      have hz := h₁.le_trans b₁ c₁ (by omega) hy
      split_ifs with hz0
      · exact hz
      · -- `a` and `c` tie on the first components, so `b` is above both
        obtain rfl := h₁.eq_of_eq_zero c₁ (not_not.mp hz0)
        have hswap := h₁.swap b₁
        rw [if_pos (by omega)] at hbc
        omega

theorem LawfulAt.comap {f : β → α} (hf : Function.Injective f) {b : β} (h : LawfulAt cmp (f b)) :
    LawfulAt (fun x y => cmp (f x) (f y)) b where
  swap c := h.swap (f c)
  eq_of_eq_zero c hc := hf (h.eq_of_eq_zero (f c) hc)
  le_trans c d := h.le_trans (f c) (f d)

/-! ## Lists -/

/-- The lexicographic comparison: the first comparison of elements that does not tie, and
otherwise the shorter list first. -/
def lex (cmp : α → α → ℤ) : List α → List α → ℤ
  | a :: as, b :: bs => thenCompare (cmp a b) (lex cmp as bs)
  | [], [] => 0
  | [], _ :: _ => -1
  | _ :: _, [] => 1

theorem lawfulAt_lex_nil : LawfulAt (lex cmp) [] where
  swap bs := by cases bs <;> simp [lex]
  eq_of_eq_zero bs h := by cases bs <;> simp_all [lex]
  le_trans bs cs _ _ := by cases bs <;> cases cs <;> simp [lex]

theorem lawfulAt_lex {as : List α} (h : ∀ a ∈ as, LawfulAt cmp a) : LawfulAt (lex cmp) as := by
  induction as with
  | nil => exact lawfulAt_lex_nil
  | cons a as ih =>
    -- two nonempty lists compare as the pairs of their heads and tails
    have hp := (h a List.mem_cons_self).pair (ih fun a' ha' => h a' (List.mem_cons_of_mem a ha'))
    refine ⟨fun bs => ?_, fun bs hb => ?_, fun bs cs hab hbc => ?_⟩
    · cases bs with
      | nil => simp [lex]
      | cons b bs => exact hp.swap (b, bs)
    · cases bs with
      | nil => simp [lex] at hb
      | cons b bs =>
        obtain ⟨rfl, rfl⟩ := Prod.mk.inj (hp.eq_of_eq_zero (b, bs) hb)
        rfl
    · cases bs with
      | nil => simp [lex] at hab
      | cons b bs =>
        cases cs with
        | nil => simp [lex] at hbc
        | cons c cs => exact hp.le_trans (b, bs) (c, cs) hab hbc

/-! ## Linear orders -/

def ofLT [LinearOrder α] (a b : α) : ℤ := if a < b then -1 else if b < a then 1 else 0

theorem ofLT_nonpos_iff [LinearOrder α] {a b : α} : ofLT a b ≤ 0 ↔ a ≤ b := by
  unfold ofLT
  split_ifs with h₁ h₂
  · simp [h₁.le]
  · simp [not_le.mpr h₂]
  · simp [le_of_not_gt h₂]

theorem ofLT_neg_iff [LinearOrder α] {a b : α} : ofLT a b < 0 ↔ a < b := by
  unfold ofLT
  split_ifs with h₁ h₂ <;> simp [*]

theorem lawfulAt_ofLT [LinearOrder α] (a : α) : LawfulAt ofLT a where
  swap b := by
    rcases lt_trichotomy a b with h | rfl | h
    · simp [ofLT, h, not_lt_of_gt h]
    · simp [ofLT]
    · simp [ofLT, h, not_lt_of_gt h]
  eq_of_eq_zero b h := by
    rcases lt_trichotomy a b with hab | rfl | hab
    · simp [ofLT, hab] at h
    · rfl
    · simp [ofLT, hab, not_lt_of_gt hab] at h
  le_trans b c hab hbc := ofLT_nonpos_iff.mpr ((ofLT_nonpos_iff.mp hab).trans (ofLT_nonpos_iff.mp hbc))

/-! ## Sorting -/

/-- The order a sort by `cmp a b < 0` leaves elements in: `a` may stay before `b` unless `b`
compares below `a`. -/
def SortLE (cmp : α → α → ℤ) (a b : α) : Prop := ¬cmp b a < 0

instance (cmp : α → α → ℤ) : DecidableRel (SortLE cmp) := fun a b => inferInstanceAs (Decidable (¬cmp b a < 0))

theorem sortLE_iff {a b : α} (h : LawfulAt cmp a) : SortLE cmp a b ↔ cmp a b ≤ 0 := by
  rw [SortLE, h.swap b]
  omega

theorem Lawful.sortLE_trans (h : Lawful cmp) {a b c : α} (hab : SortLE cmp a b) (hbc : SortLE cmp b c) :
    SortLE cmp a c := by
  rw [sortLE_iff (h a)] at hab ⊢
  rw [sortLE_iff (h b)] at hbc
  exact (h a).le_trans b c hab hbc

theorem Lawful.sortLE_total (h : Lawful cmp) (a b : α) : SortLE cmp a b ∨ SortLE cmp b a := by
  rw [sortLE_iff (h a), sortLE_iff (h b), (h a).swap b]
  omega

theorem Lawful.eq_of_sortLE (h : Lawful cmp) {a b : α} (hab : SortLE cmp a b) (hba : SortLE cmp b a) : a = b := by
  rw [sortLE_iff (h a)] at hab
  rw [sortLE_iff (h b), (h a).swap b] at hba
  exact (h a).eq_of_eq_zero b (by omega)

theorem Lawful.pairwise_insertionSort (h : Lawful cmp) (l : List α) :
    (l.insertionSort (SortLE cmp)).Pairwise (SortLE cmp) := by
  have : Std.Total (SortLE cmp) := ⟨h.sortLE_total⟩
  have : IsTrans α (SortLE cmp) := ⟨fun _ _ _ => h.sortLE_trans⟩
  exact List.pairwise_insertionSort _ l

theorem Lawful.insertionSort_eq_of_perm (h : Lawful cmp) {l₁ l₂ : List α} (hp : l₁.Perm l₂) :
    l₁.insertionSort (SortLE cmp) = l₂.insertionSort (SortLE cmp) := by
  have hperm : (l₁.insertionSort (SortLE cmp)).Perm (l₂.insertionSort (SortLE cmp)) :=
    (List.perm_insertionSort _ l₁).trans (hp.trans (List.perm_insertionSort _ l₂).symm)
  exact hperm.eq_of_pairwise (fun _ _ _ _ hab hba => h.eq_of_sortLE hab hba) (h.pairwise_insertionSort l₁)
    (h.pairwise_insertionSort l₂)

end ThreeWay
