import HcnetCore.Library.LeastBy
import HcnetCore.Library.ExceptInvariant
import Mathlib

/-! # Lists sorted by a key

A list whose elements have strictly increasing keys, as the elements of a
`std::map` are kept: `emplace` inserts an element at its place unless one of the
same key is there, erasing by key removes the one element of that key, and the
first element that satisfies a predicate has the least key among those that do.
-/

namespace SortedList

set_option autoImplicit false

variable {α β : Type} [LinearOrder β] (key : α → β)

def Sorted (l : List α) : Prop := l.Pairwise fun a b => key a < key b

/-- `std::map::emplace`: insert at the sorted place, unless an element of the same key is
present. -/
def emplace (x : α) : List α → List α
  | [] => [x]
  | y :: ys =>
    if key x < key y then x :: y :: ys
    else if key y < key x then y :: emplace x ys
    else y :: ys

/-- A `std::set` (or the keys of a `std::map`) built by inserting the elements of a list in
turn. -/
def ofList (l : List α) : List α :=
  l.foldl (fun s x => emplace key x s) []

/-- `std::set::insert` under a comparator: the element goes before the first one it precedes,
unless one equivalent to it (neither precedes the other) comes first; the flag says whether it
went in. -/
def insertBy (comp : α → α → Bool) (x : α) : List α → List α × Bool
  | [] => ([x], true)
  | y :: ys =>
    if comp x y then (x :: y :: ys, true)
    else if comp y x then
      let r := insertBy comp x ys
      (y :: r.1, r.2)
    else (y :: ys, false)

/-- `std::set::find` under a comparator: the position of the first element that does not
precede `x`, and that element, when `x` does not precede it either. -/
def findBy (comp : α → α → Bool) (x : α) : List α → Option (ℕ × α)
  | [] => none
  | y :: ys =>
    if comp y x then (findBy comp x ys).map fun r => (r.1 + 1, r.2)
    else if comp x y then none
    else some (0, y)

variable {key}

theorem mem_emplace_of_mem {x a : α} {l : List α} (h : a ∈ emplace key x l) : a = x ∨ a ∈ l := by
  induction l with
  | nil =>
    simp only [emplace, List.mem_singleton] at h
    exact .inl h
  | cons y ys ih =>
    simp only [emplace] at h
    split_ifs at h with hxy hyx
    · simpa using h
    · rcases List.mem_cons.mp h with rfl | h'
      · exact .inr List.mem_cons_self
      · rcases ih h' with rfl | h''
        · exact .inl rfl
        · exact .inr (List.mem_cons_of_mem _ h'')
    · exact .inr h

theorem mem_emplace {x : α} {l : List α} (hx : ∀ y ∈ l, key y ≠ key x) (a : α) :
    a ∈ emplace key x l ↔ a = x ∨ a ∈ l := by
  refine ⟨mem_emplace_of_mem, ?_⟩
  induction l with
  | nil =>
    rintro (rfl | h)
    · exact List.mem_singleton_self _
    · cases h
  | cons y ys ih =>
    intro ha
    have hne : key y ≠ key x := hx y List.mem_cons_self
    simp only [emplace]
    split_ifs with hxy hyx
    · rcases ha with rfl | ha
      · exact List.mem_cons_self
      · exact List.mem_cons_of_mem _ ha
    · rcases ha with rfl | ha
      · exact List.mem_cons_of_mem _ (ih (fun z hz => hx z (List.mem_cons_of_mem _ hz)) (.inl rfl))
      · rcases List.mem_cons.mp ha with rfl | ha
        · exact List.mem_cons_self
        · exact List.mem_cons_of_mem _ (ih (fun z hz => hx z (List.mem_cons_of_mem _ hz)) (.inr ha))
    · exact absurd (le_antisymm (not_lt.mp hxy) (not_lt.mp hyx)) hne

theorem sorted_emplace {x : α} {l : List α} (hl : Sorted key l) : Sorted key (emplace key x l) := by
  induction l with
  | nil => exact List.pairwise_singleton _ x
  | cons y ys ih =>
    rw [Sorted, List.pairwise_cons] at hl
    simp only [emplace]
    split_ifs with hxy hyx
    · refine List.Pairwise.cons (fun b hb => ?_) (List.Pairwise.cons hl.1 hl.2)
      rcases List.mem_cons.mp hb with rfl | hb
      · exact hxy
      · exact lt_trans hxy (hl.1 b hb)
    · refine List.Pairwise.cons (fun b hb => ?_) (ih hl.2)
      rcases mem_emplace_of_mem hb with rfl | hb
      · exact hyx
      · exact hl.1 b hb
    · exact List.Pairwise.cons hl.1 hl.2

theorem emplace_perm {x : α} {l : List α} (hx : ∀ y ∈ l, key y ≠ key x) : (emplace key x l).Perm (x :: l) := by
  induction l with
  | nil => exact List.Perm.refl _
  | cons y ys ih =>
    have hne : key y ≠ key x := hx y List.mem_cons_self
    simp only [emplace]
    split_ifs with hxy hyx
    · exact List.Perm.refl _
    · exact ((ih fun z hz => hx z (List.mem_cons_of_mem _ hz)).cons y).trans (List.Perm.swap x y ys)
    · exact absurd (le_antisymm (not_lt.mp hxy) (not_lt.mp hyx)) hne

theorem mem_emplace_of_mem_right {x a : α} {l : List α} (h : a ∈ l) : a ∈ emplace key x l := by
  induction l with
  | nil => cases h
  | cons y ys ih =>
    simp only [emplace]
    split_ifs with hxy hyx
    · exact List.mem_cons_of_mem _ h
    · rcases List.mem_cons.mp h with rfl | h'
      · exact List.mem_cons_self
      · exact List.mem_cons_of_mem _ (ih h')
    · exact h

theorem exists_key_mem_emplace (x : α) (l : List α) : ∃ y ∈ emplace key x l, key y = key x := by
  induction l with
  | nil => exact ⟨x, List.mem_singleton_self x, rfl⟩
  | cons y ys ih =>
    simp only [emplace]
    split_ifs with hxy hyx
    · exact ⟨x, List.mem_cons_self, rfl⟩
    · obtain ⟨z, hz, hkey⟩ := ih
      exact ⟨z, List.mem_cons_of_mem _ hz, hkey⟩
    · exact ⟨y, List.mem_cons_self, le_antisymm (not_lt.mp hxy) (not_lt.mp hyx)⟩

theorem sorted_ofList (l : List α) : Sorted key (ofList key l) := by
  suffices h : ∀ s, Sorted key s → Sorted key (l.foldl (fun s x => emplace key x s) s) from h [] List.Pairwise.nil
  induction l with
  | nil => exact fun s hs => hs
  | cons x l ih => exact fun s hs => ih _ (sorted_emplace hs)

theorem sorted_eraseP {l : List α} (hl : Sorted key l) (p : α → Bool) : Sorted key (l.eraseP p) :=
  hl.sublist (List.eraseP_sublist)

theorem mem_eraseP_key {l : List α} (hl : Sorted key l) (k : β) (a : α) :
    a ∈ l.eraseP (fun y => key y = k) ↔ a ∈ l ∧ key a ≠ k := by
  induction l with
  | nil => simp
  | cons y ys ih =>
    rw [Sorted, List.pairwise_cons] at hl
    by_cases hy : key y = k
    · rw [List.eraseP_cons_of_pos (by simpa using hy)]
      constructor
      · intro ha
        refine ⟨List.mem_cons_of_mem _ ha, fun hak => ?_⟩
        have hlt := hl.1 a ha
        rw [hy, hak] at hlt
        exact lt_irrefl k hlt
      · rintro ⟨ha, hak⟩
        rcases List.mem_cons.mp ha with rfl | ha
        · exact absurd hy hak
        · exact ha
    · rw [List.eraseP_cons_of_neg (by simpa using hy), List.mem_cons, ih hl.2, List.mem_cons]
      constructor
      · rintro (rfl | ⟨ha, hak⟩)
        · exact ⟨.inl rfl, hy⟩
        · exact ⟨.inr ha, hak⟩
      · rintro ⟨rfl | ha, hak⟩
        · exact .inl rfl
        · exact .inr ⟨ha, hak⟩

theorem isLeastBy_find? {l : List α} (hl : Sorted key l) (p : α → Bool) :
    LeastBy.IsLeastBy key (fun a => a ∈ l ∧ p a) (l.find? p) := by
  induction l with
  | nil => exact fun a ha => by cases ha.1
  | cons y ys ih =>
    rw [Sorted, List.pairwise_cons] at hl
    have ihys := ih hl.2
    by_cases hy : p y
    · rw [List.find?_cons_of_pos hy]
      refine ⟨⟨List.mem_cons_self, hy⟩, fun b hb => ?_⟩
      rcases List.mem_cons.mp hb.1 with rfl | hb'
      · exact le_rfl
      · exact (hl.1 b hb').le
    · rw [List.find?_cons_of_neg hy]
      -- `y` fails `p`, so the answer for the tail answers for the whole list
      refine ihys.congr fun a => ⟨fun ha => ⟨List.mem_cons_of_mem _ ha.1, ha.2⟩, fun ha => ?_⟩
      rcases List.mem_cons.mp ha.1 with rfl | ha'
      · exact absurd ha.2 hy
      · exact ⟨ha', ha.2⟩

theorem mem_ofList_id {γ : Type} [LinearOrder γ] (l : List γ) (a : γ) : a ∈ ofList id l ↔ a ∈ l := by
  suffices h : ∀ s, a ∈ l.foldl (fun s x => emplace id x s) s ↔ a ∈ s ∨ a ∈ l by simpa [ofList] using h []
  induction l with
  | nil => simp
  | cons x l ih =>
    intro s
    rw [List.foldl_cons, ih, List.mem_cons]
    constructor
    · rintro (h | h)
      · rcases mem_emplace_of_mem h with rfl | h
        · exact .inr (.inl rfl)
        · exact .inl h
      · exact .inr (.inr h)
    · rintro (h | rfl | h)
      · exact .inl (mem_emplace_of_mem_right h)
      · obtain ⟨y, hy, hya⟩ := @exists_key_mem_emplace _ _ _ id a s
        exact .inl ((show y = a from hya) ▸ hy)
      · exact .inr h

/-! ## A comparator that is the order of a key -/

/-- Between `x` and the elements of `l`, the comparator is the strict order of `key`. -/
def AgreesWith (key : α → β) (comp : α → α → Bool) (x : α) (l : List α) : Prop :=
  ∀ y ∈ l, (comp x y = true ↔ key x < key y) ∧ (comp y x = true ↔ key y < key x)

theorem AgreesWith.tail {comp : α → α → Bool} {x y : α} {l : List α} (h : AgreesWith key comp x (y :: l)) :
    AgreesWith key comp x l :=
  fun z hz => h z (List.mem_cons_of_mem _ hz)

theorem insertBy_eq {comp : α → α → Bool} {x : α} {l : List α} (hl : Sorted key l)
    (h : AgreesWith key comp x l) :
    insertBy comp x l = (emplace key x l, decide (∀ y ∈ l, key y ≠ key x)) := by
  induction l with
  | nil => simp [insertBy, emplace]
  | cons y ys ih =>
    rw [Sorted, List.pairwise_cons] at hl
    obtain ⟨hxy, hyx⟩ := h y List.mem_cons_self
    simp only [insertBy, emplace]
    by_cases h1 : key x < key y
    · -- every later key is above `y`'s, so none is `x`'s
      have hne : ∀ z ∈ y :: ys, key z ≠ key x := by
        intro z hz
        rcases List.mem_cons.mp hz with rfl | hz
        · exact h1.ne'
        · exact (h1.trans (hl.1 z hz)).ne'
      simp only [hxy.mpr h1, if_true, if_pos h1, Prod.mk.injEq, true_and]
      exact (decide_eq_true hne).symm
    · have hcomp : comp x y = false := Bool.eq_false_iff.mpr fun hc => h1 (hxy.mp hc)
      by_cases h2 : key y < key x
      · simp [hcomp, hyx.mpr h2, ih hl.2 h.tail, h2.ne, h1, h2]
      · have hcomp' : comp y x = false := Bool.eq_false_iff.mpr fun hc => h2 (hyx.mp hc)
        have heq : key y = key x := le_antisymm (not_lt.mp h1) (not_lt.mp h2)
        simp [hcomp, hcomp', heq]

theorem findBy_eq_some {comp : α → α → Bool} {x y : α} {l : List α} {i : ℕ} (hl : Sorted key l)
    (h : AgreesWith key comp x l) (hy : l[i]? = some y) (hkey : key y = key x) :
    findBy comp x l = some (i, y) := by
  induction l generalizing i with
  | nil => simp at hy
  | cons z zs ih =>
    rw [Sorted, List.pairwise_cons] at hl
    obtain ⟨hxz, hzx⟩ := h z List.mem_cons_self
    cases i with
    | zero =>
      simp only [List.getElem?_cons_zero, Option.some.injEq] at hy
      subst hy
      have hc : comp z x = false := Bool.eq_false_iff.mpr fun h' => (hzx.mp h').ne hkey
      have hc' : comp x z = false := Bool.eq_false_iff.mpr fun h' => (hxz.mp h').ne hkey.symm
      simp [findBy, hc, hc']
    | succ i =>
      simp only [List.getElem?_cons_succ] at hy
      have hzy : key z < key y := hl.1 y (List.mem_of_getElem? hy)
      simp [findBy, hzx.mpr (hkey ▸ hzy), ih hl.2 h.tail hy]

theorem findBy_eq_none {comp : α → α → Bool} {x : α} {l : List α} (h : AgreesWith key comp x l)
    (hx : ∀ y ∈ l, key y ≠ key x) : findBy comp x l = none := by
  induction l with
  | nil => rfl
  | cons z zs ih =>
    obtain ⟨hxz, hzx⟩ := h z List.mem_cons_self
    have hne := hx z List.mem_cons_self
    simp only [findBy]
    split
    · rw [ih h.tail (fun y hy => hx y (List.mem_cons_of_mem _ hy)), Option.map_none]
    · split
      · rfl
      · rename_i h1 h2
        exact absurd (le_antisymm (not_lt.mp (mt hxz.mpr h2)) (not_lt.mp (mt hzx.mpr h1))) hne

theorem perm_cons_eraseIdx {l : List α} {i : ℕ} {y : α} (h : l[i]? = some y) : l.Perm (y :: l.eraseIdx i) := by
  obtain ⟨hi, rfl⟩ := List.getElem?_eq_some_iff.mp h
  have hle : i ≤ (l.eraseIdx i).length := by
    rw [List.length_eraseIdx_of_lt hi]
    omega
  have := List.perm_insertIdx l[i] (l.eraseIdx i) hle
  rwa [List.insertIdx_eraseIdx_getElem hi] at this

theorem isLeastBy_head? {l : List α} (hl : Sorted key l) : LeastBy.IsLeastBy key (· ∈ l) l.head? := by
  cases l with
  | nil => exact fun a ha => by cases ha
  | cons y ys =>
    rw [Sorted, List.pairwise_cons] at hl
    refine ⟨List.mem_cons_self, fun b hb => ?_⟩
    rcases List.mem_cons.mp hb with rfl | hb'
    · exact le_rfl
    · exact (hl.1 b hb').le

/-! ## A comparator that may throw

`insertByM` and `findByM` are `insertBy` and `findBy` under a comparator in `Except`, which a
`std::set` calls as it searches and whose exception passes through the search. Where the
comparator returns what a Boolean comparator `p` gives on the elements it meets, the search
returns what it does under `p`; and where the comparator returns only what `p` gives, the search
that returns gives what it gives under `p`.
-/

section Throwing

variable {ε : Type}

def insertByM (comp : α → α → Except ε Bool) (x : α) : List α → Except ε (List α × Bool)
  | [] => pure ([x], true)
  | y :: ys => do
    if ← comp x y then pure (x :: y :: ys, true)
    else if ← comp y x then do
      let r ← insertByM comp x ys
      pure (y :: r.1, r.2)
    else pure (y :: ys, false)

def findByM (comp : α → α → Except ε Bool) (x : α) : List α → Except ε (Option (ℕ × α))
  | [] => pure none
  | y :: ys => do
    if ← comp y x then pure ((← findByM comp x ys).map fun r => (r.1 + 1, r.2))
    else if ← comp x y then pure none
    else pure (some (0, y))

/-- Between `x` and the elements of `l`, `comp` returns what `p` gives. -/
def ReturnsWith (comp : α → α → Except ε Bool) (p : α → α → Bool) (x : α) (l : List α) : Prop :=
  ∀ y ∈ l, comp x y = .ok (p x y) ∧ comp y x = .ok (p y x)

/-- Between `x` and the elements of `l`, whatever `comp` returns is what `p` gives. -/
def AgreesWhereOk (comp : α → α → Except ε Bool) (p : α → α → Bool) (x : α) (l : List α) : Prop :=
  ∀ y ∈ l, (∀ r, comp x y = .ok r → r = p x y) ∧ ∀ r, comp y x = .ok r → r = p y x

variable {comp : α → α → Except ε Bool} {p : α → α → Bool} {x : α}

theorem ReturnsWith.tail {y : α} {l : List α} (h : ReturnsWith comp p x (y :: l)) : ReturnsWith comp p x l :=
  fun z hz => h z (List.mem_cons_of_mem _ hz)

theorem AgreesWhereOk.tail {y : α} {l : List α} (h : AgreesWhereOk comp p x (y :: l)) : AgreesWhereOk comp p x l :=
  fun z hz => h z (List.mem_cons_of_mem _ hz)

theorem insertByM_eq_ok {l : List α} (h : ReturnsWith comp p x l) : insertByM comp x l = .ok (insertBy p x l) := by
  induction l with
  | nil => rfl
  | cons y ys ih =>
    obtain ⟨hxy, hyx⟩ := h y List.mem_cons_self
    simp only [insertByM, insertBy, hxy, hyx, Except.ok_bind, ih h.tail]
    split_ifs <;> rfl

theorem eq_insertBy_of_insertByM {l : List α} (h : AgreesWhereOk comp p x l) {r : List α × Bool}
    (hr : insertByM comp x l = .ok r) : r = insertBy p x l := by
  induction l generalizing r with
  | nil => exact (Except.pure_eq_ok.mp hr).symm
  | cons y ys ih =>
    obtain ⟨hxy, hyx⟩ := h y List.mem_cons_self
    simp only [insertByM] at hr
    obtain ⟨b₁, h₁, hr⟩ := Except.bind_eq_ok.mp hr
    rw [hxy b₁ h₁] at hr
    cases hpxy : p x y with
    | true =>
      simp only [hpxy, if_true] at hr
      simp only [insertBy, hpxy, if_true]
      exact (Except.pure_eq_ok.mp hr).symm
    | false =>
      -- `x` does not go before `y`: the search asks the other way round
      simp only [hpxy, Bool.false_eq_true, if_false] at hr
      obtain ⟨b₂, h₂, hr⟩ := Except.bind_eq_ok.mp hr
      rw [hyx b₂ h₂] at hr
      cases hpyx : p y x with
      | true =>
        simp only [hpyx, if_true] at hr
        obtain ⟨r', hr', hr⟩ := Except.bind_eq_ok.mp hr
        simp only [insertBy, hpxy, hpyx, Bool.false_eq_true, if_false, if_true]
        rw [← Except.pure_eq_ok.mp hr, ih h.tail hr']
      | false =>
        simp only [hpyx, Bool.false_eq_true, if_false] at hr
        simp only [insertBy, hpxy, hpyx, Bool.false_eq_true, if_false]
        exact (Except.pure_eq_ok.mp hr).symm

theorem findByM_eq_ok {l : List α} (h : ReturnsWith comp p x l) : findByM comp x l = .ok (findBy p x l) := by
  induction l with
  | nil => rfl
  | cons y ys ih =>
    obtain ⟨hxy, hyx⟩ := h y List.mem_cons_self
    simp only [findByM, findBy, hxy, hyx, Except.ok_bind, ih h.tail]
    split_ifs <;> rfl

theorem getElem?_findByM {x y : α} {l : List α} {i : ℕ} (h : findByM comp x l = .ok (some (i, y))) :
    l[i]? = some y := by
  induction l generalizing i with
  | nil => cases h
  | cons z zs ih =>
    simp only [findByM] at h
    obtain ⟨b₁, -, h⟩ := Except.bind_eq_ok.mp h
    split at h
    · obtain ⟨r, hr, h⟩ := Except.bind_eq_ok.mp h
      obtain ⟨⟨j, y'⟩, rfl, heq⟩ := Option.map_eq_some_iff.mp (Except.pure_eq_ok.mp h)
      cases heq
      exact ih hr
    · obtain ⟨b₂, -, h⟩ := Except.bind_eq_ok.mp h
      split at h
      · cases Except.pure_eq_ok.mp h
      · cases Except.pure_eq_ok.mp h
        rfl

end Throwing

end SortedList
