import HcnetCore.Library.SortedList

/-! # Merging sorted runs

Two lists sorted by a key merge into one, as in the merge step of a log-structured store: an
element whose key is in one run only is kept, and of two elements of one key `combine` gives
the one kept, or none. Looked up by key, the merge is the overlay of its runs, and it is sorted
again. Filtering a sorted list filters its lookups.
-/

namespace SortedList

set_option autoImplicit false

variable {α β : Type} [LinearOrder β] (key : α → β)

def lookup (l : List α) (k : β) : Option α := l.find? (key · = k)

def Below (l₁ l₂ : List α) : Prop := ∀ a ∈ l₁, ∀ b ∈ l₂, key a < key b

/-- `combine` keeps the key of the elements it combines. -/
def KeepsKey (combine : α → α → Option α) : Prop := ∀ a b c, combine a b = some c → key c = key b

/-- The merge of the runs `as` and `bs`, element by element in the order of the keys. -/
def mergeWith (combine : α → α → Option α) : List α → List α → List α
  | [], [] => []
  | a :: as, [] => a :: mergeWith combine as []
  | [], b :: bs => b :: mergeWith combine [] bs
  | a :: as, b :: bs =>
    if key a < key b then a :: mergeWith combine as (b :: bs)
    else if key b < key a then b :: mergeWith combine (a :: as) bs
    else (combine a b).toList ++ mergeWith combine as bs
termination_by as bs => as.length + bs.length

/-- What a lookup in the merge finds, from what it finds in each run. -/
def overlay (combine : α → α → Option α) : Option α → Option α → Option α
  | a, none => a
  | none, b => b
  | some a, some b => combine a b

variable {key}

@[simp] theorem overlay_none_right (combine : α → α → Option α) (a : Option α) :
    overlay combine a none = a := by
  cases a <;> rfl

@[simp] theorem overlay_none_left (combine : α → α → Option α) (b : Option α) :
    overlay combine none b = b := by
  cases b <;> rfl

@[simp] theorem overlay_some_some (combine : α → α → Option α) (a b : α) :
    overlay combine (some a) (some b) = combine a b := rfl

@[simp] theorem lookup_nil (k : β) : lookup key [] k = none := rfl

theorem lookup_cons (a : α) (l : List α) (k : β) :
    lookup key (a :: l) k = if key a = k then some a else lookup key l k := by
  by_cases h : key a = k
  · simp [lookup, h]
  · simp [lookup, h]

theorem lookup_eq_none_of_lt {l : List α} {k : β} (h : ∀ b ∈ l, k < key b) : lookup key l k = none := by
  simp only [lookup, List.find?_eq_none, decide_eq_true_eq]
  intro b hb hbk
  exact (h b hb).ne hbk.symm

theorem lookup_toList_append (c : Option α) (l : List α) (k : β) :
    lookup key (c.toList ++ l) k = if ∃ x ∈ c, key x = k then c else lookup key l k := by
  cases c with
  | none => simp
  | some x => by_cases h : key x = k <;> simp [lookup_cons, h]

theorem Sorted.lt_of_cons {a : α} {l : List α} (h : Sorted key (a :: l)) {b : α} (hb : b ∈ l) : key a < key b :=
  (List.pairwise_cons.mp h).1 b hb

theorem Sorted.of_cons {a : α} {l : List α} (h : Sorted key (a :: l)) : Sorted key l :=
  (List.pairwise_cons.mp h).2

theorem Sorted.le_of_cons {a : α} {l : List α} (h : Sorted key (a :: l)) {b : α} (hb : b ∈ a :: l) :
    key a ≤ key b := by
  rcases List.mem_cons.mp hb with rfl | hb
  · exact le_rfl
  · exact (h.lt_of_cons hb).le

theorem Below.mono {l₁ l₂ l₁' l₂' : List α} (h : Below key l₁ l₂) (h₁ : l₁' ⊆ l₁) (h₂ : l₂' ⊆ l₂) :
    Below key l₁' l₂' :=
  fun a ha b hb => h a (h₁ ha) b (h₂ hb)

theorem below_append_left {l₁ l₂ l : List α} : Below key (l₁ ++ l₂) l ↔ Below key l₁ l ∧ Below key l₂ l := by
  simp only [Below, List.mem_append]
  exact ⟨fun h => ⟨fun a ha => h a (.inl ha), fun a ha => h a (.inr ha)⟩,
    fun h a ha => ha.elim (h.1 a) (h.2 a)⟩

theorem mem_of_lookup_eq_some {l : List α} {k : β} {a : α} (h : lookup key l k = some a) : a ∈ l :=
  List.mem_of_find?_eq_some h

theorem key_of_lookup_eq_some {l : List α} {k : β} {a : α} (h : lookup key l k = some a) : key a = k := by
  have hfound := List.find?_some h
  simpa using hfound

theorem lookup_of_mem {l : List α} (hl : Sorted key l) {a : α} (ha : a ∈ l) : lookup key l (key a) = some a := by
  induction l with
  | nil => cases ha
  | cons b l ih =>
    rw [lookup_cons]
    rcases List.mem_cons.mp ha with rfl | ha
    · exact if_pos rfl
    · rw [if_neg (hl.lt_of_cons ha).ne, ih hl.of_cons ha]

theorem lookup_filter {l : List α} (hl : Sorted key l) (p : α → Bool) (k : β) :
    lookup key (l.filter p) k = (lookup key l k).filter p := by
  induction l with
  | nil => rfl
  | cons a l ih =>
    by_cases hk : key a = k
    · -- `a` holds the key, and the tail has none of it to show once `a` is filtered out
      have htail : lookup key l k = none := lookup_eq_none_of_lt fun b hb => hk ▸ hl.lt_of_cons hb
      by_cases hp : p a
      · simp [hp, lookup_cons, hk, Option.filter_some]
      · simp [hp, lookup_cons, hk, ih hl.of_cons, htail, Option.filter_some]
    · by_cases hp : p a <;> simp [hp, lookup_cons, hk, ih hl.of_cons]

section Merge

variable {combine : α → α → Option α}

theorem forall_mergeWith (hc : KeepsKey key combine) (P : β → Prop) {as bs : List α}
    (ha : ∀ a ∈ as, P (key a)) (hb : ∀ b ∈ bs, P (key b)) : ∀ c ∈ mergeWith key combine as bs, P (key c) := by
  induction as, bs using mergeWith.induct key with
  | case1 => simp [mergeWith]
  | case2 a as ih =>
    rw [mergeWith]
    exact List.forall_mem_cons.mpr ⟨ha a List.mem_cons_self, ih (fun x hx => ha x (List.mem_cons_of_mem _ hx)) hb⟩
  | case3 b bs ih =>
    rw [mergeWith]
    exact List.forall_mem_cons.mpr ⟨hb b List.mem_cons_self, ih ha (fun x hx => hb x (List.mem_cons_of_mem _ hx))⟩
  | case4 a as b bs hab ih =>
    rw [mergeWith, if_pos hab]
    exact List.forall_mem_cons.mpr ⟨ha a List.mem_cons_self, ih (fun x hx => ha x (List.mem_cons_of_mem _ hx)) hb⟩
  | case5 a as b bs hab hba ih =>
    rw [mergeWith, if_neg hab, if_pos hba]
    exact List.forall_mem_cons.mpr ⟨hb b List.mem_cons_self, ih ha (fun x hx => hb x (List.mem_cons_of_mem _ hx))⟩
  | case6 a as b bs hab hba ih =>
    rw [mergeWith, if_neg hab, if_neg hba]
    intro c hmem
    rcases List.mem_append.mp hmem with hmem | hmem
    · rw [hc a b c (Option.mem_toList.mp hmem)]
      exact hb b List.mem_cons_self
    · exact ih (fun x hx => ha x (List.mem_cons_of_mem _ hx)) (fun x hx => hb x (List.mem_cons_of_mem _ hx)) c hmem

theorem sorted_mergeWith (hc : KeepsKey key combine) {as bs : List α} (ha : Sorted key as) (hb : Sorted key bs) :
    Sorted key (mergeWith key combine as bs) := by
  induction as, bs using mergeWith.induct key with
  | case1 =>
    rw [mergeWith]
    exact List.Pairwise.nil
  | case2 a as ih =>
    rw [mergeWith]
    exact List.Pairwise.cons (forall_mergeWith hc (key a < ·) (fun x hx => ha.lt_of_cons hx) (by simp))
      (ih ha.of_cons hb)
  | case3 b bs ih =>
    rw [mergeWith]
    exact List.Pairwise.cons (forall_mergeWith hc (key b < ·) (by simp) (fun x hx => hb.lt_of_cons hx))
      (ih ha hb.of_cons)
  | case4 a as b bs hab ih =>
    rw [mergeWith, if_pos hab]
    exact List.Pairwise.cons (forall_mergeWith hc (key a < ·) (fun x hx => ha.lt_of_cons hx)
      (fun x hx => lt_of_lt_of_le hab (hb.le_of_cons hx))) (ih ha.of_cons hb)
  | case5 a as b bs hab hba ih =>
    rw [mergeWith, if_neg hab, if_pos hba]
    exact List.Pairwise.cons (forall_mergeWith hc (key b < ·) (fun x hx => lt_of_lt_of_le hba (ha.le_of_cons hx))
      (fun x hx => hb.lt_of_cons hx)) (ih ha hb.of_cons)
  | case6 a as b bs hab hba ih =>
    rw [mergeWith, if_neg hab, if_neg hba]
    have hkey : key a = key b := le_antisymm (not_lt.mp hba) (not_lt.mp hab)
    refine List.pairwise_append.mpr ⟨?_, ih ha.of_cons hb.of_cons, fun c hmem d hd => ?_⟩
    · cases combine a b <;> simp
    · -- the element kept for the shared key is below every key left in either run
      rw [hc a b c (Option.mem_toList.mp hmem)]
      exact forall_mergeWith hc (key b < ·) (fun x hx => hkey ▸ ha.lt_of_cons hx) (fun x hx => hb.lt_of_cons hx) d hd

theorem lookup_mergeWith (hc : KeepsKey key combine) {as bs : List α} (ha : Sorted key as) (hb : Sorted key bs)
    (k : β) : lookup key (mergeWith key combine as bs) k = overlay combine (lookup key as k) (lookup key bs k) := by
  induction as, bs using mergeWith.induct key with
  | case1 => simp [mergeWith]
  | case2 a as ih =>
    rw [mergeWith, lookup_cons, ih ha.of_cons hb, lookup_cons a as k]
    simp
  | case3 b bs ih =>
    rw [mergeWith, lookup_cons, ih ha hb.of_cons, lookup_cons b bs k]
    simp
  | case4 a as b bs hab ih =>
    rw [mergeWith, if_pos hab, lookup_cons, ih ha.of_cons hb, lookup_cons a as k]
    by_cases hk : key a = k
    · have hnone : lookup key (b :: bs) k = none :=
        lookup_eq_none_of_lt fun x hx => hk ▸ lt_of_lt_of_le hab (hb.le_of_cons hx)
      simp [hk, hnone]
    · simp [hk]
  | case5 a as b bs hab hba ih =>
    rw [mergeWith, if_neg hab, if_pos hba, lookup_cons, ih ha hb.of_cons, lookup_cons b bs k]
    by_cases hk : key b = k
    · have hnone : lookup key (a :: as) k = none :=
        lookup_eq_none_of_lt fun x hx => hk ▸ lt_of_lt_of_le hba (ha.le_of_cons hx)
      simp [hk, hnone]
    · simp [hk]
  | case6 a as b bs hab hba ih =>
    have hkey : key a = key b := le_antisymm (not_lt.mp hba) (not_lt.mp hab)
    rw [mergeWith, if_neg hab, if_neg hba, lookup_toList_append, ih ha.of_cons hb.of_cons, lookup_cons a as k,
      lookup_cons b bs k]
    by_cases hk : key b = k
    · -- both runs hold `k` at their heads and nowhere else
      have has : lookup key as k = none := lookup_eq_none_of_lt fun x hx => hk ▸ hkey ▸ ha.lt_of_cons hx
      have hbs : lookup key bs k = none := lookup_eq_none_of_lt fun x hx => hk ▸ hb.lt_of_cons hx
      cases hcomb : combine a b with
      | none => simp [hkey, hk, has, hbs, hcomb]
      | some c => simp [hkey, hk, hc a b c hcomb, hcomb]
    · have hnot : ¬∃ x ∈ combine a b, key x = k := by
        rintro ⟨x, hx, rfl⟩
        exact hk (hc a b x hx).symm
      rw [if_neg hnot]
      simp [hkey, hk]

end Merge

end SortedList
