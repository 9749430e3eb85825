import HcnetCore.Library.SortedList

/-! # Iterating over several sorted lists at once

A cursor is a position in one of several lists, its lane: the element there and those after
it. An iteration over a list of cursors takes the best of their elements under a comparator,
the first cursor winning ties, and then advances that cursor, or drops it at the end of its
lane. When the comparator is the strict order of a key on the elements met and every lane is
sorted by that key, the best element is the least of all those left, so the iteration merges
the lanes: it yields every element once, in increasing order of the key.
-/

namespace MultiwayMerge

set_option autoImplicit false

variable {ι α β : Type}

/-- A lane and a position in it: the element there and those after it. -/
structure Cursor (ι α : Type) where
  lane : ι
  current : α
  following : List α

namespace Cursor

def elems (c : Cursor ι α) : List α := c.current :: c.following

def next (c : Cursor ι α) : Option (Cursor ι α) :=
  match c.following with
  | [] => none
  | x :: xs => some ⟨c.lane, x, xs⟩

theorem elems_of_next_eq_none {c : Cursor ι α} (h : c.next = none) : c.elems = [c.current] := by
  obtain ⟨l, x, _ | ⟨y, ys⟩⟩ := c
  · rfl
  · simp [next] at h

theorem elems_of_next_eq_some {c c' : Cursor ι α} (h : c.next = some c') :
    c.elems = c.current :: c'.elems := by
  obtain ⟨l, x, _ | ⟨y, ys⟩⟩ := c
  · simp [next] at h
  · simp only [next, Option.some.injEq] at h
    subst h
    rfl

end Cursor

def elems (cs : List (Cursor ι α)) : List α := cs.flatMap Cursor.elems

section Iteration

variable (lt : α → α → Bool)

/-- The scan for the best cursor: `b` is the best so far with its position, `i` the position
of the next cursor, which replaces `b` when its element comes before `b`'s. -/
def bestFrom : ℕ × Cursor ι α → ℕ → List (Cursor ι α) → ℕ × Cursor ι α
  | b, _, [] => b
  | b, i, c :: cs => bestFrom (if lt c.current b.2.current then (i, c) else b) (i + 1) cs

def best : List (Cursor ι α) → Option (ℕ × Cursor ι α)
  | [] => none
  | c :: cs => some (bestFrom lt (0, c) 1 cs)

def advanceAt (cs : List (Cursor ι α)) (i : ℕ) (c : Cursor ι α) : List (Cursor ι α) :=
  match c.next with
  | none => cs.eraseIdx i
  | some c' => cs.set i c'

def advance (cs : List (Cursor ι α)) : List (Cursor ι α) :=
  match best lt cs with
  | none => cs
  | some (i, c) => advanceAt cs i c

/-- The elements an iteration yields, best first, in at most `fuel` steps. -/
def visit : ℕ → List (Cursor ι α) → List α
  | 0, _ => []
  | fuel + 1, cs =>
    match best lt cs with
    | none => []
    | some (_, c) => c.current :: visit fuel (advance lt cs)

end Iteration

variable {lt : α → α → Bool}

/-! ## Where the best cursor is -/

theorem getElem?_bestFrom (cs : List (Cursor ι α)) (pre : List (Cursor ι α)) (b : ℕ × Cursor ι α)
    (hb : pre[b.1]? = some b.2) :
    (pre ++ cs)[(bestFrom lt b pre.length cs).1]? = some (bestFrom lt b pre.length cs).2 := by
  induction cs generalizing pre b with
  | nil => simpa [bestFrom] using hb
  | cons c cs ih =>
    have hb' : (pre ++ [c])[(if lt c.current b.2.current then (pre.length, c) else b).1]? =
        some (if lt c.current b.2.current then (pre.length, c) else b).2 := by
      split
      · simp
      · rw [List.getElem?_append_left (List.getElem?_eq_some_iff.mp hb).1]
        exact hb
    have := ih (pre ++ [c]) _ hb'
    simpa [bestFrom] using this

theorem getElem?_best {cs : List (Cursor ι α)} {i : ℕ} {c : Cursor ι α}
    (h : best lt cs = some (i, c)) : cs[i]? = some c := by
  cases cs with
  | nil => simp [best] at h
  | cons d ds =>
    simp only [best, Option.some.injEq] at h
    have := @getElem?_bestFrom ι α lt ds [d] (0, d) rfl
    simpa [h] using this

theorem mem_of_best {cs : List (Cursor ι α)} {i : ℕ} {c : Cursor ι α}
    (h : best lt cs = some (i, c)) : c ∈ cs :=
  List.mem_of_getElem? (getElem?_best h)

@[simp] theorem best_eq_none {cs : List (Cursor ι α)} : best lt cs = none ↔ cs = [] := by
  cases cs <;> simp [best]

theorem elems_eq_nil {cs : List (Cursor ι α)} : elems cs = [] ↔ cs = [] := by
  cases cs <;> simp [elems, Cursor.elems]

/-! ## What advancing leaves -/

theorem elems_advanceAt_perm {cs : List (Cursor ι α)} {i : ℕ} {c : Cursor ι α} (h : cs[i]? = some c) :
    (elems cs).Perm (c.current :: elems (advanceAt cs i c)) := by
  obtain ⟨hi, hc⟩ := List.getElem?_eq_some_iff.mp h
  have hsplit : cs = cs.take i ++ c :: cs.drop (i + 1) := by
    rw [← hc, ← List.drop_eq_getElem_cons hi, List.take_append_drop]
  unfold advanceAt
  cases hn : c.next with
  | none =>
    dsimp only
    rw [List.eraseIdx_eq_take_drop_succ]
    conv_lhs => rw [hsplit]
    simp only [elems, List.flatMap_append, List.flatMap_cons, Cursor.elems_of_next_eq_none hn,
      List.singleton_append]
    exact List.perm_middle
  | some c' =>
    dsimp only
    rw [List.set_eq_take_append_cons_drop, if_pos hi]
    conv_lhs => rw [hsplit]
    simp only [elems, List.flatMap_append, List.flatMap_cons, Cursor.elems_of_next_eq_some hn,
      List.cons_append]
    exact List.perm_middle

theorem mem_elems_of_mem_advanceAt {cs : List (Cursor ι α)} {i : ℕ} {c : Cursor ι α} (h : cs[i]? = some c)
    {x : α} (hx : x ∈ elems (advanceAt cs i c)) : x ∈ elems cs :=
  (elems_advanceAt_perm h).mem_iff.mpr (List.mem_cons_of_mem _ hx)

theorem elems_advance_perm {cs : List (Cursor ι α)} {i : ℕ} {c : Cursor ι α}
    (h : best lt cs = some (i, c)) : (elems cs).Perm (c.current :: elems (advance lt cs)) := by
  simp only [advance, h]
  exact elems_advanceAt_perm (getElem?_best h)

theorem length_elems_advance {cs : List (Cursor ι α)} {i : ℕ} {c : Cursor ι α}
    (h : best lt cs = some (i, c)) : (elems (advance lt cs)).length + 1 = (elems cs).length := by
  rw [(elems_advance_perm h).length_eq, List.length_cons]

theorem mem_elems_of_mem_advance {cs : List (Cursor ι α)} {x : α} (hx : x ∈ elems (advance lt cs)) :
    x ∈ elems cs := by
  cases h : best lt cs with
  | none => simpa [advance, h] using hx
  | some b => exact (elems_advance_perm h).mem_iff.mpr (List.mem_cons_of_mem _ hx)

theorem visit_subperm (fuel : ℕ) (cs : List (Cursor ι α)) : (visit lt fuel cs).Subperm (elems cs) := by
  induction fuel generalizing cs with
  | zero => exact List.nil_subperm
  | succ fuel ih =>
    cases h : best lt cs with
    | none => simp [visit, h]
    | some b =>
      simp only [visit, h]
      exact ((List.subperm_cons _).mpr (ih (advance lt cs))).trans (elems_advance_perm h).symm.subperm

theorem visit_perm {fuel : ℕ} {cs : List (Cursor ι α)} (hfuel : (elems cs).length ≤ fuel) :
    (visit lt fuel cs).Perm (elems cs) := by
  induction fuel generalizing cs with
  | zero =>
    have hnil : cs = [] := elems_eq_nil.mp (List.eq_nil_of_length_eq_zero (Nat.le_zero.mp hfuel))
    simp [visit, hnil, elems]
  | succ fuel ih =>
    cases h : best lt cs with
    | none =>
      obtain rfl := best_eq_none.mp h
      simp [visit, best, elems]
    | some b =>
      simp only [visit, h]
      have hlen := length_elems_advance h
      exact ((ih (by omega)).cons b.2.current).trans (elems_advance_perm h).symm

/-! ## The order of what is yielded -/

section Order

variable [LinearOrder β] {key : α → β}

/-- The comparator is the strict order of `key` between the elements of `s` of different keys. -/
def Agrees (lt : α → α → Bool) (key : α → β) (s : List α) : Prop :=
  ∀ x ∈ s, ∀ y ∈ s, key x ≠ key y → (lt x y = true ↔ key x < key y)

def LanesSorted (key : α → β) (cs : List (Cursor ι α)) : Prop :=
  ∀ c ∈ cs, SortedList.Sorted key c.elems

theorem Agrees.mono {s t : List α} (h : Agrees lt key s) (hts : ∀ x ∈ t, x ∈ s) : Agrees lt key t :=
  fun x hx y hy => h x (hts x hx) y (hts y hy)

theorem Agrees.key_le {s : List α} (h : Agrees lt key s) {x y : α} (hx : x ∈ s) (hy : y ∈ s) :
    (lt x y = true → key x ≤ key y) ∧ (lt x y = false → key y ≤ key x) := by
  by_cases heq : key x = key y
  · exact ⟨fun _ => heq.le, fun _ => heq.ge⟩
  · have hiff := h x hx y hy heq
    refine ⟨fun hlt => (hiff.mp hlt).le, fun hlt => ?_⟩
    exact not_lt.mp fun hk => by simp [hiff.mpr hk] at hlt

theorem current_mem_elems {cs : List (Cursor ι α)} {c : Cursor ι α} (hc : c ∈ cs) : c.current ∈ elems cs :=
  List.mem_flatMap.mpr ⟨c, hc, List.mem_cons_self⟩

theorem key_bestFrom_le {s : List α} (hs : Agrees lt key s) (cs : List (Cursor ι α))
    (b : ℕ × Cursor ι α) (i : ℕ) (hb : b.2.current ∈ s) (hcs : ∀ c ∈ cs, c.current ∈ s) :
    ∀ d ∈ b.2 :: cs, key (bestFrom lt b i cs).2.current ≤ key d.current := by
  induction cs generalizing b i with
  | nil =>
    intro d hd
    simp only [List.mem_singleton] at hd
    simp [bestFrom, hd]
  | cons c cs ih =>
    have hc := hcs c List.mem_cons_self
    let b' := if lt c.current b.2.current then (i, c) else b
    have hb' : b'.2.current ∈ s := by
      simp only [b']
      split <;> assumption
    have hle := ih b' (i + 1) hb' (fun d hd => hcs d (List.mem_cons_of_mem _ hd))
    -- the new best is at most both the old best and the cursor just passed
    have hbc : key b'.2.current ≤ key b.2.current ∧ key b'.2.current ≤ key c.current := by
      have hcb := hs.key_le hc hb
      simp only [b']
      split
      case isTrue hlt => exact ⟨hcb.1 hlt, le_rfl⟩
      case isFalse hlt => exact ⟨le_rfl, hcb.2 (Bool.eq_false_iff.mpr hlt)⟩
    have hself := hle b'.2 List.mem_cons_self
    intro d hd
    simp only [bestFrom]
    rcases List.mem_cons.mp hd with rfl | hd
    · exact hself.trans hbc.1
    · rcases List.mem_cons.mp hd with rfl | hd
      · exact hself.trans hbc.2
      · exact hle d (List.mem_cons_of_mem _ hd)

theorem key_best_le {cs : List (Cursor ι α)} {i : ℕ} {c : Cursor ι α} (hs : Agrees lt key (elems cs))
    (hsorted : LanesSorted key cs) (h : best lt cs = some (i, c)) :
    ∀ x ∈ elems cs, key c.current ≤ key x := by
  cases cs with
  | nil => simp [best] at h
  | cons d ds =>
    simp only [best, Option.some.injEq] at h
    have hcur : ∀ e ∈ d :: ds, key c.current ≤ key e.current := by
      obtain rfl : c = (bestFrom lt (0, d) 1 ds).2 := by rw [h]
      exact key_bestFrom_le hs ds (0, d) 1 (current_mem_elems List.mem_cons_self)
        (fun e he => current_mem_elems (List.mem_cons_of_mem _ he))
    intro x hx
    obtain ⟨e, he, hxe⟩ := List.mem_flatMap.mp hx
    rcases List.mem_cons.mp hxe with rfl | hxf
    · exact hcur e he
    · have hsort := hsorted e he
      simp only [SortedList.Sorted, Cursor.elems, List.pairwise_cons] at hsort
      exact (hcur e he).trans (hsort.1 x hxf).le

theorem lanesSorted_advance {cs : List (Cursor ι α)} (hsorted : LanesSorted key cs) :
    LanesSorted key (advance lt cs) := by
  cases h : best lt cs with
  | none => simpa [advance, h] using hsorted
  | some b =>
    obtain ⟨i, c⟩ := b
    have hc : SortedList.Sorted key c.elems := hsorted c (mem_of_best h)
    simp only [advance, h, advanceAt]
    cases hn : c.next with
    | none => exact fun d hd => hsorted d (List.mem_of_mem_eraseIdx hd)
    | some c' =>
      intro d hd
      rcases List.mem_or_eq_of_mem_set hd with hd | rfl
      · exact hsorted d hd
      · rw [SortedList.Sorted, Cursor.elems_of_next_eq_some hn, List.pairwise_cons] at hc
        exact hc.2

theorem visit_sorted (fuel : ℕ) {cs : List (Cursor ι α)} (hs : Agrees lt key (elems cs))
    (hsorted : LanesSorted key cs) (hnodup : ((elems cs).map key).Nodup) :
    SortedList.Sorted key (visit lt fuel cs) := by
  induction fuel generalizing cs with
  | zero => exact List.Pairwise.nil
  | succ fuel ih =>
    cases h : best lt cs with
    | none => simp [visit, h, SortedList.Sorted]
    | some b =>
      obtain ⟨i, c⟩ := b
      simp only [visit, h]
      have hperm := elems_advance_perm h
      have hnodup' : (key c.current :: (elems (advance lt cs)).map key).Nodup := by
        simpa using (hperm.map key).nodup_iff.mp hnodup
      refine List.Pairwise.cons ?_ (ih (hs.mono fun x => mem_elems_of_mem_advance)
        (lanesSorted_advance hsorted) (List.nodup_cons.mp hnodup').2)
      intro y hy
      have hy' : y ∈ elems (advance lt cs) := (visit_subperm fuel _).subset hy
      have hle := key_best_le hs hsorted h y (mem_elems_of_mem_advance hy')
      have hne : key c.current ≠ key y := fun heq =>
        (List.nodup_cons.mp hnodup').1 (heq ▸ List.mem_map_of_mem hy')
      exact lt_of_le_of_ne hle hne

end Order

/-! ## A comparator that may throw

`bestM` is `best` under a comparator in `Except`, whose exception passes through the scan. Where
the comparator returns what a Boolean comparator `lt` gives between the elements left, it finds
what `best` finds under `lt`; where it returns only what `lt` gives, what it finds when it returns
is what `best` finds.
-/

section Throwing

variable {ε : Type} (ltM : α → α → Except ε Bool)

def bestFromM : ℕ × Cursor ι α → ℕ → List (Cursor ι α) → Except ε (ℕ × Cursor ι α)
  | b, _, [] => pure b
  | b, i, c :: cs => do bestFromM (if ← ltM c.current b.2.current then (i, c) else b) (i + 1) cs

def bestM : List (Cursor ι α) → Except ε (Option (ℕ × Cursor ι α))
  | [] => pure none
  | c :: cs => some <$> bestFromM ltM (0, c) 1 cs

def ReturnsOn (lt : α → α → Bool) (s : List α) : Prop :=
  ∀ x ∈ s, ∀ y ∈ s, ltM x y = .ok (lt x y)

/-- Between the elements of `s`, whatever `ltM` returns is what `lt` gives. -/
def AgreesWhereOkOn (lt : α → α → Bool) (s : List α) : Prop :=
  ∀ x ∈ s, ∀ y ∈ s, ∀ r, ltM x y = .ok r → r = lt x y

variable {ltM} {s : List α}

theorem ReturnsOn.mono {t : List α} (h : ReturnsOn ltM lt s) (hts : ∀ x ∈ t, x ∈ s) : ReturnsOn ltM lt t :=
  fun x hx y hy => h x (hts x hx) y (hts y hy)

theorem bestFromM_eq_ok (h : ReturnsOn ltM lt s) :
    ∀ (cs : List (Cursor ι α)) (b : ℕ × Cursor ι α) (i : ℕ), b.2.current ∈ s → (∀ c ∈ cs, c.current ∈ s) →
      bestFromM ltM b i cs = .ok (bestFrom lt b i cs)
  | [], _, _, _, _ => rfl
  | c :: cs, b, i, hb, hcs => by
    have hc := hcs c List.mem_cons_self
    have hb' : (if lt c.current b.2.current then (i, c) else b).2.current ∈ s := by
      split <;> assumption
    simp only [bestFromM, bestFrom, h _ hc _ hb, Except.ok_bind]
    exact bestFromM_eq_ok h cs _ (i + 1) hb' fun d hd => hcs d (List.mem_cons_of_mem _ hd)

theorem bestM_eq_ok {cs : List (Cursor ι α)} (h : ReturnsOn ltM lt (elems cs)) : bestM ltM cs = .ok (best lt cs) := by
  cases cs with
  | nil => rfl
  | cons c cs =>
    have hcur : ∀ d ∈ c :: cs, d.current ∈ elems (c :: cs) := fun d hd =>
      List.mem_flatMap.mpr ⟨d, hd, List.mem_cons_self⟩
    simp only [bestM, best, bestFromM_eq_ok h cs (0, c) 1 (hcur c List.mem_cons_self)
      (fun d hd => hcur d (List.mem_cons_of_mem _ hd))]
    rfl

theorem eq_bestFrom_of_bestFromM (h : AgreesWhereOkOn ltM lt s) :
    ∀ (cs : List (Cursor ι α)) (b : ℕ × Cursor ι α) (i : ℕ), b.2.current ∈ s → (∀ c ∈ cs, c.current ∈ s) →
      ∀ r, bestFromM ltM b i cs = .ok r → r = bestFrom lt b i cs
  | [], _, _, _, _, _, hr => (Except.pure_eq_ok.mp hr).symm
  | c :: cs, b, i, hb, hcs, r, hr => by
    have hc := hcs c List.mem_cons_self
    simp only [bestFromM] at hr
    obtain ⟨r₁, h₁, hr⟩ := Except.bind_eq_ok.mp hr
    rw [h _ hc _ hb r₁ h₁] at hr
    have hb' : (if lt c.current b.2.current then (i, c) else b).2.current ∈ s := by
      split <;> assumption
    exact eq_bestFrom_of_bestFromM h cs _ (i + 1) hb' (fun d hd => hcs d (List.mem_cons_of_mem _ hd)) r hr

theorem getElem?_bestFromM (cs : List (Cursor ι α)) (pre : List (Cursor ι α)) (b : ℕ × Cursor ι α)
    (hb : pre[b.1]? = some b.2) {r : ℕ × Cursor ι α} (h : bestFromM ltM b pre.length cs = .ok r) :
    (pre ++ cs)[r.1]? = some r.2 := by
  induction cs generalizing pre b with
  | nil =>
    cases Except.pure_eq_ok.mp h
    simpa using hb
  | cons c cs ih =>
    simp only [bestFromM] at h
    obtain ⟨lt₁, -, h⟩ := Except.bind_eq_ok.mp h
    have hb' : (pre ++ [c])[(if lt₁ then (pre.length, c) else b).1]? = some (if lt₁ then (pre.length, c) else b).2 := by
      split
      · simp
      · rw [List.getElem?_append_left (List.getElem?_eq_some_iff.mp hb).1]
        exact hb
    have := ih (pre ++ [c]) _ hb' (by simpa using h)
    simpa using this

theorem getElem?_bestM {cs : List (Cursor ι α)} {i : ℕ} {c : Cursor ι α} (h : bestM ltM cs = .ok (some (i, c))) :
    cs[i]? = some c := by
  cases cs with
  | nil => cases h
  | cons d ds =>
    obtain ⟨b, hb, heq⟩ := Except.map_eq_ok.mp h
    cases heq
    simpa using getElem?_bestFromM ds [d] (0, d) rfl hb

end Throwing

end MultiwayMerge
