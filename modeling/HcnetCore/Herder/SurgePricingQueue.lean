import HcnetCore.Herder.SurgePricing
import HcnetCore.Library.IndexedLists
import HcnetCore.Library.ExceptInvariant

/-! # The order and the bookkeeping of the surge-pricing queue

The comparator of `SurgePricingPriorityQueue` compares fee rates through `bigMultiply`, which
throws on a negative fee bid. Where both bids are non-negative it returns `precedes`, the strict
order of a rank: the fee rate of a stack's top transaction as a rational, then its address mixed
with the seed, both reversed in the highest-priority queue. `FeeBidsNonneg` says that every stack
of a queue bids fees that are not negative; under it the searches of `add` and `erase` with the
throwing comparator return what the pure searches of `SortedList` return. `Wf` is what every queue
built by the operations keeps: each lane's set sorted by the rank and holding only stacks of that
lane, each lane's count the sum of its stacks' resources within `INT64_MAX`, distinct addresses for
all the transactions held, and stacks whose resources are non-negative and shrink as they are
popped. `add`, `erase` and `popTopTx` keep it, so it holds of every queue reached from `create`,
and neither `erase` nor `popTopTx` ever fails there. Iterating from `getTop` with `advance` then
visits every stack once, in the comparator's order.
-/

namespace HcnetCore.Herder

open Overlay (releaseAssert releaseAssert_of_true)

set_option autoImplicit false

variable {A : Type} {L n : ℕ}

/-! ## The comparator as the order of a rank -/

theorem compare_eq_of_lt_iff {β γ : Type} [LinearOrder β] [LinearOrder γ] {a b : β} {u v : γ}
    (h1 : a < b ↔ u < v) (h2 : b < a ↔ v < u) : compare a b = compare u v := by
  rcases lt_trichotomy a b with h | rfl | h
  · rw [compare_lt_iff_lt.mpr h, compare_lt_iff_lt.mpr (h1.mp h)]
  · have huv : u = v :=
      le_antisymm (not_lt.mp fun h => lt_irrefl a (h2.mpr h)) (not_lt.mp fun h => lt_irrefl a (h1.mpr h))
    rw [compare_eq_iff_eq.mpr rfl, huv, compare_eq_iff_eq.mpr rfl]
  · rw [compare_gt_iff_gt.mpr h, compare_gt_iff_gt.mpr (h2.mp h)]

theorem feeRate3WayCompare_eq_ok_iff {f1 f2 : ℤ} {n1 n2 : ℕ} {r : Ordering} :
    feeRate3WayCompare f1 n1 f2 n2 = .ok r ↔ 0 ≤ f1 ∧ 0 ≤ f2 ∧ r = compare (f1.toNat * n2) (f2.toNat * n1) := by
  unfold feeRate3WayCompare
  constructor
  · intro h
    obtain ⟨v1, h1, h⟩ := Except.bind_eq_ok.mp h
    obtain ⟨v2, h2, h⟩ := Except.bind_eq_ok.mp h
    obtain ⟨hf1, -, rfl⟩ := Util.bigMultiply_eq_ok_iff.mp h1
    obtain ⟨hf2, -, rfl⟩ := Util.bigMultiply_eq_ok_iff.mp h2
    rw [Int.toNat_natCast, Int.toNat_natCast] at h
    exact ⟨hf1, hf2, (Except.pure_eq_ok.mp h).symm⟩
  · rintro ⟨hf1, hf2, rfl⟩
    rw [Util.bigMultiply_eq_ok_iff.mpr ⟨hf1, Int.natCast_nonneg _, rfl⟩, Except.ok_bind,
      Util.bigMultiply_eq_ok_iff.mpr ⟨hf2, Int.natCast_nonneg _, rfl⟩, Except.ok_bind, Int.toNat_natCast,
      Int.toNat_natCast]
    rfl

theorem compare_mul_eq_compare_div {f1 f2 : ℤ} {n1 n2 : ℕ} (hf1 : 0 ≤ f1) (hf2 : 0 ≤ f2) (h1 : 0 < n1)
    (h2 : 0 < n2) : compare (f1.toNat * n2) (f2.toNat * n1) = compare ((f1 : ℚ) / n1) ((f2 : ℚ) / n2) := by
  obtain ⟨m1, rfl⟩ := Int.eq_ofNat_of_zero_le hf1
  obtain ⟨m2, rfl⟩ := Int.eq_ofNat_of_zero_le hf2
  have hq1 : (0 : ℚ) < n1 := Nat.cast_pos.mpr h1
  have hq2 : (0 : ℚ) < n2 := Nat.cast_pos.mpr h2
  rw [Int.toNat_natCast, Int.toNat_natCast, Int.cast_natCast, Int.cast_natCast]
  apply compare_eq_of_lt_iff
  · rw [div_lt_div_iff₀ hq1 hq2]
    norm_cast
  · rw [div_lt_div_iff₀ hq2 hq1]
    norm_cast

namespace TxStackComparator

def feeRate (tx : TxFrame A) : ℚ := (tx.inclusionFee : ℚ) / tx.numOperations

/-- A transaction's place in the lowest-priority order: its fee rate, then its address mixed with
the seed. -/
def txKey (c : TxStackComparator) (tx : TxFrame A) : Lex (ℚ × ℤ) :=
  toLex (feeRate tx, ((tx.address ^^^ c.seed : ℕ) : ℤ))

/-- A stack's place in the comparator's order: its top's key, reversed in the highest-priority
queue. -/
def rank (c : TxStackComparator) (s : TxStack A n) : Lex (ℚ × ℤ) :=
  if c.isGreater then toLex (-(ofLex (c.txKey s.top)).1, -(ofLex (c.txKey s.top)).2) else c.txKey s.top

/-- What `txLessThan` returns where it returns: the lower fee rate, or, on a tie and when asked,
the lower address mixed with the seed. -/
def txPrecedes (c : TxStackComparator) (tx1 tx2 : TxFrame A) (breakTiesWithHash : Bool) : Bool :=
  if feeRate tx1 ≠ feeRate tx2 ∨ !breakTiesWithHash then decide (feeRate tx1 < feeRate tx2)
  else decide (tx1.address ^^^ c.seed < tx2.address ^^^ c.seed)

def precedes (c : TxStackComparator) (s1 s2 : TxStack A n) : Bool :=
  c.txPrecedes s1.top s2.top true ^^ c.isGreater

variable (c : TxStackComparator)

theorem txLessThan_eq_ok_iff {t1 t2 : TxFrame A} {b r : Bool} (h1 : 0 < t1.numOperations)
    (h2 : 0 < t2.numOperations) :
    c.txLessThan t1 t2 b = .ok r ↔ 0 ≤ t1.inclusionFee ∧ 0 ≤ t2.inclusionFee ∧ r = c.txPrecedes t1 t2 b := by
  unfold txLessThan
  rw [Except.bind_eq_ok]
  constructor
  · rintro ⟨cmp3, hcmp, h⟩
    obtain ⟨hf1, hf2, rfl⟩ := feeRate3WayCompare_eq_ok_iff.mp hcmp
    rw [compare_mul_eq_compare_div hf1 hf2 h1 h2] at h
    refine ⟨hf1, hf2, ?_⟩
    unfold txPrecedes feeRate
    simp only [ne_eq, compare_eq_iff_eq, compare_lt_iff_lt] at h
    split_ifs at h ⊢ <;> exact (Except.pure_eq_ok.mp h).symm
  · rintro ⟨hf1, hf2, rfl⟩
    refine ⟨_, feeRate3WayCompare_eq_ok_iff.mpr ⟨hf1, hf2, rfl⟩, ?_⟩
    rw [compare_mul_eq_compare_div hf1 hf2 h1 h2]
    unfold txPrecedes feeRate
    simp only [ne_eq, compare_eq_iff_eq, compare_lt_iff_lt]
    split_ifs <;> rfl

theorem compare_eq_ok_iff {s1 s2 : TxStack A n} {r : Bool} (h1 : 0 < s1.top.numOperations)
    (h2 : 0 < s2.top.numOperations) :
    c.compare s1 s2 = .ok r ↔ 0 ≤ s1.top.inclusionFee ∧ 0 ≤ s2.top.inclusionFee ∧ r = c.precedes s1 s2 := by
  unfold compare txStackLessThan precedes
  rw [Except.bind_eq_ok]
  constructor
  · rintro ⟨b, hb, h⟩
    obtain ⟨hf1, hf2, rfl⟩ := (c.txLessThan_eq_ok_iff h1 h2).mp hb
    exact ⟨hf1, hf2, (Except.pure_eq_ok.mp h).symm⟩
  · rintro ⟨hf1, hf2, rfl⟩
    exact ⟨_, (c.txLessThan_eq_ok_iff h1 h2).mpr ⟨hf1, hf2, rfl⟩, rfl⟩

theorem txPrecedes_eq (t1 t2 : TxFrame A) : c.txPrecedes t1 t2 true = decide (c.txKey t1 < c.txKey t2) := by
  unfold txPrecedes txKey
  simp only [Prod.Lex.toLex_lt_toLex]
  by_cases heq : feeRate t1 = feeRate t2
  · simp [heq]
  · simp [heq]

theorem neg_toLex_lt_iff {p q : Lex (ℚ × ℤ)} :
    toLex (-(ofLex p).1, -(ofLex p).2) < toLex (-(ofLex q).1, -(ofLex q).2) ↔ q < p := by
  rw [Prod.Lex.toLex_lt_toLex, Prod.Lex.lt_iff, neg_lt_neg_iff, neg_lt_neg_iff, neg_inj, eq_comm]

theorem neg_toLex_injective : Function.Injective fun p : Lex (ℚ × ℤ) => toLex (-(ofLex p).1, -(ofLex p).2) := by
  intro p q h
  simp only [toLex_inj, Prod.mk.injEq, neg_inj] at h
  exact ofLex.injective (Prod.ext h.1 h.2)

theorem rank_ne_iff {s1 s2 : TxStack A n} : c.rank s1 ≠ c.rank s2 ↔ c.txKey s1.top ≠ c.txKey s2.top := by
  unfold rank
  split
  · exact neg_toLex_injective.ne_iff
  · rfl

theorem rank_ne_of_address_ne {s1 s2 : TxStack A n} (h : s1.top.address ≠ s2.top.address) :
    c.rank s1 ≠ c.rank s2 := by
  rw [rank_ne_iff]
  intro heq
  have h2 := congrArg (fun k => (ofLex k).2) heq
  simp only [txKey, ofLex_toLex, Nat.cast_inj] at h2
  exact h (Nat.xor_left_injective h2)

theorem precedes_eq_true_iff {s1 s2 : TxStack A n} (hne : c.rank s1 ≠ c.rank s2) :
    c.precedes s1 s2 = true ↔ c.rank s1 < c.rank s2 := by
  have hkey := (c.rank_ne_iff).mp hne
  unfold precedes
  rw [c.txPrecedes_eq]
  unfold rank
  cases c.isGreater
  · simp
  · simp only [Bool.xor_true, Bool.not_eq_eq_eq_not, Bool.not_true, decide_eq_false_iff_not, if_true,
      neg_toLex_lt_iff, not_lt]
    exact ⟨fun h => lt_of_le_of_ne h (Ne.symm hkey), le_of_lt⟩

theorem precedes_eq_true_iff_of_not_isGreater (hg : c.isGreater = false) {s1 s2 : TxStack A n} :
    c.precedes s1 s2 = true ↔ c.rank s1 < c.rank s2 := by
  unfold precedes rank
  rw [c.txPrecedes_eq, hg]
  simp

/-! ### The searches under the comparator -/

theorem agreesWhereOk_compare {x : TxStack A n} {l : List (TxStack A n)} (hx : 0 < x.top.numOperations)
    (hl : ∀ y ∈ l, 0 < y.top.numOperations) : SortedList.AgreesWhereOk c.compare c.precedes x l :=
  fun y hy => ⟨fun _ h => ((c.compare_eq_ok_iff hx (hl y hy)).mp h).2.2,
    fun _ h => ((c.compare_eq_ok_iff (hl y hy) hx).mp h).2.2⟩

theorem returnsWith_compare {x : TxStack A n} {l : List (TxStack A n)}
    (hx : 0 < x.top.numOperations ∧ 0 ≤ x.top.inclusionFee)
    (hl : ∀ y ∈ l, 0 < y.top.numOperations ∧ 0 ≤ y.top.inclusionFee) :
    SortedList.ReturnsWith c.compare c.precedes x l :=
  fun y hy => ⟨(c.compare_eq_ok_iff hx.1 (hl y hy).1).mpr ⟨hx.2, (hl y hy).2, rfl⟩,
    (c.compare_eq_ok_iff (hl y hy).1 hx.1).mpr ⟨(hl y hy).2, hx.2, rfl⟩⟩

theorem returnsOn_compare {l : List (TxStack A n)}
    (hl : ∀ y ∈ l, 0 < y.top.numOperations ∧ 0 ≤ y.top.inclusionFee) :
    MultiwayMerge.ReturnsOn c.compare c.precedes l :=
  fun x hx y hy => (c.compare_eq_ok_iff (hl x hx).1 (hl y hy).1).mpr ⟨(hl x hx).2, (hl y hy).2, rfl⟩

end TxStackComparator

/-! ## Stacks the queue can hold -/

namespace TxStack

/-- What the queue needs of a stack: operations in each of its transactions, and resources that
are non-negative on what is left of it and shrink as its transactions are popped. -/
structure Ok (s : TxStack A n) : Prop where
  numOperations_pos : ∀ tx ∈ s.txs, 0 < tx.numOperations
  resources_nonneg : ∀ l, l <:+ s.txs → l ≠ [] → 0 ≤ s.resourcesOf l
  resources_mono : ∀ l₁ l₂, l₁ <:+ l₂ → l₂ <:+ s.txs → l₁ ≠ [] → s.resourcesOf l₁ ≤ s.resourcesOf l₂

theorem Ok.getResources_nonneg {s : TxStack A n} (h : s.Ok) : 0 ≤ s.getResources :=
  h.resources_nonneg s.txs (List.suffix_refl _) (List.cons_ne_nil _ _)

theorem Ok.top_numOperations_pos {s : TxStack A n} (h : s.Ok) : 0 < s.top.numOperations :=
  h.numOperations_pos _ List.mem_cons_self

theorem popTopTx_eq_some {s s' : TxStack A n} (h : s.popTopTx = some s') :
    s.txs = s.top :: s'.txs ∧ s'.resourcesOf = s.resourcesOf := by
  obtain ⟨top, _ | ⟨tx, rest⟩, res⟩ := s
  · simp [popTopTx] at h
  · simp only [popTopTx, Option.some.injEq] at h
    subst h
    exact ⟨rfl, rfl⟩

theorem Ok.popTopTx {s s' : TxStack A n} (h : s.Ok) (hs : s.popTopTx = some s') :
    s'.Ok ∧ s'.getResources ≤ s.getResources := by
  obtain ⟨htxs, hres⟩ := popTopTx_eq_some hs
  have hsuf : s'.txs <:+ s.txs := htxs ▸ List.suffix_cons _ _
  refine ⟨⟨fun tx htx => h.numOperations_pos tx (hsuf.subset htx), fun l hl hne => ?_,
    fun l₁ l₂ h₁ h₂ hne => ?_⟩, ?_⟩
  · rw [hres]
    exact h.resources_nonneg l (hl.trans hsuf) hne
  · rw [hres]
    exact h.resources_mono l₁ l₂ h₁ (h₂.trans hsuf) hne
  · unfold getResources
    rw [hres]
    exact h.resources_mono _ _ hsuf (List.suffix_refl _) (List.cons_ne_nil _ _)

theorem ok_of_rest_eq_nil {s : TxStack A n} (hrest : s.rest = []) (hops : 0 < s.top.numOperations)
    (hres : 0 ≤ s.getResources) : s.Ok := by
  -- the only suffix of the stack that is not empty is the stack itself
  have hsuf : ∀ l, l <:+ s.txs → l ≠ [] → l = s.txs := by
    intro l hl hne
    refine hl.eq_of_length (le_antisymm hl.length_le ?_)
    simp only [txs, hrest, List.length_singleton]
    exact List.length_pos_iff.mpr hne
  refine ⟨fun tx htx => ?_, fun l hl hne => ?_, fun l₁ l₂ h₁ h₂ hne => ?_⟩
  · simp only [txs, hrest, List.mem_singleton] at htx
    exact htx ▸ hops
  · rw [hsuf l hl hne]
    exact hres
  · have hne₂ : l₂ ≠ [] := fun h => hne (List.suffix_nil.mp (h ▸ h₁))
    rw [hsuf l₁ (h₁.trans h₂) hne, hsuf l₂ h₂ hne₂]

/-- The inclusion fee bids of the stack's transactions are not negative, as `TransactionQueue`
admits them: `bigMultiply` then never throws when the comparator meets the stack. -/
def FeeBidsNonneg (s : TxStack A n) : Prop := ∀ tx ∈ s.txs, 0 ≤ tx.inclusionFee

theorem FeeBidsNonneg.top {s : TxStack A n} (h : s.FeeBidsNonneg) : 0 ≤ s.top.inclusionFee :=
  h _ List.mem_cons_self

theorem FeeBidsNonneg.popTopTx {s s' : TxStack A n} (h : s.FeeBidsNonneg) (hs : s.popTopTx = some s') :
    s'.FeeBidsNonneg :=
  fun tx htx => h tx ((popTopTx_eq_some hs).1 ▸ List.mem_cons_of_mem _ htx)

end TxStack

/-! ## The queue's invariant -/

namespace SurgePricingPriorityQueue

variable (q : SurgePricingPriorityQueue A L n)

def allTxs : List (TxFrame A) := q.allStacks.flatMap TxStack.txs

/-- What the operations keep of the queue: every lane's set sorted by rank and holding stacks of
that lane only, stacks the queue can hold, distinct addresses for all the transactions, and each
lane's count the sum of its stacks' resources. -/
structure Wf : Prop where
  sorted : ∀ lane, SortedList.Sorted q.comparator.rank (q.txStackSets lane)
  getLane_top : ∀ lane, ∀ s ∈ q.txStackSets lane, q.laneConfig.getLane s.top = lane
  stack_ok : ∀ s ∈ q.allStacks, s.Ok
  addresses_nodup : (q.allTxs.map TxFrame.address).Nodup
  count_eq : ∀ lane, q.laneCurrentCount lane = ((q.txStackSets lane).map TxStack.getResources).sum

def Bounded : Prop := (q.allStacks.map TxStack.getResources).sum ≤ fun _ => INT64_MAX

def FeeBidsNonneg : Prop := ∀ s ∈ q.allStacks, s.FeeBidsNonneg

/-- `q'` is `q` with the stacks `removed` taken out and those `added` put in, under the same
comparator and configuration, and it keeps the invariant. -/
structure Changes (q' : SurgePricingPriorityQueue A L n) (removed added : List (TxStack A n)) : Prop where
  wf : q'.Wf
  perm : (removed ++ q'.allStacks).Perm (added ++ q.allStacks)
  comparator : q'.comparator = q.comparator
  laneConfig : q'.laneConfig = q.laneConfig

variable {q}

theorem mem_allStacks {s : TxStack A n} : s ∈ q.allStacks ↔ ∃ lane, s ∈ q.txStackSets lane := by
  simp [allStacks]

theorem Wf.stack_ok_of_mem (hq : q.Wf) {lane : Fin L} {s : TxStack A n} (hs : s ∈ q.txStackSets lane) : s.Ok :=
  hq.stack_ok s (mem_allStacks.mpr ⟨lane, hs⟩)

theorem top_mem_allTxs {s : TxStack A n} (hs : s ∈ q.allStacks) : s.top ∈ q.allTxs :=
  List.mem_flatMap.mpr ⟨s, hs, List.mem_cons_self⟩

theorem allStacks_perm {q' : SurgePricingPriorityQueue A L n} {lane : Fin L} {l x y : List (TxStack A n)}
    (hsets : q'.txStackSets = Function.update q.txStackSets lane l)
    (h : (x ++ l).Perm (y ++ q.txStackSets lane)) : (x ++ q'.allStacks).Perm (y ++ q.allStacks) := by
  unfold allStacks
  rw [hsets]
  exact IndexedLists.perm_flatMap_update (List.nodup_finRange L) (List.mem_finRange lane) _ h

theorem allTxs_perm {q' : SurgePricingPriorityQueue A L n} {x y : List (TxStack A n)}
    (h : (x ++ q'.allStacks).Perm (y ++ q.allStacks)) :
    (x.flatMap TxStack.txs ++ q'.allTxs).Perm (y.flatMap TxStack.txs ++ q.allTxs) := by
  simpa [allTxs] using h.flatMap_right TxStack.txs

theorem Wf.top_comparable (hq : q.Wf) (hfee : q.FeeBidsNonneg) {s : TxStack A n} (hs : s ∈ q.allStacks) :
    0 < s.top.numOperations ∧ 0 ≤ s.top.inclusionFee :=
  ⟨(hq.stack_ok s hs).top_numOperations_pos, (hfee s hs).top⟩

theorem Changes.feeBidsNonneg {q' : SurgePricingPriorityQueue A L n} {x y : List (TxStack A n)}
    (h : q.Changes q' x y) (hq : q.FeeBidsNonneg) (hy : ∀ s ∈ y, s.FeeBidsNonneg) : q'.FeeBidsNonneg := by
  intro s hs
  rcases List.mem_append.mp (h.perm.subset (List.mem_append_right x hs)) with hs' | hs'
  · exact hy s hs'
  · exact hq s hs'

theorem agreesWith_precedes {s : TxStack A n} {lane : Fin L}
    (hne : ∀ y ∈ q.txStackSets lane, q.comparator.rank y ≠ q.comparator.rank s) :
    SortedList.AgreesWith q.comparator.rank q.comparator.precedes s (q.txStackSets lane) :=
  fun y hy => ⟨q.comparator.precedes_eq_true_iff (hne y hy).symm, q.comparator.precedes_eq_true_iff (hne y hy)⟩

theorem rank_ne_of_fresh {s : TxStack A n} (hfresh : ((s.txs ++ q.allTxs).map TxFrame.address).Nodup)
    {y : TxStack A n} (hy : y ∈ q.allStacks) : q.comparator.rank y ≠ q.comparator.rank s := by
  apply q.comparator.rank_ne_of_address_ne
  rw [List.map_append, List.nodup_append] at hfresh
  exact (hfresh.2.2 _ (List.mem_map_of_mem List.mem_cons_self) _
    (List.mem_map_of_mem (top_mem_allTxs hy))).symm

theorem allStacks_create [NeZero L] (isHighestPriority : Bool) (laneConfig : SurgePricingLaneConfig A L n)
    (comparisonSeed : ℕ) : (create isHighestPriority laneConfig comparisonSeed).allStacks = [] :=
  List.flatMap_eq_nil_iff.mpr fun _ _ => rfl

theorem wf_create [NeZero L] (isHighestPriority : Bool) (laneConfig : SurgePricingLaneConfig A L n)
    (comparisonSeed : ℕ) : (create isHighestPriority laneConfig comparisonSeed).Wf where
  sorted _ := List.Pairwise.nil
  getLane_top _ _ hs := by simp [create] at hs
  stack_ok _ hs := by simp [allStacks_create] at hs
  addresses_nodup := by simp [allTxs, allStacks_create]
  count_eq _ := rfl

theorem feeBidsNonneg_create [NeZero L] (isHighestPriority : Bool) (laneConfig : SurgePricingLaneConfig A L n)
    (comparisonSeed : ℕ) : (create isHighestPriority laneConfig comparisonSeed).FeeBidsNonneg :=
  fun _ hs => by simp [allStacks_create] at hs

/-! ## What the operations do -/

theorem Wf.update (hq : q.Wf) {lane : Fin L} {l x y : List (TxStack A n)} {count : Resource n}
    (hperm : (x ++ l).Perm (y ++ q.txStackSets lane)) (hsorted : SortedList.Sorted q.comparator.rank l)
    (hlane : ∀ s ∈ y, q.laneConfig.getLane s.top = lane) (hok : ∀ s ∈ y, s.Ok)
    (hnodup : ((y.flatMap TxStack.txs ++ q.allTxs).map TxFrame.address).Nodup)
    (hcount : count = (l.map TxStack.getResources).sum) :
    q.Changes { q with
      txStackSets := Function.update q.txStackSets lane l
      laneCurrentCount := Function.update q.laneCurrentCount lane count } x y := by
  have hall : (x ++ SurgePricingPriorityQueue.allStacks { q with
      txStackSets := Function.update q.txStackSets lane l
      laneCurrentCount := Function.update q.laneCurrentCount lane count }).Perm (y ++ q.allStacks) :=
    allStacks_perm rfl hperm
  have hmem : ∀ s ∈ l, s ∈ y ∨ s ∈ q.txStackSets lane := fun s hs =>
    List.mem_append.mp (hperm.subset (List.mem_append_right _ hs))
  refine ⟨⟨fun lane' => ?_, fun lane' s hs => ?_, fun s hs => ?_, ?_, fun lane' => ?_⟩, hall, rfl, rfl⟩
  · by_cases hl : lane' = lane
    · subst hl
      simpa using hsorted
    · simpa [Function.update_of_ne hl] using hq.sorted lane'
  · by_cases hl : lane' = lane
    · subst hl
      simp only [Function.update_self] at hs
      rcases hmem s hs with hy | hs'
      · exact hlane s hy
      · exact hq.getLane_top lane' s hs'
    · simp only [ne_eq, hl, not_false_eq_true, Function.update_of_ne] at hs
      exact hq.getLane_top lane' s hs
  · rcases List.mem_append.mp (hall.subset (List.mem_append_right x hs)) with hy | hs'
    · exact hok s hy
    · exact hq.stack_ok s hs'
  · have := ((allTxs_perm hall).map TxFrame.address).nodup_iff.mpr (by simpa using hnodup)
    rw [List.map_append] at this
    exact this.of_append_right
  · by_cases hl : lane' = lane
    · subst hl
      simpa using hcount
    · simpa [Function.update_of_ne hl] using hq.count_eq lane'

theorem add_eq_of_insertByM {s : TxStack A n} {set : List (TxStack A n)}
    (h : SortedList.insertByM q.comparator.compare s (q.txStackSets (q.laneConfig.getLane s.top)) = .ok (set, true)) :
    q.add s = (q.laneCurrentCount (q.laneConfig.getLane s.top)).add s.getResources >>= fun count =>
      pure { q with
        txStackSets := Function.update q.txStackSets (q.laneConfig.getLane s.top) set
        laneCurrentCount := Function.update q.laneCurrentCount (q.laneConfig.getLane s.top) count } := by
  simp only [SurgePricingPriorityQueue.add, h, Except.ok_bind, if_true]

theorem Wf.eq_emplace_of_insertByM (hq : q.Wf) {s : TxStack A n} (hs : s.Ok)
    (hfresh : ((s.txs ++ q.allTxs).map TxFrame.address).Nodup) {r : List (TxStack A n) × Bool}
    (h : SortedList.insertByM q.comparator.compare s (q.txStackSets (q.laneConfig.getLane s.top)) = .ok r) :
    r = (SortedList.emplace q.comparator.rank s (q.txStackSets (q.laneConfig.getLane s.top)), true) := by
  have hne : ∀ y ∈ q.txStackSets (q.laneConfig.getLane s.top), q.comparator.rank y ≠ q.comparator.rank s :=
    fun y hy => rank_ne_of_fresh hfresh (mem_allStacks.mpr ⟨_, hy⟩)
  have hagree : SortedList.AgreesWhereOk q.comparator.compare q.comparator.precedes s
      (q.txStackSets (q.laneConfig.getLane s.top)) :=
    q.comparator.agreesWhereOk_compare hs.top_numOperations_pos fun y hy => (hq.stack_ok_of_mem hy).top_numOperations_pos
  rw [SortedList.eq_insertBy_of_insertByM hagree h, SortedList.insertBy_eq (hq.sorted _) (agreesWith_precedes hne),
    decide_eq_true hne]

theorem Wf.insertByM_eq_ok (hq : q.Wf) (hfee : q.FeeBidsNonneg) {s : TxStack A n} (hs : s.Ok)
    (hsfee : s.FeeBidsNonneg) (hfresh : ((s.txs ++ q.allTxs).map TxFrame.address).Nodup) :
    SortedList.insertByM q.comparator.compare s (q.txStackSets (q.laneConfig.getLane s.top)) =
      .ok (SortedList.emplace q.comparator.rank s (q.txStackSets (q.laneConfig.getLane s.top)), true) := by
  have hne : ∀ y ∈ q.txStackSets (q.laneConfig.getLane s.top), q.comparator.rank y ≠ q.comparator.rank s :=
    fun y hy => rank_ne_of_fresh hfresh (mem_allStacks.mpr ⟨_, hy⟩)
  have hret : SortedList.ReturnsWith q.comparator.compare q.comparator.precedes s
      (q.txStackSets (q.laneConfig.getLane s.top)) :=
    q.comparator.returnsWith_compare ⟨hs.top_numOperations_pos, hsfee.top⟩
      fun y hy => hq.top_comparable hfee (mem_allStacks.mpr ⟨_, hy⟩)
  rw [SortedList.insertByM_eq_ok hret, SortedList.insertBy_eq (hq.sorted _) (agreesWith_precedes hne),
    decide_eq_true hne]

theorem Wf.add_eq (hq : q.Wf) (hfee : q.FeeBidsNonneg) {s : TxStack A n} (hs : s.Ok) (hsfee : s.FeeBidsNonneg)
    (hfresh : ((s.txs ++ q.allTxs).map TxFrame.address).Nodup) :
    q.add s = (q.laneCurrentCount (q.laneConfig.getLane s.top)).add s.getResources >>= fun count =>
      pure { q with
        txStackSets := Function.update q.txStackSets (q.laneConfig.getLane s.top)
          (SortedList.emplace q.comparator.rank s (q.txStackSets (q.laneConfig.getLane s.top)))
        laneCurrentCount := Function.update q.laneCurrentCount (q.laneConfig.getLane s.top) count } :=
  add_eq_of_insertByM (hq.insertByM_eq_ok hfee hs hsfee hfresh)

theorem Wf.add (hq : q.Wf) {s : TxStack A n} (hs : s.Ok)
    (hfresh : ((s.txs ++ q.allTxs).map TxFrame.address).Nodup) {q' : SurgePricingPriorityQueue A L n}
    (h : q.add s = .ok q') : q.Changes q' [] [s] := by
  cases hins : SortedList.insertByM q.comparator.compare s (q.txStackSets (q.laneConfig.getLane s.top)) with
  | error e =>
    simp only [SurgePricingPriorityQueue.add, hins] at h
    cases h
  | ok r =>
    rw [hq.eq_emplace_of_insertByM hs hfresh hins] at hins
    rw [add_eq_of_insertByM hins] at h
    obtain ⟨count, hcount, hq'⟩ := Except.bind_eq_ok.mp h
    obtain ⟨-, rfl⟩ := Resource.add_eq_ok_iff.mp hcount
    rw [Except.pure_eq_ok] at hq'
    subst hq'
    have hne : ∀ y ∈ q.txStackSets (q.laneConfig.getLane s.top), q.comparator.rank y ≠ q.comparator.rank s :=
      fun y hy => rank_ne_of_fresh hfresh (mem_allStacks.mpr ⟨_, hy⟩)
    have hperm := SortedList.emplace_perm hne
    refine hq.update (by simpa using hperm) (SortedList.sorted_emplace (hq.sorted _)) (by simp) (by simpa using hs)
      (by simpa using hfresh) ?_
    rw [(hperm.map _).sum_eq, List.map_cons, List.sum_cons, hq.count_eq, add_comm]

theorem Wf.add_eq_error (hq : q.Wf) (hfee : q.FeeBidsNonneg) {s : TxStack A n} (hs : s.Ok)
    (hsfee : s.FeeBidsNonneg) (hfresh : ((s.txs ++ q.allTxs).map TxFrame.address).Nodup)
    (h : ¬ q.laneCurrentCount (q.laneConfig.getLane s.top) + s.getResources ≤ fun _ => INT64_MAX) :
    q.add s = .error "canAdd(other)" := by
  rw [hq.add_eq hfee hs hsfee hfresh, Resource.add_eq_error h]
  rfl

/-- On a well-formed queue of non-negative fee bids, `add` of a stack the queue can hold, of such
bids and with transactions not in the queue, puts in exactly that stack when its lane's count
stays within `INT64_MAX`, and otherwise fails with the message of `canAdd`. -/
theorem Wf.add_spec (hq : q.Wf) (hfee : q.FeeBidsNonneg) {s : TxStack A n} (hs : s.Ok) (hsfee : s.FeeBidsNonneg)
    (hfresh : ((s.txs ++ q.allTxs).map TxFrame.address).Nodup) :
    (q.laneCurrentCount (q.laneConfig.getLane s.top) + s.getResources ≤ (fun _ => INT64_MAX) →
      ∃ q', q.add s = .ok q' ∧ q.Changes q' [] [s]) ∧
    (¬ q.laneCurrentCount (q.laneConfig.getLane s.top) + s.getResources ≤ (fun _ => INT64_MAX) →
      q.add s = .error "canAdd(other)") := by
  refine ⟨fun hle => ?_, hq.add_eq_error hfee hs hsfee hfresh⟩
  have hadd := hq.add_eq hfee hs hsfee hfresh
  rw [Resource.add_eq_ok hle, Except.ok_bind] at hadd
  exact ⟨_, hadd, hq.add hs hfresh hadd⟩

/-- Two lanes, lane 0 for the transactions of account 0, each holding one unit of resources. -/
def sampleLaneConfig : SurgePricingLaneConfig ℕ 2 1 :=
  ⟨fun tx => if tx.sourceID = 0 then 0 else 1, fun _ _ => 1, fun _ _ => 1⟩

def sampleTx (fee : ℤ) (source address : ℕ) : TxFrame ℕ :=
  ⟨fee, fee, 1, source, address, source, 1, none, 0, 0, .ENVELOPE_TYPE_TX, address, 0, [], true⟩

def sampleStack (fee : ℤ) (source address : ℕ) : TxStack ℕ 1 := ⟨sampleTx fee source address, [], fun _ _ => 1⟩

theorem sampleStack_ok (fee : ℤ) (source address : ℕ) : (sampleStack fee source address).Ok :=
  TxStack.ok_of_rest_eq_nil rfl Nat.one_pos (fun _ => zero_le_one)

theorem sampleStack_feeBidsNonneg {fee : ℤ} (hfee : 0 ≤ fee) (source address : ℕ) :
    (sampleStack fee source address).FeeBidsNonneg := by
  intro tx htx
  simp only [sampleStack, sampleTx, TxStack.txs, List.mem_singleton] at htx
  rw [htx]
  exact hfee

theorem add_sampleStack_create {isHighestPriority : Bool} {fee : ℤ} (hfee : 0 ≤ fee) {source address : ℕ}
    {q : SurgePricingPriorityQueue ℕ 2 1}
    (h : (create isHighestPriority sampleLaneConfig 3).add (sampleStack fee source address) = .ok q) :
    q.Wf ∧ q.FeeBidsNonneg ∧ (q.allTxs.map TxFrame.address).Perm [address] := by
  have hc := (wf_create isHighestPriority sampleLaneConfig 3).add (sampleStack_ok fee source address)
    (by simp [allTxs, allStacks_create, sampleStack, sampleTx, TxStack.txs]) h
  refine ⟨hc.wf, hc.feeBidsNonneg (feeBidsNonneg_create _ _ _) ?_, ?_⟩
  · simpa using sampleStack_feeBidsNonneg hfee source address
  · simpa [allTxs, allStacks_create, sampleStack, sampleTx, TxStack.txs] using (allTxs_perm hc.perm).map TxFrame.address

/-- A second stack of account 0 goes into the lane of the first, in a lowest-priority queue: `add`
compares the two. -/
theorem add_spec_second : ∃ (q : SurgePricingPriorityQueue ℕ 2 1) (s : TxStack ℕ 1),
    (create false sampleLaneConfig 3).add (sampleStack 3 0 7) = .ok q ∧ s = sampleStack 5 0 8 ∧
    q.laneConfig.getLane s.top = q.laneConfig.getLane (sampleStack 3 0 7).top ∧
    q.Wf ∧ q.FeeBidsNonneg ∧ s.Ok ∧ s.FeeBidsNonneg ∧ ((s.txs ++ q.allTxs).map TxFrame.address).Nodup ∧
    (q.laneCurrentCount (q.laneConfig.getLane s.top) + s.getResources ≤ (fun _ => INT64_MAX) →
      ∃ q', q.add s = .ok q' ∧ q.Changes q' [] [s]) ∧
    (¬ q.laneCurrentCount (q.laneConfig.getLane s.top) + s.getResources ≤ (fun _ => INT64_MAX) →
      q.add s = .error "canAdd(other)") := by
  obtain ⟨q, h⟩ : ∃ q, (create false sampleLaneConfig 3).add (sampleStack 3 0 7) = .ok q := ⟨_, rfl⟩
  obtain ⟨hq, hfee, haddr⟩ := add_sampleStack_create (by decide) h
  have hcfg : q.laneConfig = sampleLaneConfig := by
    rw [((wf_create false sampleLaneConfig 3).add (sampleStack_ok 3 0 7)
      (by simp [allTxs, allStacks_create, sampleStack, sampleTx, TxStack.txs]) h).laneConfig]
    rfl
  have hfresh : (((sampleStack 5 0 8).txs ++ q.allTxs).map TxFrame.address).Nodup := by
    rw [List.map_append]
    exact (haddr.append_left _).nodup_iff.mpr (by decide)
  refine ⟨q, _, h, rfl, by rw [hcfg]; rfl, hq, hfee, sampleStack_ok 5 0 8, sampleStack_feeBidsNonneg (by decide) 0 8,
    hfresh, hq.add_spec hfee (sampleStack_ok 5 0 8) (sampleStack_feeBidsNonneg (by decide) 0 8) hfresh⟩

theorem Wf.eraseAt (hq : q.Wf) {lane : Fin L} {s : TxStack A n} {pos : ℕ}
    (hpos : (q.txStackSets lane)[pos]? = some s) :
    ∃ q', q.eraseAt lane s pos = .ok q' ∧ q.Changes q' [s] [] := by
  have hperm := SortedList.perm_cons_eraseIdx hpos
  let rest := (q.txStackSets lane).eraseIdx pos
  -- the lane's count is `s`'s resources and those of the rest, which are non-negative
  have hsum : q.laneCurrentCount lane = s.getResources + (rest.map TxStack.getResources).sum := by
    rw [hq.count_eq, (hperm.map _).sum_eq, List.map_cons, List.sum_cons]
  have hrest : 0 ≤ (rest.map TxStack.getResources).sum := by
    apply List.sum_nonneg
    intro r hr
    obtain ⟨y, hy, rfl⟩ := List.mem_map.mp hr
    exact (hq.stack_ok_of_mem ((List.eraseIdx_sublist _ _).subset hy)).getResources_nonneg
  have hle : s.getResources ≤ q.laneCurrentCount lane := by
    rw [hsum]
    exact le_add_of_nonneg_right hrest
  refine ⟨{ q with
      txStackSets := Function.update q.txStackSets lane rest
      laneCurrentCount := Function.update q.laneCurrentCount lane (q.laneCurrentCount lane - s.getResources) },
    ?_, ?_⟩
  · simp only [SurgePricingPriorityQueue.eraseAt, releaseAssert_of_true (Resource.le_eq_true.mpr hle),
      Resource.sub_eq_ok hle]
    rfl
  · exact hq.update (by simpa using hperm.symm) ((hq.sorted lane).sublist (List.eraseIdx_sublist _ _))
      (by simp) (by simp) (by simpa using hq.addresses_nodup) (by rw [hsum, add_sub_cancel_left])

theorem erase_eq_of_findByM {s : TxStack A n} {r : Option (ℕ × TxStack A n)}
    (h : SortedList.findByM q.comparator.compare s (q.txStackSets (q.laneConfig.getLane s.top)) = .ok r) :
    q.erase s = r.elim (pure q) fun b => q.eraseAt (q.laneConfig.getLane s.top) b.2 b.1 := by
  simp only [SurgePricingPriorityQueue.erase, h, Except.ok_bind]
  cases r <;> rfl

theorem agreesWith_of_not_isGreater (hg : q.comparator.isGreater = false) {s : TxStack A n} {lane : Fin L} :
    SortedList.AgreesWith q.comparator.rank q.comparator.precedes s (q.txStackSets lane) :=
  fun _ _ => ⟨q.comparator.precedes_eq_true_iff_of_not_isGreater hg,
    q.comparator.precedes_eq_true_iff_of_not_isGreater hg⟩

/-- In a lowest-priority queue of non-negative fee bids, `erase` of a stack with operations and a
non-negative bid in its top passes its assertions and takes out the stack of its lane's set that
has its rank, if there is one. -/
theorem Wf.erase_of_not_isGreater (hq : q.Wf) (hfee : q.FeeBidsNonneg) (hg : q.comparator.isGreater = false)
    {s : TxStack A n} (hs : 0 < s.top.numOperations) (hsfee : 0 ≤ s.top.inclusionFee) :
    ∃ q', q.erase s = .ok q' ∧
      ((∃ y ∈ q.txStackSets (q.laneConfig.getLane s.top), q.comparator.rank y = q.comparator.rank s ∧
          q.Changes q' [y] []) ∨
        ((∀ y ∈ q.txStackSets (q.laneConfig.getLane s.top), q.comparator.rank y ≠ q.comparator.rank s) ∧
          q' = q)) := by
  have hret : SortedList.ReturnsWith q.comparator.compare q.comparator.precedes s
      (q.txStackSets (q.laneConfig.getLane s.top)) :=
    q.comparator.returnsWith_compare ⟨hs, hsfee⟩ fun y hy => hq.top_comparable hfee (mem_allStacks.mpr ⟨_, hy⟩)
  have hfind := SortedList.findByM_eq_ok hret
  have hagree : SortedList.AgreesWith q.comparator.rank q.comparator.precedes s
      (q.txStackSets (q.laneConfig.getLane s.top)) :=
    agreesWith_of_not_isGreater hg
  by_cases hfound : ∃ y ∈ q.txStackSets (q.laneConfig.getLane s.top), q.comparator.rank y = q.comparator.rank s
  · obtain ⟨y, hy, hrank⟩ := hfound
    obtain ⟨i, hi⟩ := List.mem_iff_getElem?.mp hy
    obtain ⟨q', heq, hchanges⟩ := hq.eraseAt hi
    refine ⟨q', ?_, .inl ⟨y, hy, hrank, hchanges⟩⟩
    rw [erase_eq_of_findByM hfind, SortedList.findBy_eq_some (hq.sorted _) hagree hi hrank]
    exact heq
  · simp only [not_exists, not_and] at hfound
    refine ⟨q, ?_, .inr ⟨hfound, rfl⟩⟩
    rw [erase_eq_of_findByM hfind, SortedList.findBy_eq_none hagree hfound]
    rfl

theorem add_add_sampleStack_create {q : SurgePricingPriorityQueue ℕ 2 1}
    (h : ((create false sampleLaneConfig 3).add (sampleStack 3 0 7) >>= fun q => q.add (sampleStack 5 0 8)) = .ok q) :
    q.Wf ∧ q.FeeBidsNonneg ∧ q.comparator.isGreater = false ∧ q.laneConfig = sampleLaneConfig := by
  obtain ⟨q₁, h₁, h⟩ := Except.bind_eq_ok.mp h
  obtain ⟨hq₁, hfee₁, haddr₁⟩ := add_sampleStack_create (by decide) h₁
  have hc₁ := (wf_create false sampleLaneConfig 3).add (sampleStack_ok 3 0 7)
    (by simp [allTxs, allStacks_create, sampleStack, sampleTx, TxStack.txs]) h₁
  have hfresh : (((sampleStack 5 0 8).txs ++ q₁.allTxs).map TxFrame.address).Nodup := by
    rw [List.map_append]
    exact (haddr₁.append_left _).nodup_iff.mpr (by decide)
  have hc := hq₁.add (sampleStack_ok 5 0 8) hfresh h
  refine ⟨hc.wf, hc.feeBidsNonneg hfee₁ (by simpa using sampleStack_feeBidsNonneg (by decide) 0 8), ?_, ?_⟩
  · rw [hc.comparator, hc₁.comparator]
    rfl
  · rw [hc.laneConfig, hc₁.laneConfig]
    rfl

/-- Erasing the second of two stacks of one lane of a lowest-priority queue meets what `erase`
needs; the search compares it with the first. -/
theorem erase_of_not_isGreater_second : ∃ (q : SurgePricingPriorityQueue ℕ 2 1) (s : TxStack ℕ 1),
    ((create false sampleLaneConfig 3).add (sampleStack 3 0 7) >>= fun q => q.add (sampleStack 5 0 8)) = .ok q ∧
    s = sampleStack 5 0 8 ∧
    q.Wf ∧ q.FeeBidsNonneg ∧ q.comparator.isGreater = false ∧ 0 < s.top.numOperations ∧ 0 ≤ s.top.inclusionFee ∧
    ∃ q', q.erase s = .ok q' ∧
      ((∃ y ∈ q.txStackSets (q.laneConfig.getLane s.top), q.comparator.rank y = q.comparator.rank s ∧
          q.Changes q' [y] []) ∨
        ((∀ y ∈ q.txStackSets (q.laneConfig.getLane s.top), q.comparator.rank y ≠ q.comparator.rank s) ∧
          q' = q)) := by
  obtain ⟨q, h⟩ : ∃ q, ((create false sampleLaneConfig 3).add (sampleStack 3 0 7) >>= fun q =>
      q.add (sampleStack 5 0 8)) = .ok q := ⟨_, rfl⟩
  obtain ⟨hq, hfee, hg, -⟩ := add_add_sampleStack_create h
  exact ⟨q, _, h, rfl, hq, hfee, hg, by decide, by decide,
    hq.erase_of_not_isGreater hfee hg (by decide) (by decide)⟩

theorem Wf.erase_changes (hq : q.Wf) {s : TxStack A n} {q' : SurgePricingPriorityQueue A L n}
    (h : q.erase s = .ok q') : q' = q ∨ ∃ y, q.Changes q' [y] [] := by
  cases hfind : SortedList.findByM q.comparator.compare s (q.txStackSets (q.laneConfig.getLane s.top)) with
  | error e =>
    simp only [SurgePricingPriorityQueue.erase, hfind] at h
    cases h
  | ok r =>
    rw [erase_eq_of_findByM hfind] at h
    cases r with
    | some b =>
      obtain ⟨pos, y⟩ := b
      obtain ⟨q'', heq, hc⟩ := hq.eraseAt (SortedList.getElem?_findByM hfind)
      change q.eraseAt (q.laneConfig.getLane s.top) y pos = .ok q' at h
      rw [heq] at h
      cases h
      exact .inr ⟨y, hc⟩
    | none =>
      cases h
      exact .inl rfl

/-! ## Iterators over the queue -/

variable (q) in
def IterOk (iters : List (LaneIter A L n)) : Prop :=
  ∀ it ∈ iters, it.elems <:+ q.txStackSets it.lane

theorem IterOk.sublist {iters iters' : List (LaneIter A L n)} (h : q.IterOk iters) (hsub : iters'.Sublist iters) :
    q.IterOk iters' :=
  fun it hit => h it (hsub.subset hit)

theorem getElem?_iterPos {it : LaneIter A L n} (h : it.elems <:+ q.txStackSets it.lane) :
    (q.txStackSets it.lane)[q.iterPos it]? = some it.current := by
  obtain ⟨pre, hpre⟩ := h
  have hpos : q.iterPos it = pre.length := by
    rw [iterPos, ← hpre, List.length_append]
    omega
  rw [hpos, ← hpre, List.getElem?_append_right le_rfl, Nat.sub_self]
  rfl

theorem mem_getTop {it : LaneIter A L n} (h : it ∈ q.getTop) : it.elems = q.txStackSets it.lane := by
  unfold getTop at h
  obtain ⟨lane, -, hlane⟩ := List.mem_filterMap.mp h
  split at hlane
  · cases hlane
  · rename_i s following hset
    cases hlane
    simp [MultiwayMerge.Cursor.elems, hset]

theorem iterOk_getTop : q.IterOk q.getTop :=
  fun _ hit => (mem_getTop hit).symm ▸ List.suffix_refl _

theorem elems_getTop : MultiwayMerge.elems q.getTop = q.allStacks := by
  unfold getTop allStacks MultiwayMerge.elems
  induction List.finRange L with
  | nil => rfl
  | cons lane ls ih =>
    rw [List.filterMap_cons, List.flatMap_cons]
    cases h : q.txStackSets lane with
    | nil => simpa [h] using ih
    | cons s following => simp [ih, MultiwayMerge.Cursor.elems]

theorem IterOk.stack_mem {iters : List (LaneIter A L n)} (hit : q.IterOk iters) {x : TxStack A n}
    (hx : x ∈ MultiwayMerge.elems iters) : x ∈ q.allStacks := by
  obtain ⟨it, hit', hx'⟩ := List.mem_flatMap.mp hx
  exact mem_allStacks.mpr ⟨it.lane, (hit it hit').subset hx'⟩

theorem Wf.returnsOn (hq : q.Wf) (hfee : q.FeeBidsNonneg) {iters : List (LaneIter A L n)} (hit : q.IterOk iters) :
    MultiwayMerge.ReturnsOn q.comparator.compare q.comparator.precedes (MultiwayMerge.elems iters) :=
  q.comparator.returnsOn_compare fun _ hy => hq.top_comparable hfee (hit.stack_mem hy)

theorem Iterator.getMutableInnerIter_eq {c : TxStackComparator} {iters : List (LaneIter A L n)}
    {b : ℕ × LaneIter A L n} (hret : MultiwayMerge.ReturnsOn c.compare c.precedes (MultiwayMerge.elems iters))
    (h : MultiwayMerge.best c.precedes iters = some b) : Iterator.getMutableInnerIter c iters = .ok b := by
  simp only [Iterator.getMutableInnerIter, MultiwayMerge.bestM_eq_ok hret, Except.ok_bind, h]
  rfl

theorem Iterator.getElem?_getMutableInnerIter {c : TxStackComparator} {iters : List (LaneIter A L n)} {i : ℕ}
    {it : LaneIter A L n} (h : Iterator.getMutableInnerIter c iters = .ok (i, it)) : iters[i]? = some it := by
  unfold Iterator.getMutableInnerIter at h
  obtain ⟨r, hr, h⟩ := Except.bind_eq_ok.mp h
  split at h
  · cases Except.pure_eq_ok.mp h
    exact MultiwayMerge.getElem?_bestM hr
  · cases h

theorem Iterator.advance_eq {c : TxStackComparator} {iters : List (LaneIter A L n)} {i : ℕ} {it : LaneIter A L n}
    (hget : Iterator.getMutableInnerIter c iters = .ok (i, it)) :
    Iterator.advance c iters = .ok (MultiwayMerge.advanceAt iters i it) := by
  simp only [Iterator.advance, hget, Except.ok_bind]
  rfl

theorem Iterator.dropLane_eq {c : TxStackComparator} {iters : List (LaneIter A L n)} {i : ℕ} {it : LaneIter A L n}
    (hget : Iterator.getMutableInnerIter c iters = .ok (i, it)) :
    Iterator.dropLane c iters = .ok (iters.eraseIdx i) := by
  simp only [Iterator.dropLane, hget, Except.ok_bind]
  rfl

theorem IterOk.current_mem {iters : List (LaneIter A L n)} (hit : q.IterOk iters) {i : ℕ} {it : LaneIter A L n}
    (hget : Iterator.getMutableInnerIter q.comparator iters = .ok (i, it)) : it.current ∈ q.txStackSets it.lane :=
  (hit it (List.mem_of_getElem? (Iterator.getElem?_getMutableInnerIter hget))).subset List.mem_cons_self

theorem Wf.eraseIter (hq : q.Wf) {iters : List (LaneIter A L n)} (hit : q.IterOk iters) {i : ℕ}
    {it : LaneIter A L n} (hget : Iterator.getMutableInnerIter q.comparator iters = .ok (i, it)) :
    ∃ q', q.eraseIter iters = .ok q' ∧ q.Changes q' [it.current] [] := by
  have hmem := List.mem_of_getElem? (Iterator.getElem?_getMutableInnerIter hget)
  obtain ⟨q', heq, hchanges⟩ := hq.eraseAt (getElem?_iterPos (hit it hmem))
  refine ⟨q', ?_, hchanges⟩
  simp only [SurgePricingPriorityQueue.eraseIter, hget, Except.ok_bind, heq]

/-! ## Changes compose -/

theorem Changes.trans {q₁ q₂ : SurgePricingPriorityQueue A L n} {x₁ y₁ x₂ y₂ : List (TxStack A n)}
    (h₁ : q.Changes q₁ x₁ y₁) (h₂ : q₁.Changes q₂ x₂ y₂) : q.Changes q₂ (x₁ ++ x₂) (y₁ ++ y₂) := by
  refine ⟨h₂.wf, ?_, h₂.comparator.trans h₁.comparator, h₂.laneConfig.trans h₁.laneConfig⟩
  have h2 : (x₁ ++ x₂ ++ q₂.allStacks).Perm (x₁ ++ (y₂ ++ q₁.allStacks)) := by
    rw [List.append_assoc]
    exact h₂.perm.append_left x₁
  have h3 : (x₁ ++ (y₂ ++ q₁.allStacks)).Perm (y₂ ++ (y₁ ++ q.allStacks)) :=
    (List.perm_append_comm_assoc x₁ y₂ q₁.allStacks).trans (h₁.perm.append_left y₂)
  have h4 : (y₂ ++ (y₁ ++ q.allStacks)).Perm (y₁ ++ y₂ ++ q.allStacks) := by
    rw [List.append_assoc]
    exact List.perm_append_comm_assoc y₂ y₁ q.allStacks
  exact h2.trans (h3.trans h4)

theorem Changes.sum_eq {q' : SurgePricingPriorityQueue A L n} {x y : List (TxStack A n)} (h : q.Changes q' x y) :
    (x.map TxStack.getResources).sum + (q'.allStacks.map TxStack.getResources).sum =
      (y.map TxStack.getResources).sum + (q.allStacks.map TxStack.getResources).sum := by
  simpa using (h.perm.map TxStack.getResources).sum_eq

theorem Changes.txCount_eq {q' : SurgePricingPriorityQueue A L n} {x y : List (TxStack A n)} (h : q.Changes q' x y) :
    (x.map fun s => s.txs.length).sum + q'.txCount = (y.map fun s => s.txs.length).sum + q.txCount := by
  simpa [txCount] using (h.perm.map fun s => s.txs.length).sum_eq

theorem Wf.getResources_nonneg (hq : q.Wf) : ∀ r ∈ q.allStacks.map TxStack.getResources, 0 ≤ r := by
  intro r hr
  obtain ⟨s, hs, rfl⟩ := List.mem_map.mp hr
  exact (hq.stack_ok s hs).getResources_nonneg

theorem Wf.count_le_sum (hq : q.Wf) (lane : Fin L) :
    q.laneCurrentCount lane ≤ (q.allStacks.map TxStack.getResources).sum := by
  have hperm := (IndexedLists.perm_flatMap_erase (List.mem_finRange lane) q.txStackSets).map TxStack.getResources
  rw [hq.count_eq, allStacks, hperm.sum_eq, List.map_append, List.sum_append]
  apply le_add_of_nonneg_right
  apply List.sum_nonneg
  intro r hr
  obtain ⟨s, hs, rfl⟩ := List.mem_map.mp hr
  obtain ⟨l, -, hsl⟩ := List.mem_flatMap.mp hs
  exact (hq.stack_ok_of_mem hsl).getResources_nonneg

theorem Changes.bounded {q' : SurgePricingPriorityQueue A L n} {x y : List (TxStack A n)} (h : q.Changes q' x y)
    (hb : q.Bounded) (hle : (y.map TxStack.getResources).sum ≤ (x.map TxStack.getResources).sum) : q'.Bounded := by
  have h' : (x.map TxStack.getResources).sum + (q'.allStacks.map TxStack.getResources).sum ≤
      (x.map TxStack.getResources).sum + (q.allStacks.map TxStack.getResources).sum := by
    rw [h.sum_eq, add_comm (y.map TxStack.getResources).sum, add_comm (x.map TxStack.getResources).sum]
    exact add_le_add le_rfl hle
  exact (le_of_add_le_add_left h').trans hb

theorem Wf.fresh_of_popTopTx (hq : q.Wf) {q₁ : SurgePricingPriorityQueue A L n} {s s' : TxStack A n}
    (hc : q.Changes q₁ [s] []) (hpop : s.popTopTx = some s') :
    ((s'.txs ++ q₁.allTxs).map TxFrame.address).Nodup := by
  obtain ⟨htxs, -⟩ := TxStack.popTopTx_eq_some hpop
  have hn := ((allTxs_perm hc.perm).map TxFrame.address).nodup_iff.mpr (by simpa using hq.addresses_nodup)
  simp only [List.flatMap_cons, List.flatMap_nil, List.append_nil, htxs, List.map_append, List.map_cons,
    List.cons_append] at hn
  rw [List.map_append]
  exact (List.nodup_cons.mp hn).2

theorem Wf.popTopTx_changes (hq : q.Wf) {iters : List (LaneIter A L n)} (hit : q.IterOk iters) {i : ℕ}
    {it : LaneIter A L n} (hget : Iterator.getMutableInnerIter q.comparator iters = .ok (i, it))
    {q' : SurgePricingPriorityQueue A L n} (h : q.popTopTx iters = .ok q') :
    q.Changes q' [it.current] it.current.popTopTx.toList := by
  obtain ⟨q₁, h₁, hc₁⟩ := hq.eraseIter hit hget
  have hcur : it.current.Ok := hq.stack_ok_of_mem (hit.current_mem hget)
  simp only [SurgePricingPriorityQueue.popTopTx, hget, Except.ok_bind, h₁] at h
  cases hpop : it.current.popTopTx with
  | none =>
    rw [hpop] at h
    cases h
    simpa using hc₁
  | some s' =>
    rw [hpop] at h
    simpa using hc₁.trans (hc₁.wf.add (hcur.popTopTx hpop).1 (hq.fresh_of_popTopTx hc₁ hpop) h)

theorem Wf.popTopTx (hq : q.Wf) (hb : q.Bounded) (hfee : q.FeeBidsNonneg) {iters : List (LaneIter A L n)}
    (hit : q.IterOk iters) {i : ℕ} {it : LaneIter A L n}
    (hget : Iterator.getMutableInnerIter q.comparator iters = .ok (i, it)) :
    ∃ q', q.popTopTx iters = .ok q' ∧ q.Changes q' [it.current] it.current.popTopTx.toList := by
  suffices h : ∃ q', q.popTopTx iters = .ok q' from h.imp fun _ h' => ⟨h', hq.popTopTx_changes hit hget h'⟩
  obtain ⟨q₁, h₁, hc₁⟩ := hq.eraseIter hit hget
  have hcur : it.current.Ok := hq.stack_ok_of_mem (hit.current_mem hget)
  have hcurfee : it.current.FeeBidsNonneg := hfee _ (mem_allStacks.mpr ⟨_, hit.current_mem hget⟩)
  simp only [SurgePricingPriorityQueue.popTopTx, hget, Except.ok_bind, h₁]
  cases hpop : it.current.popTopTx with
  | none => exact ⟨q₁, rfl⟩
  | some s' =>
    obtain ⟨hs'ok, hs'le⟩ := hcur.popTopTx hpop
    have hbound : q₁.laneCurrentCount (q₁.laneConfig.getLane s'.top) + s'.getResources ≤ fun _ => INT64_MAX := by
      have hsum : it.current.getResources + (q₁.allStacks.map TxStack.getResources).sum =
          (q.allStacks.map TxStack.getResources).sum := by simpa using hc₁.sum_eq
      calc _ ≤ (q₁.allStacks.map TxStack.getResources).sum + it.current.getResources :=
            add_le_add (hc₁.wf.count_le_sum _) hs'le
        _ = (q.allStacks.map TxStack.getResources).sum := by rw [add_comm, hsum]
        _ ≤ _ := hb
    have hadd := hc₁.wf.add_eq (hc₁.feeBidsNonneg hfee (by simp)) hs'ok (hcurfee.popTopTx hpop)
      (hq.fresh_of_popTopTx hc₁ hpop)
    rw [Resource.add_eq_ok hbound, Except.ok_bind] at hadd
    exact ⟨_, hadd⟩

theorem Wf.visitRemoves (hq : q.Wf) (hb : q.Bounded) (hfee : q.FeeBidsNonneg) {currIt : List (LaneIter A L n)}
    (hit : q.IterOk currIt) {i : ℕ} {it : LaneIter A L n}
    (hget : Iterator.getMutableInnerIter q.comparator currIt = .ok (i, it)) (r : VisitTxStackResult) :
    ∃ q', (if r = .txStackSkipped then q.eraseIter currIt else q.popTopTx currIt) = .ok q' ∧
      q'.Wf ∧ q'.Bounded ∧ q'.FeeBidsNonneg ∧ q'.txCount < q.txCount ∧ q'.laneConfig = q.laneConfig := by
  have hcur : it.current.Ok := hq.stack_ok_of_mem (hit.current_mem hget)
  have hcurfee : it.current.FeeBidsNonneg := hfee _ (mem_allStacks.mpr ⟨_, hit.current_mem hget⟩)
  have hlen : 0 < it.current.txs.length := by simp [TxStack.txs]
  split
  · obtain ⟨q', h', hc⟩ := hq.eraseIter hit hget
    have hcount := hc.txCount_eq
    simp only [List.map_cons, List.map_nil, List.sum_cons, List.sum_nil, add_zero, zero_add] at hcount
    exact ⟨q', h', hc.wf, hc.bounded hb (by simpa using hcur.getResources_nonneg), hc.feeBidsNonneg hfee (by simp),
      by omega, hc.laneConfig⟩
  · obtain ⟨q', h', hc⟩ := hq.popTopTx hb hfee hit hget
    have hcount := hc.txCount_eq
    have hpopfee : ∀ s ∈ it.current.popTopTx.toList, s.FeeBidsNonneg := by
      intro s hs
      rw [Option.mem_toList] at hs
      exact hcurfee.popTopTx hs
    refine ⟨q', h', hc.wf, hc.bounded hb ?_, hc.feeBidsNonneg hfee hpopfee, ?_, hc.laneConfig⟩
    · cases hpop : it.current.popTopTx with
      | none => simpa using hcur.getResources_nonneg
      | some s' => simpa using (hcur.popTopTx hpop).2
    · cases hpop : it.current.popTopTx with
      | none =>
        simp only [hpop, Option.toList_none, List.map_cons, List.map_nil, List.sum_cons, List.sum_nil, add_zero,
          zero_add] at hcount
        omega
      | some s' =>
        have htxs := (TxStack.popTopTx_eq_some hpop).1
        simp only [hpop, Option.toList_some, List.map_cons, List.map_nil, List.sum_cons, List.sum_nil, add_zero,
          htxs, List.length_cons] at hcount
        omega

theorem Wf.wf_of_visit_eq_ok (hq : q.Wf) {currIt : List (LaneIter A L n)} (hit : q.IterOk currIt) {i : ℕ}
    {it : LaneIter A L n} (hget : Iterator.getMutableInnerIter q.comparator currIt = .ok (i, it))
    {r : VisitTxStackResult} {q' : SurgePricingPriorityQueue A L n}
    (h : (if r = .txStackSkipped then q.eraseIter currIt else q.popTopTx currIt) = .ok q') :
    q'.Wf ∧ q'.laneConfig = q.laneConfig := by
  split at h
  · obtain ⟨q₁, h₁, hc⟩ := hq.eraseIter hit hget
    rw [h₁] at h
    cases h
    exact ⟨hc.wf, hc.laneConfig⟩
  · have hc := hq.popTopTx_changes hit hget h
    exact ⟨hc.wf, hc.laneConfig⟩

theorem Changes.refl (hq : q.Wf) : q.Changes q [] [] := ⟨hq, List.Perm.refl _, rfl, rfl⟩

theorem Wf.foldlM_add (hq : q.Wf) (hfee : q.FeeBidsNonneg) {txStacks : List (TxStack A n)}
    (hok : ∀ s ∈ txStacks, s.Ok) (hokfee : ∀ s ∈ txStacks, s.FeeBidsNonneg)
    (hfresh : ((txStacks.flatMap TxStack.txs ++ q.allTxs).map TxFrame.address).Nodup)
    (hbound : ((txStacks ++ q.allStacks).map TxStack.getResources).sum ≤ fun _ => INT64_MAX) :
    ∃ q', txStacks.foldlM (fun queue txStack => queue.add txStack) q = .ok q' ∧ q.Changes q' [] txStacks ∧
      q'.Bounded ∧ q'.FeeBidsNonneg := by
  induction txStacks generalizing q with
  | nil => exact ⟨q, rfl, Changes.refl hq, by simpa [Bounded] using hbound, hfee⟩
  | cons s rest ih =>
    have hs := hok s List.mem_cons_self
    have hsfee := hokfee s List.mem_cons_self
    have hfresh₁ : ((s.txs ++ q.allTxs).map TxFrame.address).Nodup := by
      apply List.Nodup.sublist _ hfresh
      simp only [List.flatMap_cons, List.map_append, List.append_assoc]
      exact ((List.sublist_append_right _ _).append_left _)
    -- the stack's lane count and its resources are within those of everything added
    have hle : q.laneCurrentCount (q.laneConfig.getLane s.top) + s.getResources ≤ fun _ => INT64_MAX := by
      refine le_trans ?_ hbound
      simp only [List.cons_append, List.map_cons, List.sum_cons, List.map_append, List.sum_append]
      rw [add_comm]
      refine add_le_add le_rfl ?_
      refine (hq.count_le_sum _).trans (le_add_of_nonneg_left ?_)
      apply List.sum_nonneg
      intro r hr
      obtain ⟨y, hy, rfl⟩ := List.mem_map.mp hr
      exact (hok y (List.mem_cons_of_mem _ hy)).getResources_nonneg
    have hadd := hq.add_eq hfee hs hsfee hfresh₁
    rw [Resource.add_eq_ok hle, Except.ok_bind] at hadd
    obtain ⟨q₁, hadd₁⟩ : ∃ q₁, q.add s = .ok q₁ := ⟨_, hadd⟩
    have hc₁ := hq.add hs hfresh₁ hadd₁
    have htxs₁ : q₁.allTxs.Perm (s.txs ++ q.allTxs) := by simpa using allTxs_perm hc₁.perm
    have hstacks₁ : q₁.allStacks.Perm (s :: q.allStacks) := by simpa using hc₁.perm
    -- what is left to add is still fresh and within bounds in the queue with `s`
    have hfresh' : ((rest.flatMap TxStack.txs ++ q₁.allTxs).map TxFrame.address).Nodup := by
      have hperm : (rest.flatMap TxStack.txs ++ q₁.allTxs).Perm ((s :: rest).flatMap TxStack.txs ++ q.allTxs) := by
        rw [List.flatMap_cons, List.append_assoc]
        exact (htxs₁.append_left _).trans (List.perm_append_comm_assoc _ _ _)
      exact (hperm.map TxFrame.address).nodup_iff.mpr hfresh
    have hbound' : ((rest ++ q₁.allStacks).map TxStack.getResources).sum ≤ fun _ => INT64_MAX := by
      have hperm : (rest ++ q₁.allStacks).Perm (s :: rest ++ q.allStacks) :=
        (hstacks₁.append_left rest).trans List.perm_middle
      rwa [(hperm.map _).sum_eq]
    obtain ⟨q', h', hc', hb', hfee'⟩ := ih hc₁.wf (hc₁.feeBidsNonneg hfee (by simpa using hsfee))
      (fun y hy => hok y (List.mem_cons_of_mem _ hy)) (fun y hy => hokfee y (List.mem_cons_of_mem _ hy)) hfresh'
      hbound'
    refine ⟨q', ?_, by simpa using hc₁.trans hc', hb', hfee'⟩
    rw [List.foldlM_cons, hadd₁]
    exact h'

/-! ## The order of an iteration -/

theorem map_top_sublist_flatMap_txs (l : List (TxStack A n)) :
    (l.map TxStack.top).Sublist (l.flatMap TxStack.txs) := by
  induction l with
  | nil => exact List.Sublist.slnil
  | cons s l ih => exact (ih.trans (List.sublist_append_right _ _)).cons_cons s.top

theorem Wf.rank_nodup (hq : q.Wf) : (q.allStacks.map q.comparator.rank).Nodup := by
  have htops : ((q.allStacks.map TxStack.top).map TxFrame.address).Nodup :=
    List.Nodup.sublist ((map_top_sublist_flatMap_txs _).map _) hq.addresses_nodup
  rw [List.map_map, List.Nodup, List.pairwise_map] at htops
  rw [List.Nodup, List.pairwise_map]
  exact htops.imp q.comparator.rank_ne_of_address_ne

/-- The stacks an iteration yields in at most `fuel` steps: the one `getMutableInnerIter` points at,
then, after `advance`, the rest, until `isEnd()`. -/
def Iterator.visit (c : TxStackComparator) : ℕ → List (LaneIter A L n) → Except String (List (TxStack A n))
  | 0, _ => pure []
  | _ + 1, [] => pure []
  | fuel + 1, iters@(_ :: _) => do
    let (_, it) ← Iterator.getMutableInnerIter c iters
    let rest ← Iterator.visit c fuel (← Iterator.advance c iters)
    pure (it.current :: rest)

theorem Iterator.visit_eq {c : TxStackComparator} :
    ∀ (fuel : ℕ) (iters : List (LaneIter A L n)),
      MultiwayMerge.ReturnsOn c.compare c.precedes (MultiwayMerge.elems iters) →
      Iterator.visit c fuel iters = .ok (MultiwayMerge.visit c.precedes fuel iters)
  | 0, _, _ => rfl
  | _ + 1, [], _ => rfl
  | fuel + 1, it₀ :: its, hret => by
    obtain ⟨⟨i, it⟩, hbest⟩ : ∃ b, MultiwayMerge.best c.precedes (it₀ :: its) = some b := ⟨_, rfl⟩
    have hget := Iterator.getMutableInnerIter_eq hret hbest
    -- the lane iterators left after `advance` hold fewer of the same stacks
    have hadv : MultiwayMerge.advanceAt (it₀ :: its) i it = MultiwayMerge.advance c.precedes (it₀ :: its) := by
      simp only [MultiwayMerge.advance, hbest]
    have hret' : MultiwayMerge.ReturnsOn c.compare c.precedes
        (MultiwayMerge.elems (MultiwayMerge.advanceAt (it₀ :: its) i it)) :=
      hret.mono fun _ hx => MultiwayMerge.mem_elems_of_mem_advance (hadv ▸ hx)
    simp only [Iterator.visit, hget, Iterator.advance_eq hget, Except.ok_bind, Iterator.visit_eq fuel _ hret']
    simp only [MultiwayMerge.visit, hbest, ← hadv]
    rfl

/-- Iterating over a well-formed queue of non-negative bids from `getTop`, advancing after each
stack until the end, never throws and visits every stack of the queue exactly once, in increasing
order of the rank: the merge of the lanes by the comparator is the order of the whole queue. -/
theorem Wf.visit_getTop (hq : q.Wf) (hfee : q.FeeBidsNonneg) :
    ∃ visited, Iterator.visit q.comparator q.allStacks.length q.getTop = .ok visited ∧
      visited.Perm q.allStacks ∧ SortedList.Sorted q.comparator.rank visited := by
  -- between stacks of the queue the comparator's order is the order of the ranks
  have hagrees : MultiwayMerge.Agrees q.comparator.precedes q.comparator.rank (MultiwayMerge.elems q.getTop) :=
    fun _ _ _ _ hne => q.comparator.precedes_eq_true_iff hne
  have hsorted : MultiwayMerge.LanesSorted q.comparator.rank q.getTop := fun it hit =>
    (mem_getTop hit) ▸ hq.sorted it.lane
  have hperm : (MultiwayMerge.visit q.comparator.precedes q.allStacks.length q.getTop).Perm
      (MultiwayMerge.elems q.getTop) :=
    MultiwayMerge.visit_perm (by rw [elems_getTop])
  rw [elems_getTop] at hperm
  refine ⟨_, Iterator.visit_eq _ _ (hq.returnsOn hfee iterOk_getTop), hperm, ?_⟩
  exact MultiwayMerge.visit_sorted _ hagrees hsorted (elems_getTop ▸ hq.rank_nodup)

/-- A lowest-priority queue of two lanes holding a stack in each is iterated in rank order. -/
theorem visit_getTop_two : ∃ q : SurgePricingPriorityQueue ℕ 2 1,
    ([sampleStack 3 0 7, sampleStack 5 1 8] : List (TxStack ℕ 1)).foldlM (fun queue txStack => queue.add txStack)
      (create false sampleLaneConfig 3) = .ok q ∧
    q.Wf ∧ q.FeeBidsNonneg ∧
    ∃ visited, Iterator.visit q.comparator q.allStacks.length q.getTop = .ok visited ∧
      visited.Perm q.allStacks ∧ SortedList.Sorted q.comparator.rank visited := by
  have hok : ∀ s ∈ ([sampleStack 3 0 7, sampleStack 5 1 8] : List (TxStack ℕ 1)), s.Ok := by
    simp [sampleStack_ok]
  have hokfee : ∀ s ∈ ([sampleStack 3 0 7, sampleStack 5 1 8] : List (TxStack ℕ 1)), s.FeeBidsNonneg := by
    simp [sampleStack_feeBidsNonneg]
  obtain ⟨q, h, hc, -, hfee⟩ := (wf_create (L := 2) false sampleLaneConfig 3).foldlM_add
    (feeBidsNonneg_create _ _ _) hok hokfee
    (by simp [allTxs, allStacks_create, sampleStack, sampleTx, TxStack.txs])
    (fun _ => by simp [allStacks_create, sampleStack, TxStack.getResources, INT64_MAX])
  exact ⟨q, h, hc.wf, hfee, hc.wf.visit_getTop hfee⟩

end SurgePricingPriorityQueue

end HcnetCore.Herder
