import HcnetCore.Herder.SurgePricingQueue

/-! # Popping the best transactions within the lane limits

`popTopTxs` repeatedly looks, from the top of the queue, for the best stack whose top
transaction fits what is left under its lane's limit and the generic one, visits it, takes its
resources from those limits when the visitor processed it, and pops or erases it. On a
well-formed queue whose resources add up within `INT64_MAX`, every round passes its assertions
and takes at least one transaction out of the queue, so the fuel of `popTopTxs` always suffices.
What the loop takes from the limits is exactly what the visitor processed: for any account of
the visitor's state that grows by a transaction's resources, in the generic lane and in its own,
when the visitor processes it, the resources left and the account add up to the same throughout.
-/

namespace HcnetCore.Herder

set_option autoImplicit false

variable {A : Type} {L n : ℕ} [NeZero L]

/-- What processing a transaction of lane `lane` takes from the limits: its resources, from the
generic lane and from its own. -/
def taken (lane : Fin L) (res : Resource n) : Fin L → Resource n :=
  fun l => if l = GENERIC_LANE ∨ l = lane then res else 0

theorem takeLaneResources_eq {laneLeft : Fin L → Resource n} {lane : Fin L} {res : Resource n}
    (hG : res ≤ laneLeft GENERIC_LANE) (hl : res ≤ laneLeft lane) :
    takeLaneResources laneLeft lane res = .ok (laneLeft - taken lane res) := by
  unfold takeLaneResources
  rw [Resource.sub_eq_ok hG, Except.ok_bind]
  dsimp only
  split
  case isTrue hne =>
    rw [Function.update_of_ne hne, Resource.sub_eq_ok hl, Except.ok_bind, Except.pure_eq_ok]
    funext l
    by_cases hlane : l = lane
    · subst hlane
      simp [taken, hne]
    · by_cases hg : l = GENERIC_LANE
      · subst hg
        simp [taken, Function.update_of_ne hlane]
      · simp [taken, hlane, hg, Function.update_of_ne]
  case isFalse heq =>
    rw [Except.pure_eq_ok]
    funext l
    rw [not_not] at heq
    subst heq
    by_cases hg : l = GENERIC_LANE
    · subst hg
      simp [taken]
    · simp [taken, hg, Function.update_of_ne]

theorem takeLaneResources_ite {laneLeft : Fin L → Resource n} {lane : Fin L} {res : Resource n}
    (hG : res ≤ laneLeft GENERIC_LANE) (hl : res ≤ laneLeft lane) (r : VisitTxStackResult) :
    (if r = .txProcessed then takeLaneResources laneLeft lane res else pure laneLeft) =
      .ok (laneLeft - if r = .txProcessed then taken lane res else 0) := by
  split
  · exact takeLaneResources_eq hG hl
  · simp only [sub_zero]
    rfl

theorem sub_taken_nonneg {laneLeft : Fin L → Resource n} {lane : Fin L} {res : Resource n} (h0 : 0 ≤ laneLeft)
    (hG : res ≤ laneLeft GENERIC_LANE) (hl : res ≤ laneLeft lane) (r : VisitTxStackResult) :
    0 ≤ laneLeft - if r = .txProcessed then taken lane res else 0 := by
  intro l
  split
  · simp only [Pi.sub_apply, Pi.zero_apply, taken]
    split
    case isTrue hl' =>
      rcases hl' with rfl | rfl
      · exact sub_nonneg.mpr hG
      · exact sub_nonneg.mpr hl
    case isFalse => simpa using h0 l
  · simpa using h0 l

namespace SurgePricingPriorityQueue

variable {q : SurgePricingPriorityQueue A L n}

variable (q) in
/-- What the search of `popTopTxs` can end with on a well-formed queue: a stack erased, nothing
more to pop, or an iterator at a stack whose top transaction fits what is left. -/
def TopSearchOk (laneLeftUntilLimit : Fin L → Resource n) : TopSearch A L n → Prop
  | .gapSkipped q' _ => ∃ s, q.Changes q' [s] []
  | .stop => True
  | .found currIt => q.IterOk currIt ∧ ∃ i it, Iterator.getMutableInnerIter q.comparator currIt = .ok (i, it) ∧
      q.laneConfig.getTxResources it.current.top ≤ laneLeftUntilLimit (q.laneConfig.getLane it.current.top) ∧
      q.laneConfig.getTxResources it.current.top ≤ laneLeftUntilLimit GENERIC_LANE

theorem Wf.findTop (hq : q.Wf) (hfee : q.FeeBidsNonneg) (allowGaps : Bool) (laneLeftUntilLimit : Fin L → Resource n)
    (hadTxNotFittingLane : Fin L → Bool) {fuel : ℕ} {currIt : List (LaneIter A L n)} (hit : q.IterOk currIt)
    (hfuel : currIt.length < fuel) :
    ∃ r, q.findTop allowGaps laneLeftUntilLimit hadTxNotFittingLane fuel currIt = .ok r ∧
      q.TopSearchOk laneLeftUntilLimit r := by
  induction fuel generalizing currIt with
  | zero => omega
  | succ fuel ih =>
    cases currIt with
    | nil => exact ⟨.stop, rfl, trivial⟩
    | cons it₀ its =>
      obtain ⟨⟨i, it⟩, hbest⟩ : ∃ b, MultiwayMerge.best q.comparator.precedes (it₀ :: its) = some b := ⟨_, rfl⟩
      have hget := Iterator.getMutableInnerIter_eq (hq.returnsOn hfee hit) hbest
      have hi : i < (it₀ :: its).length :=
        (List.getElem?_eq_some_iff.mp (Iterator.getElem?_getMutableInnerIter hget)).1
      simp only [SurgePricingPriorityQueue.findTop, hget, Except.ok_bind]
      split
      case isTrue hnofit =>
        split
        case isTrue =>
          -- with gaps allowed, the stack that does not fit is erased
          obtain ⟨q', h', hc⟩ := hq.eraseIter hit hget
          simp only [h', Except.ok_bind]
          exact ⟨_, rfl, _, hc⟩
        case isFalse =>
          split
          case isTrue =>
            -- its lane is dropped, and the search goes on over the others
            rw [Iterator.dropLane_eq hget, Except.ok_bind]
            apply ih (hit.sublist (List.eraseIdx_sublist _ _))
            rw [List.length_eraseIdx_of_lt hi]
            simp only [List.length_cons] at hfuel ⊢
            omega
          case isFalse => exact ⟨.stop, rfl, trivial⟩
      case isFalse hfit =>
        simp only [Bool.or_eq_true, Resource.anyGreater_eq_true, not_or, not_not] at hfit
        exact ⟨_, rfl, hit, i, it, hget, hfit.1, hfit.2⟩

theorem Wf.topSearchOk_of_findTop (hq : q.Wf) {allowGaps : Bool} {laneLeftUntilLimit : Fin L → Resource n}
    {hadTxNotFittingLane : Fin L → Bool} {fuel : ℕ} {currIt : List (LaneIter A L n)} (hit : q.IterOk currIt)
    {r : TopSearch A L n} (h : q.findTop allowGaps laneLeftUntilLimit hadTxNotFittingLane fuel currIt = .ok r) :
    q.TopSearchOk laneLeftUntilLimit r := by
  induction fuel generalizing currIt with
  | zero => cases h
  | succ fuel ih =>
    cases currIt with
    | nil =>
      cases h
      trivial
    | cons it₀ its =>
      simp only [SurgePricingPriorityQueue.findTop] at h
      obtain ⟨⟨i, it⟩, hget, h⟩ := Except.bind_eq_ok.mp h
      split at h
      case isTrue =>
        split at h
        case isTrue =>
          obtain ⟨q', h', hc⟩ := hq.eraseIter hit hget
          rw [h', Except.ok_bind] at h
          cases h
          exact ⟨_, hc⟩
        case isFalse =>
          split at h
          case isTrue =>
            rw [Iterator.dropLane_eq hget, Except.ok_bind] at h
            exact ih (hit.sublist (List.eraseIdx_sublist _ _)) h
          case isFalse =>
            cases h
            trivial
      case isFalse hfit =>
        simp only [Bool.or_eq_true, Resource.anyGreater_eq_true, not_or, not_not] at hfit
        cases h
        exact ⟨hit, i, it, hget, hfit.1, hfit.2⟩

/-- An account of a visitor's state: it grows by what a transaction takes from the limits when
the visitor processes it, and stays as it is otherwise. -/
def Accounts {σ : Type} (visitor : σ → TxStack A n → σ × VisitTxStackResult) (cfg : SurgePricingLaneConfig A L n)
    (w : σ → Fin L → Resource n) : Prop :=
  ∀ v s, w (visitor v s).1 =
    w v + if (visitor v s).2 = .txProcessed then taken (cfg.getLane s.top) (cfg.getTxResources s.top) else 0

theorem popTopTxsLoop_spec {σ : Type} (allowGaps : Bool) (visitor : σ → TxStack A n → σ × VisitTxStackResult)
    (cfg : SurgePricingLaneConfig A L n) :
    ∀ (fuel : ℕ) (st : PopState A L n σ), st.queue.Wf → st.queue.Bounded → st.queue.FeeBidsNonneg →
      st.queue.laneConfig = cfg → st.queue.txCount < fuel →
      ∃ st', popTopTxsLoop allowGaps visitor fuel st = .ok st' ∧ st'.queue.Wf ∧ st'.queue.laneConfig = cfg ∧
        (0 ≤ st.laneLeftUntilLimit → 0 ≤ st'.laneLeftUntilLimit) ∧
        ∀ w, Accounts visitor cfg w →
          st'.laneLeftUntilLimit + w st'.visitorState = st.laneLeftUntilLimit + w st.visitorState := by
  intro fuel
  induction fuel with
  | zero => exact fun _ _ _ _ _ h => absurd h (Nat.not_lt_zero _)
  | succ fuel ih =>
    intro st hq hb hfee hcfg hcount
    obtain ⟨r, hr, hrok⟩ := hq.findTop hfee allowGaps st.laneLeftUntilLimit st.hadTxNotFittingLane iterOk_getTop
      (Nat.lt_succ_self _)
    simp only [SurgePricingPriorityQueue.popTopTxsLoop, hr, Except.ok_bind]
    cases r with
    | gapSkipped q' had =>
      -- a stack that did not fit was erased: the limits and the visitor are as they were
      obtain ⟨s, hc⟩ := hrok
      have hs : s.Ok :=
        hq.stack_ok s (by simpa using hc.perm.subset (List.mem_append_left _ (List.mem_singleton_self s)))
      have hlen : 0 < s.txs.length := by simp [TxStack.txs]
      have hcount' := hc.txCount_eq
      simp only [List.map_cons, List.map_nil, List.sum_cons, List.sum_nil, add_zero, zero_add] at hcount'
      exact ih { st with queue := q', hadTxNotFittingLane := had } hc.wf
        (hc.bounded hb (by simpa using hs.getResources_nonneg)) (hc.feeBidsNonneg hfee (by simp))
        (hc.laneConfig.trans hcfg) (by dsimp only; omega)
    | stop => exact ⟨st, rfl, hq, hcfg, id, fun _ _ => rfl⟩
    | found currIt =>
      obtain ⟨hit, i, it, hget, hfitl, hfitG⟩ := hrok
      simp only [hget, Except.ok_bind]
      rcases hvis : visitor st.visitorState it.current with ⟨v', r'⟩
      obtain ⟨q', hq', hwf', hb', hfee', hlt, hcfg'⟩ := hq.visitRemoves hb hfee hit hget r'
      dsimp only
      rw [takeLaneResources_ite hfitG hfitl r', Except.ok_bind, hq', Except.ok_bind]
      obtain ⟨st', h', hwf'', hcfg'', hpos, heq⟩ := ih { st with
          queue := q', visitorState := v'
          laneLeftUntilLimit := st.laneLeftUntilLimit -
            if r' = .txProcessed then
              taken (st.queue.laneConfig.getLane it.current.top) (st.queue.laneConfig.getTxResources it.current.top)
            else 0 }
        hwf' hb' hfee' (hcfg'.trans hcfg) (by dsimp only; omega)
      refine ⟨st', h', hwf'', hcfg'', fun h0 => hpos (sub_taken_nonneg h0 hfitG hfitl r'), fun w hw => ?_⟩
      -- the visitor's account grows by what the limits lose
      have hw' := hw st.visitorState it.current
      rw [hvis] at hw'
      rw [heq w hw, hw', ← hcfg]
      dsimp only
      abel

/-- `popTopTxs`, for every visitor and either way of treating gaps, passes all its assertions and
finishes within its fuel on a well-formed queue of non-negative fee bids whose resources add up
within `INT64_MAX`. The
queue stays well formed, what is left of non-negative limits stays non-negative, and what is left
of the limits plus any account of the visitor's state is the limits plus what the account
started from. -/
theorem popTopTxs_spec (hq : q.Wf) (hb : q.Bounded) (hfee : q.FeeBidsNonneg) {σ : Type} (allowGaps : Bool)
    (visitor : σ → TxStack A n → σ × VisitTxStackResult) (visitorState : σ) :
    ∃ st, q.popTopTxs allowGaps visitor visitorState = .ok st ∧ st.queue.Wf ∧
      (0 ≤ q.laneLimits → 0 ≤ st.laneLeftUntilLimit) ∧
      ∀ w, Accounts visitor q.laneConfig w →
        st.laneLeftUntilLimit + w st.visitorState = q.laneLimits + w visitorState :=
  popTopTxsLoop_spec allowGaps visitor q.laneConfig (q.txCount + 1) ⟨q, visitorState, q.laneLimits, fun _ => false⟩
    hq hb hfee rfl (Nat.lt_succ_self _) |>.imp fun _ ⟨h, hwf, _, hpos, heq⟩ => ⟨h, hwf, hpos, heq⟩

/-- Popping a highest-priority queue of two lanes, holding a stack in each, with a visitor that
counts and skips every transaction. -/
theorem popTopTxs_spec_two : ∃ q : SurgePricingPriorityQueue ℕ 2 1,
    ([sampleStack 3 0 7, sampleStack 5 1 8] : List (TxStack ℕ 1)).foldlM (fun queue txStack => queue.add txStack)
      (create true sampleLaneConfig 3) = .ok q ∧
    q.Wf ∧ q.Bounded ∧ q.FeeBidsNonneg ∧
    ∃ st, q.popTopTxs false (fun (n : ℕ) (_ : TxStack ℕ 1) => (n + 1, VisitTxStackResult.txSkipped)) 0 = .ok st ∧
      st.queue.Wf ∧ (0 ≤ q.laneLimits → 0 ≤ st.laneLeftUntilLimit) ∧
      ∀ w, Accounts (fun (n : ℕ) (_ : TxStack ℕ 1) => (n + 1, VisitTxStackResult.txSkipped)) q.laneConfig w →
        st.laneLeftUntilLimit + w st.visitorState = q.laneLimits + w 0 := by
  have hok : ∀ s ∈ ([sampleStack 3 0 7, sampleStack 5 1 8] : List (TxStack ℕ 1)), s.Ok := by
    simp [sampleStack_ok]
  have hokfee : ∀ s ∈ ([sampleStack 3 0 7, sampleStack 5 1 8] : List (TxStack ℕ 1)), s.FeeBidsNonneg := by
    simp [sampleStack_feeBidsNonneg]
  obtain ⟨q, h, hc, hb, hfee⟩ := (wf_create (L := 2) true sampleLaneConfig 3).foldlM_add
    (feeBidsNonneg_create _ _ _) hok hokfee
    (by simp [allTxs, allStacks_create, sampleStack, sampleTx, TxStack.txs])
    (fun _ => by simp [allStacks_create, sampleStack, TxStack.getResources, INT64_MAX])
  exact ⟨q, h, hc.wf, hb, hfee, popTopTxs_spec hc.wf hb hfee false _ 0⟩

theorem popTopTxsLoop_wf {σ : Type} (allowGaps : Bool) (visitor : σ → TxStack A n → σ × VisitTxStackResult) :
    ∀ (fuel : ℕ) (st st' : PopState A L n σ), st.queue.Wf →
      popTopTxsLoop allowGaps visitor fuel st = .ok st' → st'.queue.Wf := by
  intro fuel
  induction fuel with
  | zero =>
    intro _ _ _ h
    cases h
  | succ fuel ih =>
    intro st st' hq
    simp only [SurgePricingPriorityQueue.popTopTxsLoop]
    intro h
    obtain ⟨r, hr, h⟩ := Except.bind_eq_ok.mp h
    have hrok := hq.topSearchOk_of_findTop iterOk_getTop hr
    revert h
    cases r with
    | gapSkipped q' had =>
      obtain ⟨_, hc⟩ := hrok
      exact ih _ _ hc.wf
    | stop =>
      intro h
      cases h
      exact hq
    | found currIt =>
      obtain ⟨hit, i, it, hget, hfitl, hfitG⟩ := hrok
      simp only [hget, Except.ok_bind]
      rcases visitor st.visitorState it.current with ⟨v', r'⟩
      dsimp only
      rw [takeLaneResources_ite hfitG hfitl r', Except.ok_bind]
      intro h
      obtain ⟨q', hq', h⟩ := Except.bind_eq_ok.mp h
      exact ih _ _ (hq.wf_of_visit_eq_ok hit hget hq').1 h

/-- The queues the operations reach from the constructor: adding a stack the queue can hold
whose transactions are not in it yet, erasing any stack, and popping with any visitor, each
where it returns. -/
inductive Reachable : SurgePricingPriorityQueue A L n → Prop
  | create (isHighestPriority : Bool) (laneConfig : SurgePricingLaneConfig A L n) (comparisonSeed : ℕ) :
      Reachable (SurgePricingPriorityQueue.create isHighestPriority laneConfig comparisonSeed)
  | add {q q' : SurgePricingPriorityQueue A L n} {s : TxStack A n} (hq : Reachable q) (hs : s.Ok)
      (hfresh : ((s.txs ++ q.allTxs).map TxFrame.address).Nodup) (h : q.add s = .ok q') : Reachable q'
  | erase {q q' : SurgePricingPriorityQueue A L n} {s : TxStack A n} (hq : Reachable q)
      (h : q.erase s = .ok q') : Reachable q'
  | popTopTxs {q : SurgePricingPriorityQueue A L n} {σ : Type} {allowGaps : Bool}
      {visitor : σ → TxStack A n → σ × VisitTxStackResult} {visitorState : σ} {st : PopState A L n σ}
      (hq : Reachable q) (h : q.popTopTxs allowGaps visitor visitorState = .ok st) : Reachable st.queue

/-- Every queue the operations reach is well formed: its lanes' sets are sorted by the rank and
hold stacks of their own lane only, its stacks are ones it can hold, its transactions are at
distinct addresses, and each lane's count is the sum of its stacks' resources. -/
theorem wf_of_reachable (h : Reachable q) : q.Wf := by
  induction h with
  | create isHighestPriority laneConfig comparisonSeed => exact wf_create isHighestPriority laneConfig comparisonSeed
  | add _ hs hfresh h ih => exact (ih.add hs hfresh h).wf
  | erase _ h ih =>
    rcases ih.erase_changes h with rfl | ⟨_, hc⟩
    · exact ih
    · exact hc.wf
  | popTopTxs _ h ih => exact popTopTxsLoop_wf _ _ _ _ _ ih h

/-- A queue reached by adding two stacks of one lane to an empty one. -/
theorem wf_add_add_create : ∃ q : SurgePricingPriorityQueue ℕ 2 1,
    ((create false sampleLaneConfig 3).add (sampleStack 3 0 7) >>= fun q => q.add (sampleStack 5 0 8)) = .ok q ∧
      Reachable q ∧ q.Wf := by
  obtain ⟨q, h⟩ : ∃ q, ((create false sampleLaneConfig 3).add (sampleStack 3 0 7) >>= fun q =>
      q.add (sampleStack 5 0 8)) = .ok q := ⟨_, rfl⟩
  obtain ⟨q₁, h₁, h₂⟩ := Except.bind_eq_ok.mp h
  obtain ⟨-, -, haddr₁⟩ := add_sampleStack_create (by decide) h₁
  have hr₁ : Reachable q₁ := Reachable.add (Reachable.create _ _ _) (sampleStack_ok 3 0 7)
    (by simp [allTxs, allStacks_create, sampleStack, sampleTx, TxStack.txs]) h₁
  have hfresh : (((sampleStack 5 0 8).txs ++ q₁.allTxs).map TxFrame.address).Nodup := by
    rw [List.map_append]
    exact (haddr₁.append_left _).nodup_iff.mpr (by decide)
  have hr : Reachable q := Reachable.add hr₁ (sampleStack_ok 5 0 8) hfresh h₂
  exact ⟨q, h, hr, wf_of_reachable hr⟩

end SurgePricingPriorityQueue

/-! ## The selection of `getMostTopTxsWithinLimits` -/

/-- What a list of transactions takes from the limits: for each lane, the resources of those of
them that count against it. -/
def takenBy (cfg : SurgePricingLaneConfig A L n) (txs : List (TxFrame A)) : Fin L → Resource n :=
  (txs.map fun tx => taken (cfg.getLane tx) (cfg.getTxResources tx)).sum

theorem takenBy_apply (cfg : SurgePricingLaneConfig A L n) (txs : List (TxFrame A)) (lane : Fin L) :
    takenBy cfg txs lane =
      ((txs.filter fun tx => lane = GENERIC_LANE ∨ lane = cfg.getLane tx).map cfg.getTxResources).sum := by
  induction txs with
  | nil => simp [takenBy]
  | cons tx txs ih =>
    simp only [takenBy] at ih ⊢
    rw [List.map_cons, List.sum_cons, Pi.add_apply, ih, List.filter_cons]
    by_cases h : lane = GENERIC_LANE ∨ lane = cfg.getLane tx
    · simp [taken, h]
    · simp [taken, h]

theorem takenBy_append_singleton (cfg : SurgePricingLaneConfig A L n) (txs : List (TxFrame A)) (tx : TxFrame A) :
    takenBy cfg (txs ++ [tx]) = takenBy cfg txs + taken (cfg.getLane tx) (cfg.getTxResources tx) := by
  simp [takenBy]

/-- `getMostTopTxsWithinLimits`, on stacks the queue can hold, of non-negative fee bids, whose
transactions are distinct and whose resources add up within `INT64_MAX`, under non-negative lane
limits, never fails, and the transactions it selects fit the limits: all of them the generic
lane's, and those of each other lane that lane's. -/
theorem getMostTopTxsWithinLimits_fits {txStacks : List (TxStack A n)} {laneConfig : SurgePricingLaneConfig A L n}
    (comparisonSeed : ℕ) (hok : ∀ s ∈ txStacks, s.Ok) (hfee : ∀ s ∈ txStacks, s.FeeBidsNonneg)
    (hnodup : ((txStacks.flatMap TxStack.txs).map TxFrame.address).Nodup)
    (hbound : (txStacks.map TxStack.getResources).sum ≤ fun _ => INT64_MAX)
    (hlimits : 0 ≤ laneConfig.getLaneLimits) :
    ∃ txs hadTxNotFittingLane,
      SurgePricingPriorityQueue.getMostTopTxsWithinLimits txStacks laneConfig comparisonSeed =
        .ok (txs, hadTxNotFittingLane) ∧
      (txs.map laneConfig.getTxResources).sum ≤ laneConfig.getLaneLimits GENERIC_LANE ∧
      ∀ lane, lane ≠ GENERIC_LANE →
        ((txs.filter fun tx => laneConfig.getLane tx = lane).map laneConfig.getTxResources).sum ≤
          laneConfig.getLaneLimits lane := by
  have hall₀ : (SurgePricingPriorityQueue.create true laneConfig comparisonSeed : SurgePricingPriorityQueue A L n).allStacks =
      [] :=
    SurgePricingPriorityQueue.allStacks_create _ _ _
  obtain ⟨q, hfold, hc, hb, hfee'⟩ := (SurgePricingPriorityQueue.wf_create true laneConfig comparisonSeed).foldlM_add
    (SurgePricingPriorityQueue.feeBidsNonneg_create _ _ _) hok hfee (by simpa [SurgePricingPriorityQueue.allTxs, hall₀] using hnodup) (by simpa [hall₀] using hbound)
  have hcfg : q.laneConfig = laneConfig := hc.laneConfig
  -- the visitor takes every top transaction it is shown, so its list accounts for what it took
  let visitor := fun (txs : List (TxFrame A)) (txStack : TxStack A n) =>
    (txs ++ [txStack.top], VisitTxStackResult.txProcessed)
  have hw : SurgePricingPriorityQueue.Accounts visitor q.laneConfig (takenBy laneConfig) := by
    intro v s
    simp [visitor, takenBy_append_singleton, hcfg]
  obtain ⟨st, hpop, -, -, hpos, hacc⟩ := SurgePricingPriorityQueue.popTopTxsLoop_spec true visitor q.laneConfig
    (q.txCount + 1) ⟨q, [], q.laneLimits, fun _ => false⟩ hc.wf hb hfee' rfl (Nat.lt_succ_self _)
  have heq := hacc _ hw
  have hlimits' : 0 ≤ q.laneLimits := by simpa [SurgePricingPriorityQueue.laneLimits, hcfg] using hlimits
  -- what the selection takes is the limits less what is left, which is non-negative
  have hle : takenBy laneConfig st.visitorState ≤ laneConfig.getLaneLimits := by
    have h₀ : takenBy laneConfig ([] : List (TxFrame A)) = 0 := by simp [takenBy]
    rw [h₀, add_zero] at heq
    rw [eq_sub_of_add_eq' heq]
    have hsub := sub_le_self q.laneLimits (hpos hlimits')
    simpa [SurgePricingPriorityQueue.laneLimits, hcfg] using hsub
  refine ⟨st.visitorState, st.hadTxNotFittingLane, ?_, ?_, fun lane hlane => ?_⟩
  · simp only [SurgePricingPriorityQueue.getMostTopTxsWithinLimits, SurgePricingPriorityQueue.popTopTxs, hfold,
      Except.ok_bind]
    rw [hpop]
    rfl
  · have := hle GENERIC_LANE
    rw [takenBy_apply] at this
    simpa using this
  · have := hle lane
    rw [takenBy_apply] at this
    simpa [hlane, eq_comm] using this

/-- Two one-transaction stacks, one in each of two lanes whose limits hold one transaction each. -/
theorem getMostTopTxsWithinLimits_fits_two : ∃ (txStacks : List (TxStack ℕ 1)) (laneConfig : SurgePricingLaneConfig ℕ 2 1),
    txStacks = [SurgePricingPriorityQueue.sampleStack 3 0 7, SurgePricingPriorityQueue.sampleStack 5 1 8] ∧
    laneConfig = SurgePricingPriorityQueue.sampleLaneConfig ∧
    (∀ s ∈ txStacks, s.Ok) ∧ (∀ s ∈ txStacks, s.FeeBidsNonneg) ∧
    ((txStacks.flatMap TxStack.txs).map TxFrame.address).Nodup ∧
    (txStacks.map TxStack.getResources).sum ≤ (fun _ => INT64_MAX) ∧ 0 ≤ laneConfig.getLaneLimits ∧
    ∃ txs hadTxNotFittingLane,
      SurgePricingPriorityQueue.getMostTopTxsWithinLimits txStacks laneConfig 3 = .ok (txs, hadTxNotFittingLane) ∧
      (txs.map laneConfig.getTxResources).sum ≤ laneConfig.getLaneLimits GENERIC_LANE ∧
      ∀ lane, lane ≠ GENERIC_LANE →
        ((txs.filter fun tx => laneConfig.getLane tx = lane).map laneConfig.getTxResources).sum ≤
          laneConfig.getLaneLimits lane := by
  refine ⟨_, _, rfl, rfl, ?ok, ?fee, ?nodup, ?bound, ?limits,
    getMostTopTxsWithinLimits_fits 3 ?ok ?fee ?nodup ?bound ?limits⟩
  · simp [SurgePricingPriorityQueue.sampleStack_ok]
  · simp [SurgePricingPriorityQueue.sampleStack_feeBidsNonneg]
  · decide
  · exact fun _ => by simp [SurgePricingPriorityQueue.sampleStack, TxStack.getResources, INT64_MAX]
  · exact fun _ _ => zero_le_one

end HcnetCore.Herder
