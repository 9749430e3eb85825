import HcnetCore.Scp.BallotLock
import HcnetCore.Scp.QuorumSlices
import Mathlib

/-! # Step 9: bumping past a v-blocking set

`attemptBump` scans the counters of the latest statements above `b`'s counter in increasing
order, and abandons the ballot to the first at which the nodes ahead are no longer v-blocking.
Which nodes are ahead of a counter changes only at the statements' counters, so that first
counter is the least of all the `uint32` counters above `b`'s; and no node is ahead of the
largest counter, so the scan finds one whenever a v-blocking set is ahead of `b`.
-/

namespace HcnetCore.Scp

set_option autoImplicit false
set_option linter.unusedSectionVars false

theorem isVBlockingInternal_nil {N : Type} [DecidableEq N] (qSet : SCPQuorumSet N) :
    isVBlockingInternal qSet [] = false := by
  induction qSet with
  | mk threshold validators innerSets ih =>
    rw [Bool.eq_false_iff, ne_eq, isVBlockingInternal_iff]
    have hv : validators.countP (fun v => decide (v ∈ ([] : List N))) = 0 :=
      List.countP_eq_zero.mpr fun v _ h => by simp at h
    have hi : innerSets.countP (fun inner => isVBlockingInternal inner []) = 0 :=
      List.countP_eq_zero.mpr fun inner hin h => by rw [ih inner hin] at h; cases h
    rw [hv, hi]
    rintro ⟨-, hcount⟩
    have hone := (le_max_right _ 1).trans hcount
    omega

namespace BallotProtocol

variable {N V H : Type} [DecidableEq N] [LinearOrder V] [OrderBot V] [DecidableEq H]
variable (ctx : SlotContext N V H)

/-! ## The nodes ahead of a counter -/

section Ahead

variable {self : BallotProtocol N V H}

omit [LinearOrder V] [OrderBot V] [DecidableEq H] in
theorem nodesWhere_congr {f g : SCPStatement N V H → Bool}
    (h : ∀ n st, self.latestEnvelopes.lookup n = some st → f st = g st) : nodesWhere self f = nodesWhere self g := by
  unfold nodesWhere
  refine List.filter_congr fun n _ => ?_
  cases hn : self.latestEnvelopes.lookup n with
  | none => rfl
  | some st => simp [h n st hn]

omit [LinearOrder V] [OrderBot V] [DecidableEq H] in
theorem nodesWhere_eq_nil {f : SCPStatement N V H → Bool}
    (h : ∀ n st, self.latestEnvelopes.lookup n = some st → f st = false) : nodesWhere self f = [] := by
  unfold nodesWhere
  refine List.filter_eq_nil_iff.mpr fun n _ => ?_
  cases hn : self.latestEnvelopes.lookup n with
  | none => simp
  | some st => simp [h n st hn]

theorem hasVBlockingSubsetStrictlyAheadOf_eq {lower upper : uint32} (hle : lower ≤ upper)
    (hnone : ∀ n st, self.latestEnvelopes.lookup n = some st →
      ¬ (lower < statementBallotCounter st ∧ statementBallotCounter st ≤ upper)) :
    hasVBlockingSubsetStrictlyAheadOf ctx self upper = hasVBlockingSubsetStrictlyAheadOf ctx self lower := by
  unfold hasVBlockingSubsetStrictlyAheadOf
  rw [nodesWhere_congr fun n st h => ?_]
  exact decide_eq_decide.mpr ⟨fun hu => lt_of_le_of_lt hle hu,
    fun hl => not_le.mp fun hu => hnone n st h ⟨hl, hu⟩⟩

theorem hasVBlockingSubsetStrictlyAheadOf_eq_false {m : uint32}
    (hle : ∀ n st, self.latestEnvelopes.lookup n = some st → statementBallotCounter st ≤ m) :
    hasVBlockingSubsetStrictlyAheadOf ctx self m = false := by
  unfold hasVBlockingSubsetStrictlyAheadOf
  rw [nodesWhere_eq_nil fun n st h => decide_eq_false (not_lt.mpr (hle n st h))]
  exact isVBlockingInternal_nil _

theorem exists_counter_of_hasVBlockingSubsetStrictlyAheadOf {m : uint32}
    (hahead : hasVBlockingSubsetStrictlyAheadOf ctx self m = true) :
    ∃ n st, self.latestEnvelopes.lookup n = some st ∧ m < statementBallotCounter st := by
  by_contra hno
  rw [hasVBlockingSubsetStrictlyAheadOf_eq_false ctx fun n st h => not_lt.mp fun hlt => hno ⟨n, st, h, hlt⟩] at hahead
  cases hahead

end Ahead

/-! ## The scan over the counters -/

/-- The counters `attemptBump` scans: those of the latest statements above `localCounter`, as a
`std::set`. -/
def aheadCounters (self : BallotProtocol N V H) (localCounter : uint32) : List uint32 :=
  SortedList.ofList id <|
    (self.latestEnvelopes.entries.map fun e => statementBallotCounter e.2).filter (localCounter < ·)

omit [LinearOrder V] [OrderBot V] [DecidableEq H] in
theorem mem_aheadCounters {self : BallotProtocol N V H} {localCounter c : uint32} :
    c ∈ aheadCounters self localCounter ↔
      localCounter < c ∧ ∃ n st, self.latestEnvelopes.lookup n = some st ∧ statementBallotCounter st = c := by
  rw [aheadCounters, SortedList.mem_ofList_id, List.mem_filter, List.mem_map, decide_eq_true_eq, and_comm]
  refine and_congr_right fun _ => ⟨?_, ?_⟩
  · rintro ⟨⟨n, st⟩, he, rfl⟩
    exact ⟨n, st, AList.mem_lookup_iff.mpr he, rfl⟩
  · rintro ⟨n, st, hl, rfl⟩
    exact ⟨⟨n, st⟩, AList.mem_lookup_iff.mp hl, rfl⟩

omit [LinearOrder V] [OrderBot V] [DecidableEq H] in
theorem sorted_aheadCounters (self : BallotProtocol N V H) (localCounter : uint32) :
    SortedList.Sorted id (aheadCounters self localCounter) :=
  SortedList.sorted_ofList _

section Scan

variable {ctx} {self : BallotProtocol N V H} {localCounter : uint32}

theorem isLeast_of_find?_eq_some {n : uint32}
    (hahead : hasVBlockingSubsetStrictlyAheadOf ctx self localCounter = true)
    (hfind : (aheadCounters self localCounter).find? (fun m => !hasVBlockingSubsetStrictlyAheadOf ctx self m) = some n) :
    IsLeast {m | localCounter < m ∧ hasVBlockingSubsetStrictlyAheadOf ctx self m = false} n := by
  have hleast := SortedList.isLeastBy_find? (sorted_aheadCounters self localCounter)
    (fun m => !hasVBlockingSubsetStrictlyAheadOf ctx self m)
  rw [hfind] at hleast
  obtain ⟨⟨hmem, hn⟩, hbelow⟩ := hleast
  -- a scanned counter below `n` has a v-blocking set ahead
  have hscanned : ∀ x ∈ aheadCounters self localCounter, x < n → hasVBlockingSubsetStrictlyAheadOf ctx self x = true :=
    fun x hx hxn => by
      by_contra hfalse
      exact absurd (hbelow x ⟨hx, by simpa using hfalse⟩) (not_le.mpr hxn)
  refine ⟨⟨(mem_aheadCounters.mp hmem).1, by simpa using hn⟩, fun m ⟨hlm, hm⟩ => ?_⟩
  by_contra hmn
  rw [not_le] at hmn
  let below := (aheadCounters self localCounter).filter (· ≤ m)
  by_cases hempty : below = []
  · -- no statement counter in `(localCounter, m]`: the nodes ahead of `m` are ahead of `localCounter`
    have heq := hasVBlockingSubsetStrictlyAheadOf_eq ctx hlm.le fun k st hk ⟨hlt, hle⟩ =>
      List.filter_eq_nil_iff.mp hempty _ (mem_aheadCounters.mpr ⟨hlt, k, st, hk, rfl⟩) (decide_eq_true hle)
    rw [heq, hahead] at hm
    cases hm
  · -- the largest scanned counter `x ≤ m` is below `n`, and the nodes ahead of `m` are ahead of `x`
    obtain ⟨x, hx, hmax⟩ := Finset.exists_max_image below.toFinset id
      (List.toFinset_nonempty_iff _ |>.mpr hempty)
    rw [List.mem_toFinset, List.mem_filter, decide_eq_true_eq] at hx
    have heq := hasVBlockingSubsetStrictlyAheadOf_eq ctx hx.2 fun k st hk ⟨hlt, hle⟩ => by
      have hmemk : statementBallotCounter st ∈ below := List.mem_filter.mpr
        ⟨mem_aheadCounters.mpr ⟨(mem_aheadCounters.mp hx.1).1.trans hlt, k, st, hk, rfl⟩, decide_eq_true hle⟩
      exact absurd (hmax _ (List.mem_toFinset.mpr hmemk)) (not_le.mpr hlt)
    rw [heq, hscanned x hx.1 (lt_of_le_of_lt hx.2 hmn)] at hm
    cases hm

theorem find?_isSome (hahead : hasVBlockingSubsetStrictlyAheadOf ctx self localCounter = true) :
    ∃ n, (aheadCounters self localCounter).find? (fun m => !hasVBlockingSubsetStrictlyAheadOf ctx self m) = some n := by
  obtain ⟨k, st, hk, hlt⟩ := exists_counter_of_hasVBlockingSubsetStrictlyAheadOf ctx hahead
  have hne : (aheadCounters self localCounter).toFinset.Nonempty :=
    ⟨_, List.mem_toFinset.mpr (mem_aheadCounters.mpr ⟨hlt, k, st, hk, rfl⟩)⟩
  obtain ⟨x, hx, hmax⟩ := Finset.exists_max_image _ id hne
  rw [List.mem_toFinset] at hx
  -- every statement counter is at most `x`
  have hfalse : hasVBlockingSubsetStrictlyAheadOf ctx self x = false :=
    hasVBlockingSubsetStrictlyAheadOf_eq_false ctx fun k' st' hk' => by
      by_cases hl : localCounter < statementBallotCounter st'
      · exact hmax _ (List.mem_toFinset.mpr (mem_aheadCounters.mpr ⟨hl, k', st', hk', rfl⟩))
      · exact (not_lt.mp hl).trans (mem_aheadCounters.mp hx).1.le
  cases hfind : (aheadCounters self localCounter).find? (fun m => !hasVBlockingSubsetStrictlyAheadOf ctx self m) with
  | some n => exact ⟨n, rfl⟩
  | none =>
    have hnone := List.find?_eq_none.mp hfind x hx
    rw [hfalse] at hnone
    exact absurd rfl hnone

end Scan

/-! ## The bump -/

section Bump

variable {ctx}

theorem updateCurrentValue_eq_ok_true {ballot : SCPBallot V} {s s' : BallotProtocol N V H}
    (h : updateCurrentValue ballot s = .ok (true, s')) : s'.currentBallot = some ballot := by
  unfold updateCurrentValue at h
  split at h
  · cases Except.pure_eq_ok.mp h
  split at h
  case h_1 =>
    obtain ⟨s₁, h₁, h⟩ := Except.bind_eq_ok.mp h
    cases Except.pure_eq_ok.mp (Except.ok_of_seq_eq_ok h)
    exact (bumpToBallot_ok h₁).2.2.1
  case h_2 =>
    replace h := Except.ok_of_seq_eq_ok h
    split at h
    · cases Except.pure_eq_ok.mp h
    split at h
    · obtain ⟨s₁, h₁, h⟩ := Except.bind_eq_ok.mp h
      cases Except.pure_eq_ok.mp (Except.ok_of_seq_eq_ok h)
      exact (bumpToBallot_ok h₁).2.2.1
    · cases Except.pure_eq_ok.mp h
    · cases Except.pure_eq_ok.mp (Except.ok_of_seq_eq_ok h)

variable {emit : BallotProtocol N V H → Except SCPError (BallotProtocol N V H)}

omit [OrderBot V] [DecidableEq H] in
theorem bumpStateAt_eq_ok_true {value : V} {n : uint32} {s s' : BallotProtocol N V H}
    (h : bumpStateAt ctx emit value n s = .ok (true, s')) :
    ∃ s₁ s₂, updateCurrentValue ⟨n, s.valueOverride.getD value⟩ s = .ok (true, s₁) ∧ emit s₁ = .ok s₂ ∧
      s' = checkHeardFromQuorum ctx s₂ := by
  unfold bumpStateAt at h
  split at h
  · cases Except.pure_eq_ok.mp h
  obtain ⟨⟨updated, s₁⟩, h₁, h⟩ := Except.bind_eq_ok.mp h
  dsimp only at h
  split at h
  case isTrue hupdated =>
    obtain ⟨s₂, h₂, h⟩ := Except.bind_eq_ok.mp h
    cases Except.pure_eq_ok.mp h
    exact ⟨s₁, s₂, hupdated ▸ h₁, h₂, rfl⟩
  case isFalse => cases Except.pure_eq_ok.mp h

theorem abandonBallot_eq_ok_true {candidate : Option V} {n : uint32} {s s' : BallotProtocol N V H} (hn : n ≠ 0)
    (h : abandonBallot ctx emit candidate n s = .ok (true, s')) :
    ∃ value s₁ s₂, updateCurrentValue ⟨n, value⟩ s = .ok (true, s₁) ∧ emit s₁ = .ok s₂ ∧
      s' = checkHeardFromQuorum ctx s₂ := by
  unfold abandonBallot at h
  dsimp only at h
  split at h
  · split_ifs at h with hbot
    · obtain ⟨s₁, s₂, h₁, h₂, rfl⟩ := bumpStateAt_eq_ok_true h
      exact ⟨_, s₁, s₂, h₁, h₂, rfl⟩
    · cases Except.pure_eq_ok.mp h
  · cases Except.pure_eq_ok.mp h

end Bump

/-! ## `attemptBump` -/

variable (emit : BallotProtocol N V H → Except SCPError (BallotProtocol N V H))

theorem attemptBump_eq_abandonBallot (candidate : Option V) {s : BallotProtocol N V H}
    (hphase : s.phase ≠ .externalize)
    (hahead : hasVBlockingSubsetStrictlyAheadOf ctx s (s.currentBallot.elim 0 (·.counter)) = true) :
    ∃ n, IsLeast {m | s.currentBallot.elim 0 (·.counter) < m ∧ hasVBlockingSubsetStrictlyAheadOf ctx s m = false} n ∧
      attemptBump ctx emit candidate s = abandonBallot ctx emit candidate n s := by
  obtain ⟨n, hfind⟩ := find?_isSome hahead
  refine ⟨n, isLeast_of_find?_eq_some hahead hfind, ?_⟩
  unfold attemptBump
  rw [if_neg hphase]
  dsimp only
  rw [if_neg (by simp [hahead])]
  split
  case h_1 n' hfind' => rw [Option.some.inj (hfind.symm.trans hfind')]
  case h_2 hnone => exact absurd (hfind.symm.trans hnone) (Option.some_ne_none n)

theorem attemptBump_eq_ok_true {candidate : Option V} {s s' : BallotProtocol N V H}
    (h : attemptBump ctx emit candidate s = .ok (true, s')) :
    ∃ n, IsLeast {m | s.currentBallot.elim 0 (·.counter) < m ∧ hasVBlockingSubsetStrictlyAheadOf ctx s m = false} n ∧
      ∃ value s₁ s₂, updateCurrentValue ⟨n, value⟩ s = .ok (true, s₁) ∧ s₁.currentBallot = some ⟨n, value⟩ ∧
        emit s₁ = .ok s₂ ∧ s' = checkHeardFromQuorum ctx s₂ := by
  have hphase : s.phase ≠ .externalize := fun hext => by
    rw [attemptBump, if_pos hext] at h
    cases Except.pure_eq_ok.mp h
  have hahead : hasVBlockingSubsetStrictlyAheadOf ctx s (s.currentBallot.elim 0 (·.counter)) = true := by
    by_contra hnot
    rw [attemptBump, if_neg hphase] at h
    dsimp only at h
    rw [if_pos (by simpa using hnot)] at h
    cases Except.pure_eq_ok.mp h
  obtain ⟨n, hleast, heq⟩ := attemptBump_eq_abandonBallot ctx emit candidate hphase hahead
  have hn : n ≠ 0 := fun h0 => by
    have hlt := hleast.1.1
    rw [h0] at hlt
    exact absurd (Fin.lt_def.mp hlt) (Nat.not_lt_zero _)
  rw [heq] at h
  obtain ⟨value, s₁, s₂, h₁, h₂, rfl⟩ := abandonBallot_eq_ok_true hn h
  exact ⟨n, hleast, value, s₁, s₂, h₁, updateCurrentValue_eq_ok_true h₁, h₂, rfl⟩

/-- `attemptBump` implements step 9 of the paper. In PREPARE or CONFIRM, with a v-blocking set
ahead of `b`'s counter, the scan over the counters finds a counter and abandons the ballot to
it; that counter is the least above `b`'s with no v-blocking set ahead. When `attemptBump`
reports a bump, `b` moved to that counter, and the new statement was then emitted. -/
theorem attemptBump_least (candidate : Option V) (s s' : BallotProtocol N V H) :
    (s.phase ≠ .externalize →
      hasVBlockingSubsetStrictlyAheadOf ctx s (s.currentBallot.elim 0 (·.counter)) = true →
      ∃ n, IsLeast {m | s.currentBallot.elim 0 (·.counter) < m ∧ hasVBlockingSubsetStrictlyAheadOf ctx s m = false} n ∧
        attemptBump ctx emit candidate s = abandonBallot ctx emit candidate n s) ∧
    (attemptBump ctx emit candidate s = .ok (true, s') →
      ∃ n, IsLeast {m | s.currentBallot.elim 0 (·.counter) < m ∧ hasVBlockingSubsetStrictlyAheadOf ctx s m = false} n ∧
        ∃ value s₁ s₂, updateCurrentValue ⟨n, value⟩ s = .ok (true, s₁) ∧ s₁.currentBallot = some ⟨n, value⟩ ∧
          emit s₁ = .ok s₂ ∧ s' = checkHeardFromQuorum ctx s₂) :=
  ⟨fun hphase hahead => attemptBump_eq_abandonBallot ctx emit candidate hphase hahead,
    fun h => attemptBump_eq_ok_true ctx emit h⟩

/-! ## The bump loop runs out of bumps before it runs out of fuel -/

/-- The statements `emit` processes never move `b` to a lower counter. -/
def EmitRaises (emit : BallotProtocol N V H → Except SCPError (BallotProtocol N V H)) : Prop :=
  ∀ ⦃s s'⦄, emit s = .ok s' → s.currentBallot.elim 0 (·.counter) ≤ s'.currentBallot.elim 0 (·.counter)

variable {ctx emit}

theorem attemptBump_raises (hemit : EmitRaises emit) {candidate : Option V} {s s' : BallotProtocol N V H}
    (h : attemptBump ctx emit candidate s = .ok (true, s')) :
    s.currentBallot.elim 0 (·.counter) < s'.currentBallot.elim 0 (·.counter) := by
  obtain ⟨n, hleast, value, s₁, s₂, -, hb₁, h₂, rfl⟩ := attemptBump_eq_ok_true ctx emit h
  have hemitted := hemit h₂
  rw [hb₁] at hemitted
  have hb' : (checkHeardFromQuorum ctx s₂).currentBallot = s₂.currentBallot := by
    unfold checkHeardFromQuorum
    split <;> rfl
  rw [hb']
  exact lt_of_lt_of_le hleast.1.1 hemitted

theorem bumpLoop_fuel_add (hemit : EmitRaises emit) (candidate : Option V) (m : ℕ) :
    ∀ (fuel : ℕ) (s : BallotProtocol N V H), 2 ^ 32 ≤ fuel + (s.currentBallot.elim 0 (·.counter)).val →
      bumpLoop ctx emit candidate (fuel + m) s = bumpLoop ctx emit candidate fuel s
  | 0, s, h => absurd h (by have := (s.currentBallot.elim 0 (·.counter)).isLt; omega)
  | fuel + 1, s, h => by
    rw [Nat.add_right_comm, bumpLoop, bumpLoop]
    rcases hbump : attemptBump ctx emit candidate s with _ | ⟨_ | _, s₁⟩
    · rfl
    · rfl
    · -- the bump raised the counter, which pays for the round
      have hlt := Fin.lt_def.mp (attemptBump_raises hemit hbump)
      simp only [bind, Except.bind, if_true]
      rw [bumpLoop_fuel_add hemit candidate m fuel s₁ (by omega)]

theorem bumpLoop_enough_fuel (hemit : EmitRaises emit) (candidate : Option V) (m : ℕ) (s : BallotProtocol N V H) :
    bumpLoop ctx emit candidate (2 ^ 32 + m) s = bumpLoop ctx emit candidate (2 ^ 32) s :=
  bumpLoop_fuel_add hemit candidate m _ s (Nat.le_add_right _ _)

/-- A fresh node 0 that has heard node 1 PREPARE `(3, 7)`. -/
def heardAheadOf : BallotProtocol ℕ ℕ ℕ :=
  { fresh true with latestEnvelopes := AList.insert 1 ⟨1, .prepare 1 ⟨3, 7⟩ none none 0 0⟩ ∅ }

/-- Node 1 alone is v-blocking for node 0 and is ahead of its counter: `attemptBump` moves `b` to
counter 3, the least with nobody ahead. -/
theorem attemptBump_least_heardAheadOf :
    heardAheadOf.phase ≠ .externalize ∧
      hasVBlockingSubsetStrictlyAheadOf threeNodeContext heardAheadOf 0 = true ∧
      ∃ s', attemptBump threeNodeContext pure (some 7) heardAheadOf = .ok (true, s') ∧
        s'.currentBallot = some ⟨3, 7⟩ ∧
        ∃ n, IsLeast {m | heardAheadOf.currentBallot.elim 0 (·.counter) < m ∧
            hasVBlockingSubsetStrictlyAheadOf threeNodeContext heardAheadOf m = false} n ∧
          attemptBump threeNodeContext pure (some 7) heardAheadOf =
            abandonBallot threeNodeContext pure (some 7) n heardAheadOf := by
  have hphase : heardAheadOf.phase ≠ .externalize := by decide
  have hahead : hasVBlockingSubsetStrictlyAheadOf threeNodeContext heardAheadOf 0 = true := by decide +kernel
  have hrun : (match attemptBump threeNodeContext pure (some 7) heardAheadOf with
      | .ok (true, s') => decide (s'.currentBallot = some ⟨3, 7⟩)
      | _ => false) = true := by
    decide +kernel
  split at hrun
  next s' hbump =>
    exact ⟨hphase, hahead, s', hbump, of_decide_eq_true hrun,
      (attemptBump_least threeNodeContext pure (some 7) heardAheadOf s').1 hphase hahead⟩
  next => exact absurd hrun Bool.false_ne_true

end BallotProtocol

end HcnetCore.Scp
