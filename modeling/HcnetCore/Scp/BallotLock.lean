import HcnetCore.Scp.BallotTransitions
import HcnetCore.Library.ExceptInvariant

/-! # Phases only move forward, and a confirmed commit locks the value

Once the ballot protocol leaves PREPARE, it has accepted a commit `c`, and from then on `b`,
`c` and `h` all carry `c`'s value; `valueExternalized` is called once, in EXTERNALIZE, with it.
The proof follows the transitions bottom up: `Lock` is the invariant, `Evolves` says how the
state may move, and each transition is shown to move along `Evolves` into a `Lock` state,
given that `emit` does.
-/

namespace HcnetCore.Scp

set_option autoImplicit false
set_option linter.unusedSectionVars false

def SCPPhase.rank : SCPPhase → ℕ
  | .prepare => 0
  | .confirm => 1
  | .externalize => 2

theorem SCPPhase.ne_prepare_of_rank_le {p q : SCPPhase} (hp : p ≠ .prepare) (h : p.rank ≤ q.rank) :
    q ≠ .prepare := by
  cases p <;> cases q <;> simp_all [SCPPhase.rank]

theorem SCPPhase.eq_externalize_of_rank_le {p q : SCPPhase} (hp : p = .externalize) (h : p.rank ≤ q.rank) :
    q = .externalize := by
  subst hp
  cases q <;> simp_all [SCPPhase.rank]

namespace BallotProtocol

variable {N V H : Type} [DecidableEq N] [LinearOrder V] [OrderBot V] [DecidableEq H]

def LockedOn (v : V) (s : BallotProtocol N V H) : Prop :=
  s.currentBallot.map (·.value) = some v ∧ s.commit.map (·.value) = some v ∧
    s.highBallot.map (·.value) = some v

/-- Past PREPARE the slot is locked on one value, and `valueExternalized` was called at most
once, in EXTERNALIZE, with that value. -/
structure Lock (s : BallotProtocol N V H) : Prop where
  locked : s.phase ≠ .prepare → ∃ v, LockedOn v s
  externalized : s.externalized = [] ∨ ∃ v, s.phase = .externalize ∧ LockedOn v s ∧ s.externalized = [v]

/-- How the slot may move: the phase only goes forward, a lock is kept, and nothing is
externalized after EXTERNALIZE. -/
structure Evolves (s s' : BallotProtocol N V H) : Prop where
  phase_le : s.phase.rank ≤ s'.phase.rank
  locked : ∀ v, s.phase ≠ .prepare → LockedOn v s → LockedOn v s'
  externalized : s.phase = .externalize → s'.externalized = s.externalized

instance : Std.Refl (Evolves (N := N) (V := V) (H := H)) :=
  ⟨fun _ => ⟨le_rfl, fun _ _ h => h, fun _ => rfl⟩⟩

instance : IsTrans (BallotProtocol N V H) Evolves where
  trans _ _ _ h₁ h₂ :=
    ⟨h₁.phase_le.trans h₂.phase_le,
      fun v hp hl => h₂.locked v (SCPPhase.ne_prepare_of_rank_le hp h₁.phase_le) (h₁.locked v hp hl),
      fun hp => (h₂.externalized (SCPPhase.eq_externalize_of_rank_le hp h₁.phase_le)).trans (h₁.externalized hp)⟩

/-- The state after a transition keeps the lock and evolves from the state before. -/
abbrev Follows (s s' : BallotProtocol N V H) : Prop := Invariant.Follows Lock Evolves s s'

theorem Follows.of_frame {s s' : BallotProtocol N V H} (hs : Lock s) (hphase : s'.phase = s.phase)
    (hb : s'.currentBallot = s.currentBallot) (hc : s'.commit = s.commit) (hh : s'.highBallot = s.highBallot)
    (hx : s'.externalized = s.externalized) : Follows s s' := by
  have hlocked : ∀ v, LockedOn v s → LockedOn v s' := by
    intro v hv
    simpa only [LockedOn, hb, hc, hh] using hv
  refine ⟨⟨fun hp => ?_, ?_⟩, ⟨by rw [hphase], fun v _ => hlocked v, fun _ => hx⟩⟩
  · obtain ⟨v, hv⟩ := hs.locked (hphase ▸ hp)
    exact ⟨v, hlocked v hv⟩
  · rcases hs.externalized with hx₀ | ⟨v, hp, hv, hx₀⟩
    · exact .inl (hx.trans hx₀)
    · exact .inr ⟨v, hphase.trans hp, hlocked v hv, hx.trans hx₀⟩

theorem Follows.of_prepare {s s' : BallotProtocol N V H} (hs : Lock s) (hp : s.phase = .prepare)
    (hphase : s'.phase = .prepare) (hx : s'.externalized = s.externalized) : Follows s s' := by
  have hx₀ : s.externalized = [] := by
    rcases hs.externalized with h | ⟨_, hext, _⟩
    · exact h
    · simp [hp] at hext
  refine ⟨⟨fun h => absurd hphase h, .inl (hx.trans hx₀)⟩, ⟨?_, fun _ h => absurd hp h, fun h => ?_⟩⟩
  · simp [hp, hphase]
  · simp [hp] at h

/-- `ballot` carries the locked value, if there is one. -/
def Fits (ballot : SCPBallot V) (s : BallotProtocol N V H) : Prop :=
  ∀ v, s.phase ≠ .prepare → LockedOn v s → ballot.value = v

theorem LockedOn.unique {v w : V} {s : BallotProtocol N V H} (hv : LockedOn v s) (hw : LockedOn w s) : v = w := by
  have h := hv.1.symm.trans hw.1
  simpa using h

theorem Fits.of_prepare {ballot : SCPBallot V} {s : BallotProtocol N V H} (hp : s.phase = .prepare) : Fits ballot s :=
  fun _ h => absurd hp h

theorem Follows.of_locked {v : V} {s s' : BallotProtocol N V H} (hs : Lock s) (hv : LockedOn v s) (hv' : LockedOn v s')
    (hphase : s'.phase = s.phase) (hx : s'.externalized = s.externalized) : Follows s s' := by
  have hsame : ∀ w, LockedOn w s → LockedOn w s' := fun w hw => hv.unique hw ▸ hv'
  refine ⟨⟨fun _ => ⟨v, hv'⟩, ?_⟩, ⟨by rw [hphase], fun w _ => hsame w, fun _ => hx⟩⟩
  rcases hs.externalized with hx₀ | ⟨w, hp, hw, hx₀⟩
  · exact .inl (hx.trans hx₀)
  · exact .inr ⟨w, hphase.trans hp, hsame w hw, hx.trans hx₀⟩

theorem bumpToBallot_ok {ballot : SCPBallot V} {check : Bool} {s s' : BallotProtocol N V H}
    (h : bumpToBallot ballot check s = .ok s') :
    s.phase ≠ .externalize ∧ s'.phase = s.phase ∧ s'.currentBallot = some ballot ∧
      s'.externalized = s.externalized ∧
      (s.highBallot.any (fun h => !areBallotsCompatible ballot h) = true → s'.highBallot = none ∧ s'.commit = none) ∧
      (s.highBallot.any (fun h => !areBallotsCompatible ballot h) = false →
        s'.highBallot = s.highBallot ∧ s'.commit = s.commit) := by
  simp only [bumpToBallot, Except.bind_eq_ok, dbgAssert_eq_ok, decide_eq_true_eq] at h
  obtain ⟨_, hp, h⟩ := h
  -- the optional monotonicity check does not change the state
  split at h
  on_goal 1 => replace h := Except.ok_of_seq_eq_ok h
  all_goals
    rw [Except.pure_eq_ok] at h
    subst h
    refine ⟨hp, ?_⟩
    split_ifs <;> simp_all

theorem bumpToBallot_follows {ballot : SCPBallot V} {check : Bool} {s s' : BallotProtocol N V H}
    (hs : Lock s) (hfit : Fits ballot s) (h : bumpToBallot ballot check s = .ok s') : Follows s s' := by
  obtain ⟨-, hphase, hb, hx, -, hkeep⟩ := bumpToBallot_ok h
  by_cases hp : s.phase = .prepare
  · exact Follows.of_prepare hs hp (hphase.trans hp) hx
  obtain ⟨v, hv⟩ := hs.locked hp
  have hvalue : ballot.value = v := hfit v hp hv
  obtain ⟨hh, hc⟩ := hkeep (by
    obtain ⟨h, hh, hhv⟩ := Option.map_eq_some_iff.mp hv.2.2
    simp [hh, hhv, hvalue])
  refine Follows.of_locked hs hv ⟨by simp [hb, hvalue], by rw [hc]; exact hv.2.1, by rw [hh]; exact hv.2.2⟩ hphase hx

theorem updateCurrentIfNeeded_follows {ballot : SCPBallot V} {s s' : BallotProtocol N V H} {r : Bool}
    (hs : Lock s) (hfit : Fits ballot s) (h : updateCurrentIfNeeded ballot s = .ok (r, s')) : Follows s s' := by
  unfold updateCurrentIfNeeded at h
  split at h
  · obtain ⟨s₁, h₁, h⟩ := Except.bind_eq_ok.mp h
    cases (Except.pure_eq_ok.mp h)
    exact bumpToBallot_follows hs hfit h₁
  · cases (Except.pure_eq_ok.mp h)
    exact .refl hs

theorem Fits.of_commit {ballot : SCPBallot V} {s : BallotProtocol N V H}
    (hc : s.commit.any (fun c => !areBallotsCompatible c ballot) = false) : Fits ballot s := by
  intro v _ hv
  obtain ⟨c, hc', hcv⟩ := Option.map_eq_some_iff.mp hv.2.1
  simp only [hc', Option.any_some, Bool.not_eq_false', areBallotsCompatible_iff] at hc
  rw [← hc, hcv]

theorem Fits.of_currentBallot_none {ballot : SCPBallot V} {s : BallotProtocol N V H}
    (hb : s.currentBallot = none) : Fits ballot s := by
  intro v _ hv
  simp [LockedOn, hb] at hv

theorem updateCurrentValue_follows {ballot : SCPBallot V} {s s' : BallotProtocol N V H} {r : Bool}
    (hs : Lock s) (h : updateCurrentValue ballot s = .ok (r, s')) : Follows s s' := by
  unfold updateCurrentValue at h
  split at h
  · rw [Except.snd_eq_of_pure_eq_ok h]
    exact .refl hs
  split at h
  case h_1 hb =>
    obtain ⟨s₁, h₁, h⟩ := Except.bind_eq_ok.mp h
    rw [Except.snd_eq_of_pure_eq_ok (Except.ok_of_seq_eq_ok h)]
    exact bumpToBallot_follows hs (.of_currentBallot_none hb) h₁
  case h_2 b hb =>
    replace h := Except.ok_of_seq_eq_ok h
    split at h
    · rw [Except.snd_eq_of_pure_eq_ok h]
      exact .refl hs
    rename_i hc
    split at h
    · obtain ⟨s₁, h₁, h⟩ := Except.bind_eq_ok.mp h
      rw [Except.snd_eq_of_pure_eq_ok (Except.ok_of_seq_eq_ok h)]
      exact bumpToBallot_follows hs (.of_commit (Bool.eq_false_iff.mpr hc)) h₁
    · rw [Except.snd_eq_of_pure_eq_ok h]
      exact .refl hs
    · rw [Except.snd_eq_of_pure_eq_ok (Except.ok_of_seq_eq_ok h)]
      exact .refl hs

section Emit

variable (ctx : SlotContext N V H)

/-- `emit` only moves into `Lock` states along `Evolves`. -/
def EmitKeeps (emit : BallotProtocol N V H → Except SCPError (BallotProtocol N V H)) : Prop :=
  ∀ ⦃s s'⦄, Lock s → emit s = .ok s' → Follows s s'

variable {ctx} {emit : BallotProtocol N V H → Except SCPError (BallotProtocol N V H)}

theorem checkHeardFromQuorum_follows {s : BallotProtocol N V H} (hs : Lock s) :
    Follows s (checkHeardFromQuorum ctx s) := by
  unfold checkHeardFromQuorum
  split
  · exact .of_frame hs rfl rfl rfl rfl rfl
  · exact .refl hs

theorem setPrepared_follows {ballot : SCPBallot V} {s : BallotProtocol N V H} (hs : Lock s) :
    Follows s (setPrepared ballot s).2 := by
  unfold setPrepared
  split
  · split
    · exact .of_frame hs rfl rfl rfl rfl rfl
    · split
      · exact .of_frame hs rfl rfl rfl rfl rfl
      · exact .refl hs
    · exact .refl hs
  · exact .of_frame hs rfl rfl rfl rfl rfl

theorem bumpStateAt_follows {value : V} {n : uint32} {s s' : BallotProtocol N V H} {r : Bool}
    (hemit : EmitKeeps emit) (hs : Lock s) (h : bumpStateAt ctx emit value n s = .ok (r, s')) : Follows s s' := by
  unfold bumpStateAt at h
  split at h
  · rw [Except.snd_eq_of_pure_eq_ok h]
    exact .refl hs
  obtain ⟨⟨updated, s₁⟩, h₁, h⟩ := Except.bind_eq_ok.mp h
  refine (updateCurrentValue_follows hs h₁).trans fun hs₁ => ?_
  dsimp only at h
  split at h
  · obtain ⟨s₂, h₂, h⟩ := Except.bind_eq_ok.mp h
    rw [Except.snd_eq_of_pure_eq_ok h]
    exact (hemit hs₁ h₂).trans checkHeardFromQuorum_follows
  · rw [Except.snd_eq_of_pure_eq_ok h]
    exact .refl hs₁

theorem bumpState_follows {value : V} {force : Bool} {s s' : BallotProtocol N V H} {r : Bool}
    (hemit : EmitKeeps emit) (hs : Lock s) (h : bumpState ctx emit value force s = .ok (r, s')) : Follows s s' := by
  unfold bumpState at h
  split at h
  · rw [Except.snd_eq_of_pure_eq_ok h]
    exact .refl hs
  · exact bumpStateAt_follows hemit hs h

theorem abandonBallot_follows {candidate : Option V} {n : uint32} {s s' : BallotProtocol N V H} {r : Bool}
    (hemit : EmitKeeps emit) (hs : Lock s) (h : abandonBallot ctx emit candidate n s = .ok (r, s')) :
    Follows s s' := by
  unfold abandonBallot at h
  dsimp only at h
  -- every branch bumps, or returns the state unchanged
  repeat' split at h
  all_goals first
    | exact bumpState_follows hemit hs h
    | exact bumpStateAt_follows hemit hs h
    | (rw [Except.snd_eq_of_pure_eq_ok h]; exact .refl hs)

theorem emitIf_follows {didWork : Bool} {s s' : BallotProtocol N V H} {r : Bool} (hemit : EmitKeeps emit)
    (hs : Lock s)
    (h : (if didWork = true then do let self ← emit s; pure (true, self) else pure (false, s)) = .ok (r, s')) :
    Follows s s' := by
  split at h
  · obtain ⟨s₁, h₁, h⟩ := Except.bind_eq_ok.mp h
    rw [Except.snd_eq_of_pure_eq_ok h]
    exact hemit hs h₁
  · rw [Except.snd_eq_of_pure_eq_ok h]
    exact .refl hs

theorem clearCommitIfNeeded_follows {didWork : Bool} {s s' : BallotProtocol N V H} {r : Bool} (hs : Lock s)
    (h : clearCommitIfNeeded didWork s = .ok (r, s')) : Follows s s' := by
  unfold clearCommitIfNeeded at h
  dsimp only at h
  split_ifs at h
  · -- clearing `c` is asserted to happen only in PREPARE
    obtain ⟨_, hp, h⟩ := Except.bind_eq_ok.mp h
    rw [Except.snd_eq_of_pure_eq_ok h]
    have hp : s.phase = .prepare := by simpa using hp
    exact .of_prepare hs hp hp rfl
  · rw [Except.snd_eq_of_pure_eq_ok h]
    exact .refl hs

theorem setAcceptPrepared_follows {ballot : SCPBallot V} {s s' : BallotProtocol N V H} {r : Bool}
    (hemit : EmitKeeps emit) (hs : Lock s) (h : setAcceptPrepared emit ballot s = .ok (r, s')) : Follows s s' := by
  unfold setAcceptPrepared at h
  rcases hsp : setPrepared ballot s with ⟨didWork, s₁⟩
  have hs₁ : Follows s s₁ := by
    simpa only [hsp] using (setPrepared_follows hs : Follows s (setPrepared ballot s).2)
  rw [hsp] at h
  obtain ⟨⟨didWork₂, s₂⟩, h₂, h⟩ := Except.bind_eq_ok.mp h
  exact hs₁.trans fun hs₁' => (clearCommitIfNeeded_follows hs₁' h₂).trans fun hs₂ => emitIf_follows hemit hs₂ h

theorem acceptPreparedLoop_follows {candidates : List (SCPBallot V)} {s s' : BallotProtocol N V H} {r : Bool}
    (hemit : EmitKeeps emit) (hs : Lock s) (h : acceptPreparedLoop ctx emit candidates s = .ok (r, s')) :
    Follows s s' := by
  induction candidates generalizing r with
  | nil =>
    rw [acceptPreparedLoop.eq_def] at h
    rw [Except.snd_eq_of_pure_eq_ok h]
    exact .refl hs
  | cons ballot rest ih =>
    rw [acceptPreparedLoop.eq_def] at h
    obtain ⟨skip, -, h⟩ := Except.bind_eq_ok.mp h
    split at h
    · exact ih h
    · split at h
      · exact setAcceptPrepared_follows hemit hs h
      · exact ih h

theorem attemptAcceptPrepared_follows {hint : SCPStatement N V H} {s s' : BallotProtocol N V H} {r : Bool}
    (hemit : EmitKeeps emit) (hs : Lock s) (h : attemptAcceptPrepared ctx emit hint s = .ok (r, s')) :
    Follows s s' := by
  unfold attemptAcceptPrepared at h
  split at h
  · rw [Except.snd_eq_of_pure_eq_ok h]
    exact .refl hs
  · exact acceptPreparedLoop_follows hemit hs h

theorem setConfirmedBallots_frame {newC newH : SCPBallot V} {s s' : BallotProtocol N V H} {r : Bool}
    (h : setConfirmedBallots newC newH s = .ok (r, s')) : s'.phase = s.phase ∧ s'.externalized = s.externalized := by
  unfold setConfirmedBallots at h
  split_ifs at h <;>
    simp only [Except.bind_eq_ok, Except.pure_eq_ok, Prod.mk.injEq, dbgAssert_eq_ok] at h
  all_goals
    obtain ⟨_, _, _, rfl⟩ := h
    exact ⟨rfl, rfl⟩

theorem setConfirmPrepared_follows {newC newH : SCPBallot V} {s s' : BallotProtocol N V H} {r : Bool}
    (hemit : EmitKeeps emit) (hs : Lock s) (hp : s.phase = .prepare)
    (h : setConfirmPrepared emit newC newH s = .ok (r, s')) : Follows s s' := by
  unfold setConfirmPrepared at h
  obtain ⟨⟨didWork, s₁⟩, h₁, h⟩ := Except.bind_eq_ok.mp h
  obtain ⟨hp₁, hx₁⟩ := setConfirmedBallots_frame h₁
  have hs₁ : Follows s s₁ := .of_prepare hs hp (hp₁.trans hp) hx₁
  obtain ⟨⟨bumped, s₂⟩, h₂, h⟩ := Except.bind_eq_ok.mp h
  refine hs₁.trans fun hs₁' => ?_
  refine (updateCurrentIfNeeded_follows hs₁' (.of_prepare (hp₁.trans hp)) h₂).trans fun hs₂ => ?_
  exact emitIf_follows hemit hs₂ h

theorem attemptConfirmPrepared_follows {hint : SCPStatement N V H} {s s' : BallotProtocol N V H} {r : Bool}
    (hemit : EmitKeeps emit) (hs : Lock s) (h : attemptConfirmPrepared ctx emit hint s = .ok (r, s')) :
    Follows s s' := by
  unfold attemptConfirmPrepared at h
  split at h
  · rw [Except.snd_eq_of_pure_eq_ok h]
    exact .refl hs
  rename_i hguard
  have hp : s.phase = .prepare := by
    simp only [Bool.or_eq_true, decide_eq_true_eq, not_or] at hguard
    exact not_not.mp hguard.1
  split at h
  · rw [Except.snd_eq_of_pure_eq_ok h]
    exact .refl hs
  · exact setConfirmPrepared_follows hemit hs hp h

theorem acceptCommitBallots_snd (c h : SCPBallot V) (s : BallotProtocol N V H) :
    (acceptCommitBallots c h s).2 = { s with commit := some c, highBallot := some h } := by
  unfold acceptCommitBallots
  dsimp only
  split_ifs with hchanged
  · rfl
  · -- nothing changed: `c` and `h` were already the accepted ones
    rcases hh : s.highBallot with _ | hb <;> rcases hc : s.commit with _ | cb <;> simp [hh, hc] at hchanged
    obtain ⟨rfl, rfl⟩ := hchanged
    cases s
    simp_all

theorem updateCurrentIfNeeded_ok {ballot : SCPBallot V} {s s' : BallotProtocol N V H} {r : Bool}
    (h : updateCurrentIfNeeded ballot s = .ok (r, s')) :
    (s' = s ∧ ∃ b, s.currentBallot = some b ∧ ¬ b < ballot) ∨ bumpToBallot ballot true s = .ok s' := by
  unfold updateCurrentIfNeeded at h
  split at h
  · obtain ⟨s₁, h₁, h⟩ := Except.bind_eq_ok.mp h
    rw [Except.snd_eq_of_pure_eq_ok h]
    exact .inr h₁
  · rename_i hlt
    refine .inl ⟨Except.snd_eq_of_pure_eq_ok h, ?_⟩
    cases hb : s.currentBallot with
    | none => simp [hb] at hlt
    | some b => exact ⟨b, rfl, by simpa [hb] using hlt⟩

theorem lockedOn_of_updateCurrentIfNeeded {v : V} {hb : SCPBallot V} {s s' : BallotProtocol N V H} {r : Bool}
    (hc : s.commit.map (·.value) = some v) (hh : s.highBallot = some hb) (hhv : hb.value = v)
    (hcur : s.currentBallot.all (fun b => b.value = v) = true) (h : updateCurrentIfNeeded hb s = .ok (r, s')) :
    LockedOn v s' ∧ s'.phase = s.phase ∧ s'.externalized = s.externalized := by
  rcases updateCurrentIfNeeded_ok h with ⟨rfl, b, hb', -⟩ | hbump
  · refine ⟨⟨?_, hc, by simp [hh, hhv]⟩, rfl, rfl⟩
    simpa [hb'] using hcur
  · obtain ⟨-, hphase, hb', hx, -, hkeep⟩ := bumpToBallot_ok hbump
    obtain ⟨hh', hc'⟩ := hkeep (by simp [hh])
    exact ⟨⟨by simp [hb', hhv], hc' ▸ hc, by simp [hh', hh, hhv]⟩, hphase, hx⟩

theorem enterConfirmPhase_ok {h : SCPBallot V} {didWork : Bool} {s s' : BallotProtocol N V H} {r : Bool}
    (hres : enterConfirmPhase h didWork s = .ok (r, s')) :
    (s.phase ≠ .prepare ∧ s' = s ∧ r = didWork) ∨
      (s.phase = .prepare ∧ r = true ∧ s'.phase = .confirm ∧ s'.externalized = s.externalized ∧
        (s.highBallot = some h → s'.highBallot = some h ∧ s'.commit = s.commit ∧
          s'.currentBallot.all (areBallotsLessAndCompatible h) = true)) := by
  unfold enterConfirmPhase at hres
  split at hres
  · rename_i hp
    obtain ⟨s₁, h₁, hres⟩ := Except.bind_eq_ok.mp hres
    simp only [Except.pure_eq_ok, Prod.mk.injEq] at hres
    obtain ⟨rfl, rfl⟩ := hres
    refine .inr ⟨hp, rfl, ?_⟩
    split at h₁
    · -- `b` moves to `h`
      obtain ⟨-, hphase, hb, hx, -, hkeep⟩ := bumpToBallot_ok h₁
      refine ⟨hphase, hx, fun hh => ?_⟩
      obtain ⟨hh', hc'⟩ := hkeep (by simp [hh])
      exact ⟨hh'.trans hh, hc', by simp [hb]⟩
    · rename_i hnot
      rw [Except.pure_eq_ok] at h₁
      subst h₁
      refine ⟨rfl, rfl, fun hh => ⟨hh, rfl, ?_⟩⟩
      simpa [Option.all_eq_true, Option.any_eq_true] using hnot
  · simp only [Except.pure_eq_ok, Prod.mk.injEq] at hres
    obtain ⟨rfl, rfl⟩ := hres
    exact .inl ⟨by assumption, rfl, rfl⟩

theorem Follows.of_lockedOn {v : V} {s s' : BallotProtocol N V H} (hs : Lock s) (hne : s.phase ≠ .externalize)
    (hv : ∀ w, s.phase ≠ .prepare → LockedOn w s → w = v) (hv' : LockedOn v s')
    (hrank : s.phase.rank ≤ s'.phase.rank) (hx : s'.externalized = s.externalized) : Follows s s' := by
  have hx₀ : s.externalized = [] := by
    rcases hs.externalized with h | ⟨_, hp, _⟩
    · exact h
    · exact absurd hp hne
  refine ⟨⟨fun _ => ⟨v, hv'⟩, .inl (hx.trans hx₀)⟩, ⟨hrank, fun w hp hw => ?_, fun hp => absurd hp hne⟩⟩
  rw [hv w hp hw]
  exact hv'

theorem setAcceptCommit_follows {c h : SCPBallot V} {s s' : BallotProtocol N V H} {r : Bool}
    (hemit : EmitKeeps emit) (hs : Lock s) (hne : s.phase ≠ .externalize) (hfit : Fits h s)
    (hch : c.value = h.value) (hres : setAcceptCommit emit c h s = .ok (r, s')) : Follows s s' := by
  unfold setAcceptCommit at hres
  rcases hac : acceptCommitBallots c h { s with valueOverride := some h.value } with ⟨d₁, s₁⟩
  have hs₁ : s₁ = { s with valueOverride := some h.value, commit := some c, highBallot := some h } := by
    simpa [hac] using acceptCommitBallots_snd c h { s with valueOverride := some h.value }
  rw [hac] at hres
  subst hs₁
  obtain ⟨⟨d₂, s₂⟩, h₂, hrest⟩ := Except.bind_eq_ok.mp hres
  clear hres
  have hv : ∀ w, s.phase ≠ .prepare → LockedOn w s → w = h.value := fun w hp hw => (hfit w hp hw).symm
  have hend : s₂.phase ≠ .prepare → s.phase.rank ≤ s₂.phase.rank → s₂.externalized = s.externalized →
      s₂.commit = some c → s₂.highBallot = some h → s₂.currentBallot.all (fun b => b.value = h.value) = true →
      d₂ = true → Follows s s' := by
    intro hp₂ hrank hx₂ hc₂ hh₂ hb₂ hd₂
    simp only [hd₂, ↓reduceIte] at hrest
    obtain ⟨hb, hderef, hres⟩ := Except.bind_eq_ok.mp hrest
    cases (deref_eq_ok.mp hderef).symm.trans hh₂
    obtain ⟨⟨_, s₃⟩, h₃, hres⟩ := Except.bind_eq_ok.mp hres
    obtain ⟨hv₃, hp₃, hx₃⟩ := lockedOn_of_updateCurrentIfNeeded (by simp [hc₂, hch]) hh₂ rfl hb₂ h₃
    have hs₃ : Follows s s₃ := .of_lockedOn hs hne hv hv₃ (hp₃ ▸ hrank) (hx₃.trans hx₂)
    obtain ⟨s₄, h₄, hres⟩ := Except.bind_eq_ok.mp hres
    rw [Except.snd_eq_of_pure_eq_ok hres]
    exact hs₃.trans fun hs₃' => hemit hs₃' h₄
  rcases enterConfirmPhase_ok h₂ with ⟨hp, hs₂, hd₂⟩ | ⟨hp, hd₂, hp₂, hx₂, hkeep⟩
  · -- already in CONFIRM, locked on `h`'s value
    subst hs₂ hd₂
    obtain ⟨v, hlocked⟩ := hs.locked hp
    have hb₁ : s.currentBallot.map (·.value) = some h.value := hv v hp hlocked ▸ hlocked.1
    cases d₂
    · simp only [Bool.false_eq_true, ↓reduceIte] at hrest
      rw [Except.snd_eq_of_pure_eq_ok hrest]
      exact .of_lockedOn hs hne hv ⟨hb₁, by simp [hch], by simp⟩ le_rfl rfl
    · obtain ⟨b, hb, hbv⟩ := Option.map_eq_some_iff.mp hb₁
      exact hend hp le_rfl rfl rfl rfl (by simp [hb, hbv]) rfl
  · -- from PREPARE into CONFIRM
    obtain ⟨hh₂, hc₂, hb₂⟩ := hkeep rfl
    have hp : s.phase = .prepare := hp
    refine hend (by simp [hp₂]) (by simp [hp, hp₂, SCPPhase.rank]) hx₂ hc₂ hh₂ ?_ hd₂
    simp only [Option.all_eq_true, areBallotsLessAndCompatible_iff] at hb₂ ⊢
    exact fun b hb => by simpa using (hb₂ b hb).2.symm

theorem attemptAcceptCommit_follows {hint : SCPStatement N V H} {s s' : BallotProtocol N V H} {r : Bool}
    (hemit : EmitKeeps emit) (hs : Lock s) (h : attemptAcceptCommit ctx emit hint s = .ok (r, s')) :
    Follows s s' := by
  unfold attemptAcceptCommit at h
  split at h
  · rw [Except.snd_eq_of_pure_eq_ok h]
    exact .refl hs
  rename_i hne
  dsimp only at h
  split at h
  · rw [Except.snd_eq_of_pure_eq_ok h]
    exact .refl hs
  rename_i ballot _
  obtain ⟨compatible, hcompat, h⟩ := Except.bind_eq_ok.mp h
  -- in CONFIRM the hint's value is `h`'s, hence the locked one
  have hfit : compatible = true → ∀ n, Fits ⟨n, ballot.value⟩ s := by
    intro hc n v hp hv
    have hconfirm : s.phase = .confirm := by
      cases hph : s.phase <;> simp_all
    obtain ⟨hb, hhb, hbv⟩ := Option.map_eq_some_iff.mp hv.2.2
    simp only [hconfirm, ↓reduceIte, Except.bind_eq_ok, deref_eq_ok, Except.pure_eq_ok] at hcompat
    obtain ⟨hb', hhb', rfl⟩ := hcompat
    cases hhb.symm.trans hhb'
    simp only [areBallotsCompatible_iff] at hc
    exact hc.trans hbv
  split at h
  · rw [Except.snd_eq_of_pure_eq_ok h]
    exact .refl hs
  rename_i hc
  split at h
  · rw [Except.snd_eq_of_pure_eq_ok h]
    exact .refl hs
  generalize findExtendedInterval _ (0, 0) _ = candidate at h
  split at h
  · obtain ⟨raises, -, h⟩ := Except.bind_eq_ok.mp h
    split at h
    · refine setAcceptCommit_follows hemit hs hne (hfit (by simpa using hc) candidate.2) ?_ h
      rfl
    · rw [Except.snd_eq_of_pure_eq_ok h]
      exact .refl hs
  · rw [Except.snd_eq_of_pure_eq_ok h]
    exact .refl hs

theorem all_value_of_map_eq_some {o : Option (SCPBallot V)} {v : V} (h : o.map (·.value) = some v) :
    o.all (fun b => b.value = v) = true := by
  obtain ⟨b, rfl, rfl⟩ := Option.map_eq_some_iff.mp h
  simp

theorem setConfirmCommit_follows {c h : SCPBallot V} {s s' : BallotProtocol N V H} {r : Bool}
    (hemit : EmitKeeps emit) (hs : Lock s) (hp : s.phase = .confirm) (hfit : Fits h s) (hch : c.value = h.value)
    (hres : setConfirmCommit emit c h s = .ok (r, s')) : Follows s s' := by
  unfold setConfirmCommit at hres
  obtain ⟨⟨_, s₂⟩, h₂, hres⟩ := Except.bind_eq_ok.mp hres
  have hnp : s.phase ≠ .prepare := by simp [hp]
  obtain ⟨v, hv⟩ := hs.locked hnp
  have hvh : v = h.value := (hfit v hnp hv).symm
  have hx₀ : s.externalized = [] := by
    rcases hs.externalized with hx | ⟨_, hext, _⟩
    · exact hx
    · simp [hp] at hext
  have hc₁ : ({ s with commit := some c, highBallot := some h } : BallotProtocol N V H).commit.map (·.value) =
      some h.value := by
    simp [hch]
  obtain ⟨hv₂, hp₂, hx₂⟩ := lockedOn_of_updateCurrentIfNeeded hc₁ rfl rfl (all_value_of_map_eq_some (hvh ▸ hv.1)) h₂
  obtain ⟨s₃, h₃, hres⟩ := Except.bind_eq_ok.mp hres
  have hs₂' : Lock { s₂ with phase := .externalize } :=
    ⟨fun _ => ⟨h.value, hv₂⟩, .inl (hx₂.trans hx₀)⟩
  obtain ⟨hs₃, hev₃⟩ := hemit hs₂' h₃
  have hv₃ : LockedOn h.value s₃ := hev₃.locked h.value (by simp) hv₂
  have hp₃ : s₃.phase = .externalize := SCPPhase.eq_externalize_of_rank_le rfl hev₃.phase_le
  have hx₃ : s₃.externalized = [] := (hev₃.externalized rfl).trans (hx₂.trans hx₀)
  obtain ⟨c₃, hc₃, hres⟩ := Except.bind_eq_ok.mp hres
  rw [Except.snd_eq_of_pure_eq_ok hres]
  have hcv : c₃.value = h.value := by
    simpa [deref_eq_ok.mp hc₃] using hv₃.2.1
  -- `valueExternalized` is called once, with the locked value
  refine ⟨⟨fun _ => ⟨h.value, hv₃⟩, .inr ⟨h.value, hp₃, hv₃, by simp [hx₃, hcv]⟩⟩, ⟨?_, ?_, ?_⟩⟩
  · simp [hp, hp₃, SCPPhase.rank]
  · intro w _ hw
    obtain rfl : w = h.value := (hv.unique hw).symm.trans hvh
    exact hv₃
  · intro hext
    simp [hp] at hext

theorem attemptConfirmCommit_follows {hint : SCPStatement N V H} {s s' : BallotProtocol N V H} {r : Bool}
    (hemit : EmitKeeps emit) (hs : Lock s) (h : attemptConfirmCommit ctx emit hint s = .ok (r, s')) :
    Follows s s' := by
  unfold attemptConfirmCommit at h
  split at h
  · rw [Except.snd_eq_of_pure_eq_ok h]
    exact .refl hs
  rename_i hp
  have hp : s.phase = .confirm := by simpa using hp
  split at h
  · rename_i c hc
    dsimp only at h
    split at h
    · rw [Except.snd_eq_of_pure_eq_ok h]
      exact .refl hs
    rename_i ballot _
    split at h
    · rw [Except.snd_eq_of_pure_eq_ok h]
      exact .refl hs
    rename_i hcompat
    have hfit : ∀ n, Fits ⟨n, ballot.value⟩ s := by
      intro n v hnp hv
      simp only [Bool.not_eq_true', Bool.not_eq_false, areBallotsCompatible_iff] at hcompat
      obtain ⟨c', hc', hcv⟩ := Option.map_eq_some_iff.mp hv.2.1
      cases hc.symm.trans hc'
      exact hcompat.trans hcv
    generalize findExtendedInterval _ (0, 0) _ = candidate at h
    split at h
    · refine setConfirmCommit_follows hemit hs hp (hfit candidate.2) ?_ h
      rfl
    · rw [Except.snd_eq_of_pure_eq_ok h]
      exact .refl hs
  · rw [Except.snd_eq_of_pure_eq_ok h]
    exact .refl hs

theorem attemptBump_follows {candidate : Option V} {s s' : BallotProtocol N V H} {r : Bool}
    (hemit : EmitKeeps emit) (hs : Lock s) (h : attemptBump ctx emit candidate s = .ok (r, s')) : Follows s s' := by
  unfold attemptBump at h
  split at h
  · rw [Except.snd_eq_of_pure_eq_ok h]
    exact .refl hs
  dsimp only at h
  split at h
  · rw [Except.snd_eq_of_pure_eq_ok h]
    exact .refl hs
  split at h
  · exact abandonBallot_follows hemit hs h
  · rw [Except.snd_eq_of_pure_eq_ok h]
    exact .refl hs

theorem bumpLoop_follows {candidate : Option V} {fuel : ℕ} {s s' : BallotProtocol N V H} {r : Bool}
    (hemit : EmitKeeps emit) (hs : Lock s) (h : bumpLoop ctx emit candidate fuel s = .ok (r, s')) :
    Follows s s' := by
  induction fuel generalizing s s' r with
  | zero =>
    rw [bumpLoop] at h
    rw [Except.snd_eq_of_pure_eq_ok h]
    exact .refl hs
  | succ fuel ih =>
    rw [bumpLoop] at h
    obtain ⟨⟨didBump, s₁⟩, h₁, h⟩ := Except.bind_eq_ok.mp h
    refine (attemptBump_follows hemit hs h₁).trans fun hs₁ => ?_
    dsimp only at h
    split at h
    · obtain ⟨⟨_, s₂⟩, h₂, h⟩ := Except.bind_eq_ok.mp h
      rw [Except.snd_eq_of_pure_eq_ok h]
      exact ih hs₁ h₂
    · rw [Except.snd_eq_of_pure_eq_ok h]
      exact .refl hs₁

theorem sendLatestEnvelope_follows {s : BallotProtocol N V H} (hs : Lock s) : Follows s (sendLatestEnvelope s) := by
  unfold sendLatestEnvelope
  split
  · split
    · exact .of_frame hs rfl rfl rfl rfl rfl
    · exact .refl hs
  · exact .refl hs

theorem advanceSlot_follows {candidate : Option V} {hint : SCPStatement N V H} {s s' : BallotProtocol N V H}
    (hemit : EmitKeeps emit) (hs : Lock s) (h : advanceSlot ctx emit candidate hint s = .ok s') : Follows s s' := by
  unfold advanceSlot at h
  dsimp only at h
  split at h
  · obtain ⟨_, hthrow, -⟩ := Except.bind_eq_ok.mp h
    exact absurd hthrow Except.throw_ne_ok
  -- the level of nesting is not part of the lock
  have hs₀ : Follows s { s with currentMessageLevel := s.currentMessageLevel + 1 } := .of_frame hs rfl rfl rfl rfl rfl
  obtain ⟨⟨_, s₁⟩, h₁, h⟩ := Except.bind_eq_ok.mp h
  obtain ⟨⟨_, s₂⟩, h₂, h⟩ := Except.bind_eq_ok.mp h
  obtain ⟨⟨_, s₃⟩, h₃, h⟩ := Except.bind_eq_ok.mp h
  obtain ⟨⟨_, s₄⟩, h₄, h⟩ := Except.bind_eq_ok.mp h
  obtain ⟨⟨didWork, s₅⟩, h₅, h⟩ := Except.bind_eq_ok.mp h
  have hs₅ : Lock s₄ → Follows s₄ s₅ := by
    intro hs₄
    split at h₅
    · obtain ⟨⟨_, s₆⟩, h₆, h₅⟩ := Except.bind_eq_ok.mp h₅
      rw [Except.snd_eq_of_pure_eq_ok h₅]
      exact (bumpLoop_follows hemit hs₄ h₆).trans fun hs₆ => checkHeardFromQuorum_follows hs₆
    · rw [Except.snd_eq_of_pure_eq_ok h₅]
      exact .refl hs₄
  rw [Except.pure_eq_ok] at h
  subst h
  refine hs₀.trans fun hs₀' => (attemptAcceptPrepared_follows hemit hs₀' h₁).trans fun hs₁ =>
    (attemptConfirmPrepared_follows hemit hs₁ h₂).trans fun hs₂ =>
    (attemptAcceptCommit_follows hemit hs₂ h₃).trans fun hs₃ =>
    (attemptConfirmCommit_follows hemit hs₃ h₄).trans fun hs₄ => (hs₅ hs₄).trans fun hs₅' => ?_
  have hs₆ : Follows s₅ { s₅ with currentMessageLevel := s₅.currentMessageLevel - 1 } :=
    .of_frame hs₅' rfl rfl rfl rfl rfl
  refine hs₆.trans fun hs₆' => ?_
  split
  · exact sendLatestEnvelope_follows hs₆'
  · exact .refl hs₆'

theorem processEnvelopeWith_follows {candidate : Option V} {st : SCPStatement N V H} {self : Bool}
    {s s' : BallotProtocol N V H} {r : EnvelopeState} (hemit : EmitKeeps emit) (hs : Lock s)
    (h : processEnvelopeWith ctx emit candidate st self s = .ok (r, s')) : Follows s s' := by
  unfold processEnvelopeWith at h
  split at h
  · rw [Except.snd_eq_of_pure_eq_ok h]
    exact .refl hs
  split at h
  · rw [Except.snd_eq_of_pure_eq_ok h]
    exact .refl hs
  dsimp only at h
  split at h
  · rw [Except.snd_eq_of_pure_eq_ok h]
    exact .refl hs
  split at h
  · -- before EXTERNALIZE: record the statement and advance the slot
    obtain ⟨s₁, h₁, h⟩ := Except.bind_eq_ok.mp h
    rw [Except.snd_eq_of_pure_eq_ok h]
    have hs₀ : Follows s (recordEnvelope st
        (if validateValues ctx st = .maybeValidValue then { s with fullyValidated := false } else s)) := by
      split
      · exact .of_frame hs rfl rfl rfl rfl rfl
      · exact .of_frame hs rfl rfl rfl rfl rfl
    exact hs₀.trans fun hs₀' => advanceSlot_follows hemit hs₀' h₁
  · -- after EXTERNALIZE: only record a statement on the externalized value
    obtain ⟨c, -, h⟩ := Except.bind_eq_ok.mp h
    split at h
    · rw [Except.snd_eq_of_pure_eq_ok h]
      exact .of_frame hs rfl rfl rfl rfl rfl
    · rw [Except.snd_eq_of_pure_eq_ok h]
      exact .refl hs

end Emit

theorem emitCurrentStateStatement_follows {ctx : SlotContext N V H}
    {process : SCPStatement N V H → BallotProtocol N V H → Except SCPError (EnvelopeState × BallotProtocol N V H)}
    (hprocess : ∀ ⦃st s r s'⦄, Lock s → process st s = .ok (r, s') → Follows s s') :
    EmitKeeps (emitCurrentStateStatement ctx process) := by
  intro s s' hs h
  unfold emitCurrentStateStatement at h
  obtain ⟨statement, -, h⟩ := Except.bind_eq_ok.mp h
  dsimp only at h
  split at h
  · rw [Except.pure_eq_ok] at h
    subst h
    exact .refl hs
  obtain ⟨⟨res, s₁⟩, h₁, h⟩ := Except.bind_eq_ok.mp h
  refine (hprocess hs h₁).trans fun hs₁ => ?_
  split at h
  · split at h
    · rw [Except.pure_eq_ok] at h
      subst h
      have hs₂ : Follows s₁ { s₁ with lastEnvelope := some statement, lastEnvelopeSent := false } :=
        .of_frame hs₁ rfl rfl rfl rfl rfl
      exact hs₂.trans fun hs₂' => sendLatestEnvelope_follows hs₂'
    · rw [Except.pure_eq_ok] at h
      subst h
      exact .refl hs₁
  · exact absurd h Except.throw_ne_ok

theorem processEnvelope_follows {ctx : SlotContext N V H} {candidate : Option V} {fuel : ℕ}
    {st : SCPStatement N V H} {self : Bool} {s s' : BallotProtocol N V H} {r : EnvelopeState} (hs : Lock s)
    (h : processEnvelope ctx candidate fuel st self s = .ok (r, s')) : Follows s s' := by
  induction fuel generalizing st self s s' r with
  | zero =>
    rw [processEnvelope] at h
    exact absurd h Except.throw_ne_ok
  | succ fuel ih =>
    rw [processEnvelope] at h
    exact processEnvelopeWith_follows (emitCurrentStateStatement_follows fun _ _ _ _ hs h => ih hs h) hs h

theorem emitTop_keeps {ctx : SlotContext N V H} {candidate : Option V} : EmitKeeps (emitTop ctx candidate) :=
  emitCurrentStateStatement_follows fun _ _ _ _ hs h => processEnvelope_follows hs h

theorem step_follows {ctx : SlotContext N V H} {candidate : Option V} {input : BallotInput N V H}
    {s s' : BallotProtocol N V H} (hs : Lock s) (h : step ctx candidate input s = .ok s') : Follows s s' := by
  cases input with
  | processEnvelope st =>
    obtain ⟨⟨_, s₁⟩, h₁, h⟩ := Except.bind_eq_ok.mp h
    rw [Except.pure_eq_ok] at h
    subst h
    exact processEnvelope_follows hs h₁
  | bumpState value force =>
    obtain ⟨⟨_, s₁⟩, h₁, h⟩ := Except.bind_eq_ok.mp h
    rw [Except.pure_eq_ok] at h
    subst h
    exact bumpState_follows emitTop_keeps hs h₁
  | abandonBallot =>
    obtain ⟨⟨_, s₁⟩, h₁, h⟩ := Except.bind_eq_ok.mp h
    rw [Except.pure_eq_ok] at h
    subst h
    exact abandonBallot_follows emitTop_keeps hs h₁
  | ballotProtocolTimerExpired =>
    obtain ⟨⟨_, s₁⟩, h₁, h⟩ := Except.bind_eq_ok.mp h
    rw [Except.pure_eq_ok] at h
    subst h
    have hs₀ : Follows s { s with timerExpCount := s.timerExpCount + 1 } := .of_frame hs rfl rfl rfl rfl rfl
    exact hs₀.trans fun hs₀' => abandonBallot_follows emitTop_keeps hs₀' h₁

theorem run_follows {ctx : SlotContext N V H} {inputs : List (Option V × BallotInput N V H)}
    {s s' : BallotProtocol N V H} (hs : Lock s) (h : run ctx inputs s = .ok s') : Follows s s' := by
  induction inputs generalizing s with
  | nil =>
    rw [run, Except.pure_eq_ok] at h
    subst h
    exact .refl hs
  | cons input rest ih =>
    obtain ⟨candidate, input⟩ := input
    obtain ⟨s₁, h₁, h⟩ := Except.bind_eq_ok.mp h
    exact (step_follows hs h₁).trans fun hs₁ => ih hs₁ h

theorem lock_fresh (isValidator : Bool) : Lock (fresh isValidator : BallotProtocol N V H) :=
  ⟨fun h => absurd rfl h, .inl rfl⟩

/-- Along every run of a slot, the phase only moves forward; once past PREPARE with commit `c`,
every later `b`, `c` and `h` carries `c`'s value; and `valueExternalized` is called at most
once, in EXTERNALIZE, with the commit's value. -/
theorem run_phase_forward_value_locked (ctx : SlotContext N V H) (isValidator : Bool)
    (inputs₁ inputs₂ : List (Option V × BallotInput N V H)) (s s' : BallotProtocol N V H)
    (h₁ : run ctx inputs₁ (fresh isValidator) = .ok s) (h₂ : run ctx inputs₂ s = .ok s') :
    s.phase.rank ≤ s'.phase.rank ∧
      (∀ c, s.phase ≠ .prepare → s.commit = some c → LockedOn c.value s') ∧
      s.externalized <+: s'.externalized ∧ s'.externalized.length ≤ 1 ∧
      ∀ x ∈ s'.externalized, s'.phase = .externalize ∧ s'.commit.map (·.value) = some x := by
  have hs : Lock s := (run_follows (lock_fresh isValidator) h₁).1
  obtain ⟨hs', hev⟩ := run_follows hs h₂
  refine ⟨hev.phase_le, fun c hp hc => ?_, ?_, ?_, fun x hx => ?_⟩
  · -- the lock of `s` is on the value of its commit
    obtain ⟨v, hv⟩ := hs.locked hp
    have hcv : c.value = v := by simpa [hc] using hv.2.1
    exact hcv ▸ hev.locked v hp hv
  · rcases hs.externalized with hx | ⟨_, hp, -, -⟩
    · simp [hx]
    · simp [hev.externalized hp]
  · rcases hs'.externalized with hx | ⟨_, -, -, hx⟩ <;> simp [hx]
  · rcases hs'.externalized with hx' | ⟨v, hp, hv, hx'⟩
    · simp [hx'] at hx
    · rw [hx', List.mem_singleton] at hx
      subst hx
      exact ⟨hp, hv.2.1⟩

/-- Node 1's EXTERNALIZE of `(1, 7)` takes node 0 to CONFIRM, and node 2's then to EXTERNALIZE. -/
theorem run_phase_forward_value_locked_confirm :
    ∃ s s' : BallotProtocol ℕ ℕ ℕ,
      run threeNodeContext [(none, .processEnvelope ⟨1, .externalize ⟨1, 7⟩ 1 1⟩)] (fresh true) = .ok s ∧
      run threeNodeContext [(none, .processEnvelope ⟨2, .externalize ⟨1, 7⟩ 1 2⟩)] s = .ok s' ∧
      s.phase = .confirm ∧ s'.phase = .externalize ∧
      (s.phase.rank ≤ s'.phase.rank ∧
        (∀ c, s.phase ≠ .prepare → s.commit = some c → LockedOn c.value s') ∧
        s.externalized <+: s'.externalized ∧ s'.externalized.length ≤ 1 ∧
        ∀ x ∈ s'.externalized, s'.phase = .externalize ∧ s'.commit.map (·.value) = some x) := by
  have hrun : (match run threeNodeContext [(none, .processEnvelope ⟨1, .externalize ⟨1, 7⟩ 1 1⟩)] (fresh true) with
      | .ok s => (match run threeNodeContext [(none, .processEnvelope ⟨2, .externalize ⟨1, 7⟩ 1 2⟩)] s with
        | .ok s' => decide (s.phase = .confirm ∧ s'.phase = .externalize)
        | .error _ => false)
      | .error _ => false) = true := by
    decide +kernel
  split at hrun
  next s h₁ =>
    split at hrun
    next s' h₂ =>
      obtain ⟨hp, hp'⟩ := of_decide_eq_true hrun
      exact ⟨s, s', h₁, h₂, hp, hp', run_phase_forward_value_locked threeNodeContext true _ _ s s' h₁ h₂⟩
    next => exact absurd hrun Bool.false_ne_true
  next => exact absurd hrun Bool.false_ne_true

end BallotProtocol

end HcnetCore.Scp
