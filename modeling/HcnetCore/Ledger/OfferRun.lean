import HcnetCore.Ledger.BestOfferSpec
import HcnetCore.Ledger.EntryState

/-! # Best offers over a run

The worst best offers of every `LedgerTxn` stay honest through a run: for each pair with a
worst best offer `W`, every offer the parent shows for the pair and no worse than `W` stays
recorded. `create`, `load`, `erase` and the drop of a handle lose no record the parent shows and
leave the worst best offers alone; `loadBestOffer` records the best offer it moves `W` to; and
`commit` merges the worst best offers of a child into a parent that then records what the child
recorded. With the tags and the order books kept as well, both best-offer queries answer at the
top of every stack a run reaches, so the fast path returns what the slow scan returns.
-/

namespace HcnetCore.Ledger

set_option autoImplicit false

variable {Asset K V : Type} [DecidableEq Asset] [DecidableEq K]

/-- `self'` still records every key that `self` records and the parent shows. -/
def KeepsRecords (parentNewest : InternalLedgerKey K → Option (InternalLedgerEntry Asset K V))
    (self self' : Impl Asset K V) : Prop :=
  ∀ key, (self.entry.lookup key).isSome → (parentNewest key).isSome → (self'.entry.lookup key).isSome

/-- What the worst-best-offer invariant needs of a change: the records the parent shows are
kept, and the worst best offers are as they were. -/
structure Keeps (parentNewest : InternalLedgerKey K → Option (InternalLedgerEntry Asset K V))
    (ltx ltx' : Impl Asset K V) : Prop where
  records : KeepsRecords parentNewest ltx ltx'
  worstBest : ltx'.worstBestOffer = ltx.worstBestOffer

section Keeps

variable {parentNewest : InternalLedgerKey K → Option (InternalLedgerEntry Asset K V)}
  {self self' self'' : Impl Asset K V}

omit [DecidableEq Asset] [DecidableEq K] in
theorem isSome_of_shownOffer {k : LedgerKey K} {le : OfferLedgerEntry Asset}
    (h : shownOffer parentNewest k = some le) : (parentNewest (.ledgerEntry k)).isSome := by
  obtain ⟨e, he, -⟩ := Option.bind_eq_some_iff.mp h
  rw [he]
  rfl

omit [DecidableEq Asset] in
theorem KeepsRecords.of_recordAt (hagree : EntriesAgree parentNewest self)
    (h : ∀ x, self'.entry.lookup x = self.entry.lookup x ∨
      ∃ p, recordAt (self.entry.lookup x) p = .ok (self'.entry.lookup x)) :
    KeepsRecords parentNewest self self' := by
  intro key hk hp
  rcases h key with heq | ⟨p, hAt⟩
  · rw [heq]
    exact hk
  · cases hNew : self'.entry.lookup key with
    | some q => rfl
    | none =>
      rw [hNew] at hAt
      obtain ⟨e, hOld, -⟩ := recordAt_eq_none hAt
      have hInit : parentNewest key = none := hagree.agrees key _ hOld
      simp [hInit] at hp

omit [DecidableEq Asset] in
theorem Keeps.refl (self : Impl Asset K V) : Keeps parentNewest self self :=
  ⟨fun _ hk _ => hk, rfl⟩

omit [DecidableEq Asset] in
theorem Keeps.trans (h₁ : Keeps parentNewest self self') (h₂ : Keeps parentNewest self' self'') :
    Keeps parentNewest self self'' :=
  ⟨fun key hk hp => h₂.records key (h₁.records key hk hp) hp, h₂.worstBest.trans h₁.worstBest⟩

omit [DecidableEq Asset] in
theorem Keeps.of_lookup_eq (h : ∀ x, self'.entry.lookup x = self.entry.lookup x)
    (hW : self'.worstBestOffer = self.worstBestOffer) : Keeps parentNewest self self' :=
  ⟨fun key hk _ => by rw [h key]; exact hk, hW⟩

theorem Keeps.updateEntry (hagree : EntriesAgree parentNewest self) {key : InternalLedgerKey K}
    {p : LedgerEntryPtr (InternalLedgerEntry Asset K V)} {eff : Bool}
    (h : self.updateEntry key p eff = .ok self') : Keeps parentNewest self self' := by
  obtain ⟨⟨hAt, hFrame⟩, -⟩ := Impl.updateEntry_recordedAt h
  refine ⟨KeepsRecords.of_recordAt hagree fun x => ?_, (Impl.updateEntry_ok h).2.1⟩
  by_cases hx : x = key
  · subst hx
    exact .inr ⟨p, hAt⟩
  · exact .inl (hFrame x hx)

theorem Keeps.updateEntryIfRecorded {key : InternalLedgerKey K} {eff : Bool}
    (h : self.updateEntryIfRecorded key eff = .ok self') : Keeps parentNewest self self' := by
  refine Keeps.of_lookup_eq (Impl.updateEntryIfRecorded_ok h).1 ?_
  unfold Impl.updateEntryIfRecorded at h
  split at h
  · cases h
    rfl
  · split at h
    · exact (Impl.updateEntry_ok h).2.1
    · cases h
      rfl

omit [DecidableEq Asset] in
theorem Keeps.modifyLoaded (key : InternalLedgerKey K)
    (modify : InternalLedgerEntry Asset K V → InternalLedgerEntry Asset K V) :
    Keeps parentNewest self (self.modifyLoaded key modify) := by
  refine ⟨fun x hx _ => ?_, ?_⟩
  · rw [Impl.modifyLoaded_lookup]
    split
    · rename_i hxKey
      subst hxKey
      simpa using hx
    · exact hx
  · unfold Impl.modifyLoaded
    split <;> rfl

omit [DecidableEq Asset] in
theorem Keeps.maybeUpdateLastModified (self : Impl Asset K V) :
    Keeps parentNewest self self.maybeUpdateLastModified := by
  refine ⟨fun x hx _ => ?_, (Impl.maybeUpdateLastModified_header self).2.2⟩
  rw [Impl.maybeUpdateLastModified_lookup]
  split
  · simpa using hx
  · exact hx

theorem Keeps.load (hagree : EntriesAgree parentNewest self) {key : InternalLedgerKey K}
    {res : Option (InternalLedgerEntry Asset K V)} (h : self.load parentNewest key = .ok (res, self')) :
    Keeps parentNewest self self' := by
  rcases Impl.load_steps parentNewest h with ⟨-, rfl⟩ | ⟨p, e, -, -, -, hu⟩
  · exact Keeps.refl _
  · exact Keeps.updateEntry hagree hu

theorem Keeps.create (hagree : EntriesAgree parentNewest self) {e : InternalLedgerEntry Asset K V}
    (h : self.create parentNewest e = .ok self') : Keeps parentNewest self self' := by
  obtain ⟨-, self₁, h₁, h₂⟩ := Impl.create_steps parentNewest h
  exact (Keeps.updateEntry hagree h₁).trans (Keeps.updateEntryIfRecorded h₂)

theorem Keeps.loadAndModify (hagree : EntriesAgree parentNewest self) {key : InternalLedgerKey K}
    {modify : InternalLedgerEntry Asset K V → InternalLedgerEntry Asset K V}
    {res : Option (InternalLedgerEntry Asset K V)}
    (h : self.loadAndModify parentNewest key modify = .ok (res, self')) : Keeps parentNewest self self' := by
  rcases Impl.loadAndModify_steps parentNewest h with ⟨-, rfl⟩ | ⟨e, self₁, -, h₁, h₂⟩
  · exact Keeps.refl _
  · exact ((Keeps.load hagree h₁).trans (Keeps.modifyLoaded key modify)).trans (Keeps.updateEntryIfRecorded h₂)

theorem Keeps.erase (hagree : EntriesAgree parentNewest self) {key : InternalLedgerKey K}
    (h : self.erase parentNewest key = .ok self') : Keeps parentNewest self self' := by
  unfold Impl.erase at h
  split at h
  · cases h
  · split at h
    · cases h
    · exact Keeps.updateEntry hagree h

theorem KeepsRecords.commitChild (hagree : EntriesAgree parentNewest self) {child : Impl Asset K V}
    (h : self.commitChild child = .ok self') : KeepsRecords parentNewest self self' := by
  obtain ⟨hOut, hIn, -, -⟩ := Impl.commitChild_ok h
  refine KeepsRecords.of_recordAt hagree fun x => ?_
  by_cases hx : x ∈ child.entry
  · obtain ⟨p, hp⟩ := Option.isSome_iff_exists.mp (AList.lookup_isSome.mpr hx)
    exact .inr ⟨p, hIn x p hp⟩
  · exact .inl (hOut x hx)

end Keeps

section WorstBest

variable {parentNewest : InternalLedgerKey K → Option (InternalLedgerEntry Asset K V)}
  {self self' : Impl Asset K V}

theorem WorstBestOk.fresh (ledgerSeq : ℕ) (flag : Bool) :
    WorstBestOk parentNewest (Impl.fresh ledgerSeq flag : Impl Asset K V) := by
  intro buying selling W hW
  simp [Impl.fresh] at hW

theorem WorstBestOk.keeps (hwbo : WorstBestOk parentNewest self) (h : Keeps parentNewest self self') :
    WorstBestOk parentNewest self' := by
  intro buying selling W hW le hle hnot
  rw [h.worstBest] at hW
  exact h.records _ (hwbo buying selling W hW le hle hnot) (isSome_of_shownOffer hle.1)

omit [DecidableEq K] in
theorem Impl.updateWorstBestOffer_lookup (self : Impl Asset K V) (assets : AssetPair Asset)
    (offerDesc : Option OfferDescriptor) {P : AssetPair Asset} {W : Option OfferDescriptor}
    (h : (self.updateWorstBestOffer assets offerDesc).worstBestOffer.lookup P = some W) :
    self.worstBestOffer.lookup P = some W ∨ P = assets ∧ W = offerDesc := by
  -- both branches that change the map insert `offerDesc` at `assets`
  have hInsert : (self.worstBestOffer.insert assets offerDesc).lookup P = some W →
      self.worstBestOffer.lookup P = some W ∨ P = assets ∧ W = offerDesc := by
    intro h'
    by_cases hP : P = assets
    · subst hP
      rw [AList.lookup_insert] at h'
      exact .inr ⟨rfl, (Option.some.inj h').symm⟩
    · rw [AList.lookup_insert_ne hP] at h'
      exact .inl h'
  unfold Impl.updateWorstBestOffer at h
  split at h
  · split at h
    · exact hInsert h
    · exact .inl h
  · exact hInsert h

omit [DecidableEq K] in
theorem Impl.foldl_updateWorstBestOffer_lookup
    (l : List (Sigma fun _ : AssetPair Asset => Option OfferDescriptor)) (self : Impl Asset K V)
    {P : AssetPair Asset} {W : Option OfferDescriptor}
    (h : (l.foldl (fun acc s => acc.updateWorstBestOffer s.1 s.2) self).worstBestOffer.lookup P = some W) :
    self.worstBestOffer.lookup P = some W ∨ ∃ d ∈ l, d.1 = P ∧ d.2 = W := by
  induction l generalizing self with
  | nil => exact .inl h
  | cons d l ih =>
    rcases ih _ h with h' | ⟨d', hd', hP, hW⟩
    · rcases Impl.updateWorstBestOffer_lookup self d.1 d.2 h' with h'' | ⟨hP, hW⟩
      · exact .inl h''
      · exact .inr ⟨d, List.mem_cons_self, hP.symm, hW.symm⟩
    · exact .inr ⟨d', List.mem_cons_of_mem _ hd', hP, hW⟩

theorem WorstBestOk.commitChild (hwbo : WorstBestOk parentNewest self) (hagree : EntriesAgree parentNewest self)
    {child : Impl Asset K V} (hc : WorstBestOk (self.getNewestVersion parentNewest) child)
    (h : self.commitChild child = .ok self') : WorstBestOk parentNewest self' := by
  have hkeep := KeepsRecords.commitChild hagree h
  obtain ⟨-, hIn, -, -⟩ := Impl.commitChild_ok h
  obtain ⟨self₁, h₁, rfl⟩ := Impl.commitChild_steps h
  have hW₁ : self₁.worstBestOffer = self.worstBestOffer :=
    AList.foldlM_invariant (fun s : Impl Asset K V => s.worstBestOffer = self.worstBestOffer) _ _
      (fun s _ s' _ hs hu => (Impl.updateEntry_ok hu).2.1.trans hs) self self₁ rfl h₁
  intro buying selling W hW le hle hnot
  rcases Impl.foldl_updateWorstBestOffer_lookup _ _ hW with hW' | ⟨d, hd, hdP, hdW⟩
  · rw [hW₁] at hW'
    exact hkeep _ (hwbo buying selling W hW' le hle hnot) (isSome_of_shownOffer hle.1)
  · have hWc : child.worstBestOffer.lookup ⟨buying, selling⟩ = some W := by
      rw [← hdP, ← hdW]
      exact AList.mem_lookup_iff.mpr hd
    cases hSelf : self.entry.lookup (.ledgerEntry le.key) with
    | some p => exact hkeep _ (by rw [hSelf]; rfl) (isSome_of_shownOffer hle.1)
    | none =>
      have hShown : IsCandidate (self.getNewestVersion parentNewest) buying selling none [] le :=
        (isCandidate_getNewestVersion_iff self parentNewest le).mpr (.inr ⟨hSelf, hle⟩)
      obtain ⟨q, hq⟩ := Option.isSome_iff_exists.mp (hc buying selling W hWc le hShown hnot)
      have hr := hIn _ q hq
      rw [hSelf] at hr
      have hNew : recordAt (none : Option (LedgerEntryPtr (InternalLedgerEntry Asset K V))) q = .ok (some q) := rfl
      rw [hNew, Except.ok.injEq] at hr
      rw [← hr]
      rfl

end WorstBest

section LoadBest

variable {sellerOf : ℤ → AccountID} {parentNewest : InternalLedgerKey K → Option (InternalLedgerEntry Asset K V)}
  {self self' : Impl Asset K V} {parentBest : BestOfferFn Asset} {buying selling : Asset}
  {res : Option (InternalLedgerEntry Asset K V)}

theorem Impl.loadBestOffer_steps
    (h : self.loadBestOffer parentNewest parentBest buying selling = .ok (res, self')) :
    ∃ best self₁, self.getBestOffer parentBest buying selling = .ok best ∧
      (best = none ∧ res = none ∧ self₁ = self ∨
        ∃ le, best = some le ∧ self.load parentNewest (.ledgerEntry le.key) = .ok (res, self₁)) ∧
      self' = self₁.updateWorstBestOffer ⟨buying, selling⟩ (best.map (·.offer.descriptor)) := by
  unfold Impl.loadBestOffer at h
  cases hBest : self.getBestOffer parentBest buying selling with
  | error msg => simp [hBest, bind, Except.bind] at h
  | ok best =>
    simp only [hBest, bind, Except.bind] at h
    cases best with
    | none =>
      simp only [pure, Except.pure, Except.ok.injEq, Prod.mk.injEq] at h
      exact ⟨none, self, rfl, .inl ⟨rfl, h.1.symm, rfl⟩, h.2.symm⟩
    | some le =>
      cases hl : self.load parentNewest (.ledgerEntry le.key) with
      | error msg => simp [hl] at h
      | ok r =>
        obtain ⟨res₁, self₁⟩ := r
        simp only [hl, pure, Except.pure, Except.ok.injEq, Prod.mk.injEq] at h
        obtain ⟨rfl, rfl⟩ := h
        exact ⟨some le, self₁, rfl, .inr ⟨le, rfl, hl⟩, rfl⟩

theorem EntriesAgree.loadBestOffer (hagree : EntriesAgree parentNewest self) (hpn : Keyed parentNewest)
    (h : self.loadBestOffer parentNewest parentBest buying selling = .ok (res, self')) :
    EntriesAgree parentNewest self' := by
  obtain ⟨best, self₁, -, hload, rfl⟩ := Impl.loadBestOffer_steps h
  have h₁ : EntriesAgree parentNewest self₁ := by
    rcases hload with ⟨-, -, rfl⟩ | ⟨le, -, hl⟩
    · exact hagree
    · exact hagree.load hpn hl
  exact h₁.of_lookup_eq fun x => by rw [(Impl.updateWorstBestOffer_fields self₁ _ _).1]

theorem Impl.loadBestOffer_kept (hkept : OffersKept sellerOf self) (hpn : ShownOk sellerOf parentNewest)
    (h : self.loadBestOffer parentNewest parentBest buying selling = .ok (res, self')) :
    RecordsOk sellerOf self' ∧ BookMatches self' (res.map InternalLedgerEntry.toKey) := by
  obtain ⟨best, self₁, -, hload, rfl⟩ := Impl.loadBestOffer_steps h
  obtain ⟨hEntry, hBooks, -⟩ := Impl.updateWorstBestOffer_fields self₁ ⟨buying, selling⟩ (best.map (·.offer.descriptor))
  have h₁ : RecordsOk sellerOf self₁ ∧ BookMatches self₁ (res.map InternalLedgerEntry.toKey) := by
    rcases hload with ⟨-, rfl, rfl⟩ | ⟨le, -, hl⟩
    · exact ⟨hkept.records, hkept.books⟩
    · obtain ⟨hrec, hbooks⟩ := hkept.load hpn hl
      -- the entry `load` finds is under the key it was asked for
      have hActive : res.map InternalLedgerEntry.toKey = if res.isSome then some (.ledgerEntry le.key) else none := by
        cases res with
        | none => rfl
        | some e =>
          obtain ⟨hRes, -⟩ := Impl.load_ok parentNewest hl
          rw [Option.map_some, ((hkept.records.shownOk hpn) _ e hRes.symm).1]
          rfl
      rw [hActive]
      exact ⟨hrec, hbooks⟩
  exact ⟨fun x q e hq he => h₁.1 x q e (hEntry ▸ hq) he, h₁.2.of_fields hEntry hBooks⟩

theorem WorstBestOk.loadBestOffer (hpn : ShownOk sellerOf parentNewest) (hkept : OffersKept sellerOf self)
    (hagree : EntriesAgree parentNewest self) (hwbo : WorstBestOk parentNewest self)
    (hparent : BestOfferCorrect parentNewest parentBest)
    (h : self.loadBestOffer parentNewest parentBest buying selling = .ok (res, self')) :
    WorstBestOk parentNewest self' := by
  obtain ⟨best, self₁, hBest, hload, rfl⟩ := Impl.loadBestOffer_steps h
  obtain ⟨r, hr, hleast⟩ := Impl.getBestOffer_correct hpn hkept hwbo hparent buying selling
  obtain rfl : best = r := Except.ok.inj (hBest.symm.trans hr)
  have hkeep : Keeps parentNewest self self₁ := by
    rcases hload with ⟨-, -, rfl⟩ | ⟨le, -, hl⟩
    · exact Keeps.refl _
    · exact Keeps.load hagree hl
  have hshown := hkept.records.shownOk hpn
  intro b s W hW c hc hnot
  rw [(Impl.updateWorstBestOffer_fields self₁ _ _).1]
  rcases Impl.updateWorstBestOffer_lookup self₁ _ _ hW with hW' | ⟨hP, rfl⟩
  · exact (hwbo.keeps hkeep) b s W hW' c hc hnot
  · obtain ⟨rfl, rfl⟩ := AssetPair.mk.inj hP
    cases hSelf : self.entry.lookup (.ledgerEntry c.key) with
    | some p => exact hkeep.records _ (by rw [hSelf]; rfl) (isSome_of_shownOffer hc.1)
    | none =>
      -- unrecorded, `c` is a candidate of the query that `loadBestOffer` made
      have hShown : IsCandidate (self.getNewestVersion parentNewest) _ _ none [] c :=
        (isCandidate_getNewestVersion_iff self parentNewest c).mpr (.inr ⟨hSelf, hc⟩)
      cases best with
      | none => exact absurd hShown (hleast c)
      | some le =>
        -- no worse than the least candidate `le`, `c` is `le`
        have hNotLt : ¬ le.sortKey < c.sortKey := by
          rw [← isBetterOffer_iff_sortKey (hshown.offerOk hleast.1.1).2 (hshown.offerOk hShown.1).2,
            hnot _ rfl]
          exact Bool.false_ne_true
        obtain rfl : c = le := hshown.eq_of_sortKey hShown.1 hleast.1.1
          (le_antisymm (not_lt.mp hNotLt) (hleast.2 c hShown))
        rcases hload with ⟨hNone, -⟩ | ⟨l, hl, hLoad⟩
        · cases hNone
        · obtain rfl := Option.some.inj hl
          obtain ⟨hRes, -, -, hSome⟩ := Impl.load_ok parentNewest hLoad
          obtain ⟨e, he, -⟩ := Option.bind_eq_some_iff.mp hShown.1
          obtain ⟨p, -, -, hRecorded, -⟩ := hSome e (hRes.trans he)
          rw [hRecorded]
          rfl

end LoadBest

/-- What the best-offer queries need of one `LedgerTxn` over a parent that shows `parentNewest`. -/
structure LevelOk (sellerOf : ℤ → AccountID)
    (parentNewest : InternalLedgerKey K → Option (InternalLedgerEntry Asset K V)) (ltx : Impl Asset K V) : Prop where
  agree : EntriesAgree parentNewest ltx
  kept : OffersKept sellerOf ltx
  worstBest : WorstBestOk parentNewest ltx

section Level

variable {sellerOf : ℤ → AccountID} {parentNewest : InternalLedgerKey K → Option (InternalLedgerEntry Asset K V)}
  {self self' : Impl Asset K V}

omit [DecidableEq Asset] [DecidableEq K] in
theorem ShownOk.keyed (h : ShownOk sellerOf parentNewest) : Keyed parentNewest :=
  fun key e he => (h key e he).1

theorem LevelOk.fresh (ledgerSeq : ℕ) (flag : Bool) :
    LevelOk sellerOf parentNewest (Impl.fresh ledgerSeq flag : Impl Asset K V) :=
  ⟨EntriesAgree.fresh _ _, OffersKept.fresh _ _, WorstBestOk.fresh _ _⟩

theorem LevelOk.create (hs : LevelOk sellerOf parentNewest self) {e : InternalLedgerEntry Asset K V}
    (he : EntryOk sellerOf e) (h : self.create parentNewest e = .ok self') : LevelOk sellerOf parentNewest self' :=
  ⟨hs.agree.create h, hs.kept.create he h, hs.worstBest.keeps (Keeps.create hs.agree h)⟩

theorem LevelOk.loadAndModify (hs : LevelOk sellerOf parentNewest self) (hpn : ShownOk sellerOf parentNewest)
    {key : InternalLedgerKey K} {modify : InternalLedgerEntry Asset K V → InternalLedgerEntry Asset K V}
    (hmodify : ∀ e, (modify e).toKey = e.toKey) (hok : ∀ e, EntryOk sellerOf e → EntryOk sellerOf (modify e))
    {res : Option (InternalLedgerEntry Asset K V)} (h : self.loadAndModify parentNewest key modify = .ok (res, self')) :
    LevelOk sellerOf parentNewest self' :=
  ⟨hs.agree.loadAndModify hpn.keyed hmodify h, hs.kept.loadAndModify hpn hmodify hok h,
    hs.worstBest.keeps (Keeps.loadAndModify hs.agree h)⟩

theorem LevelOk.erase (hs : LevelOk sellerOf parentNewest self) {key : InternalLedgerKey K}
    (h : self.erase parentNewest key = .ok self') : LevelOk sellerOf parentNewest self' :=
  ⟨hs.agree.erase h, hs.kept.erase h, hs.worstBest.keeps (Keeps.erase hs.agree h)⟩

theorem LevelOk.commitChild (hs : LevelOk sellerOf parentNewest self) {child : Impl Asset K V}
    (hc : LevelOk sellerOf (self.getNewestVersion parentNewest) child)
    (h : self.commitChild child.maybeUpdateLastModified = .ok self') : LevelOk sellerOf parentNewest self' :=
  ⟨hs.agree.commitChild hc.agree.maybeUpdateLastModified h,
    hs.kept.commitChild hc.kept.records.maybeUpdateLastModified h,
    hs.worstBest.commitChild hs.agree (hc.worstBest.keeps (Keeps.maybeUpdateLastModified child)) h⟩

theorem LevelOk.loadBestOffer (hs : LevelOk sellerOf parentNewest self) (hpn : ShownOk sellerOf parentNewest)
    {parentBest : BestOfferFn Asset} (hparent : BestOfferCorrect parentNewest parentBest) {buying selling : Asset}
    {res : Option (InternalLedgerEntry Asset K V)}
    (h : self.loadBestOffer parentNewest parentBest buying selling = .ok (res, self')) :
    (res = none → LevelOk sellerOf parentNewest self') ∧
      ∀ e self'', res = some e → self'.deactivate e.toKey = .ok self'' → LevelOk sellerOf parentNewest self'' := by
  have hagree := hs.agree.loadBestOffer hpn.keyed h
  have hwbo := WorstBestOk.loadBestOffer hpn hs.kept hs.agree hs.worstBest hparent h
  obtain ⟨hrec, hbooks⟩ := Impl.loadBestOffer_kept hs.kept hpn h
  refine ⟨fun hres => ?_, fun e self'' hres hd => ?_⟩
  · subst hres
    exact ⟨hagree, ⟨hrec, hbooks⟩, hwbo⟩
  · subst hres
    exact ⟨hagree.deactivate hd, OffersKept.deactivate hrec hbooks (.inr rfl) hd,
      hwbo.keeps (Keeps.updateEntryIfRecorded hd)⟩

end Level

/-- Every `LedgerTxn` of the stack is well kept over the one below it. -/
def StackOffers (root : Root Asset K V) (sellerOf : ℤ → AccountID) : List (Impl Asset K V) → Prop
  | [] => True
  | self :: parents => LevelOk sellerOf (newest root parents) self ∧ StackOffers root sellerOf parents

/-- The root's two best-offer queries answer for the offers it shows. -/
structure RootOffers.Correct (ro : RootOffers Asset) (root : Root Asset K V) : Prop where
  best : ∀ buying selling worseThan,
    IsBestOffer root.getNewestVersion buying selling worseThan [] (ro.getBestOffer buying selling worseThan)
  bestSlow : SlowOfferCorrect root.getNewestVersion ro.getBestOfferSlow

/-- An operation keeps entries as the ledger keeps them: `create` makes such an entry, and the
edit of `load` keeps one such. -/
def Op.Ok (sellerOf : ℤ → AccountID) : Op Asset K V → Prop
  | .create e => EntryOk sellerOf e
  | .load _ modify _ => ∀ e, EntryOk sellerOf e → EntryOk sellerOf (modify e)
  | _ => True

def OfferOp.Ok (sellerOf : ℤ → AccountID) : OfferOp Asset K V → Prop
  | .ledgerOp op => op.Ok sellerOf
  | .loadBestOffer _ _ => True

section Stack

variable {root : Root Asset K V} {ro : RootOffers Asset} {sellerOf : ℤ → AccountID}

theorem StackOffers.shownOk (hroot : ShownOk sellerOf root.getNewestVersion) :
    ∀ {stack : List (Impl Asset K V)}, StackOffers root sellerOf stack → ShownOk sellerOf (newest root stack)
  | [], _ => hroot
  | _ :: _, ⟨hs, hparents⟩ => hs.kept.records.shownOk (hparents.shownOk hroot)

theorem StackOffers.bestOffer (hroot : ShownOk sellerOf root.getNewestVersion) (hro : ro.Correct root) :
    ∀ {stack : List (Impl Asset K V)}, StackOffers root sellerOf stack →
      BestOfferCorrect (newest root stack) (bestOffer ro stack)
  | [], _ => fun buying selling worseThan => ⟨_, rfl, hro.best buying selling worseThan⟩
  | self :: parents, ⟨hs, hparents⟩ => by
    have hpn := hparents.shownOk hroot
    have hparent := hparents.bestOffer hroot hro
    intro buying selling worseThan
    cases worseThan with
    | none =>
      obtain ⟨r, hr, hleast⟩ := Impl.getBestOffer_correct hpn hs.kept hs.worstBest hparent buying selling
      exact ⟨r, hr, (isBestOffer_iff (hs.kept.records.shownOk hpn)).mpr hleast⟩
    | some w =>
      obtain ⟨r, hr, hleast⟩ := Impl.getBestOfferWorseThan_correct hpn hs.kept hparent buying selling w
      exact ⟨r, hr, (isBestOffer_iff (hs.kept.records.shownOk hpn)).mpr hleast⟩

theorem StackOffers.bestOfferSlow (hroot : ShownOk sellerOf root.getNewestVersion) (hro : ro.Correct root) :
    ∀ {stack : List (Impl Asset K V)}, StackOffers root sellerOf stack →
      SlowOfferCorrect (newest root stack) (bestOfferSlow ro stack)
  | [], _ => hro.bestSlow
  | _ :: _, ⟨hs, hparents⟩ =>
    Impl.getBestOfferSlow_correct (hparents.shownOk hroot) hs.kept.records hs.agree (hparents.bestOfferSlow hroot hro)

theorem StackOffers.step (hroot : ShownOk sellerOf root.getNewestVersion) (hro : ro.Correct root)
    {stack : List (Impl Asset K V)} (h : StackOffers root sellerOf stack) (op : OfferOp Asset K V)
    (hop : op.Ok sellerOf) : StackOffers root sellerOf (offerStep root ro op stack) := by
  cases op with
  | ledgerOp op =>
    cases op with
    | openChild flag => exact ⟨LevelOk.fresh _ _, h⟩
    | create e =>
      rcases stack with _ | ⟨self, parents⟩
      · exact h
      · obtain ⟨hs, hparents⟩ := h
        simp only [offerStep, Ledger.step]
        split
        · rename_i self' h'
          exact ⟨hs.create hop h', hparents⟩
        · exact ⟨hs, hparents⟩
    | load key modify hmodify =>
      rcases stack with _ | ⟨self, parents⟩
      · exact h
      · obtain ⟨hs, hparents⟩ := h
        simp only [offerStep, Ledger.step]
        split
        · rename_i res self' h'
          exact ⟨hs.loadAndModify (hparents.shownOk hroot) hmodify hop h', hparents⟩
        · exact ⟨hs, hparents⟩
    | erase key =>
      rcases stack with _ | ⟨self, parents⟩
      · exact h
      · obtain ⟨hs, hparents⟩ := h
        simp only [offerStep, Ledger.step]
        split
        · rename_i self' h'
          exact ⟨hs.erase h', hparents⟩
        · exact ⟨hs, hparents⟩
    | commit =>
      rcases stack with _ | ⟨child, _ | ⟨self, parents⟩⟩
      · exact h
      · exact h
      · obtain ⟨hc, hs, hparents⟩ := h
        simp only [offerStep, Ledger.step]
        split
        · rename_i self' h'
          exact ⟨hs.commitChild hc h', hparents⟩
        · exact ⟨hc, hs, hparents⟩
    | rollback =>
      rcases stack with _ | ⟨self, parents⟩
      · exact h
      · exact h.2
  | loadBestOffer buying selling =>
    rcases stack with _ | ⟨self, parents⟩
    · exact h
    · obtain ⟨hs, hparents⟩ := h
      have hpn := hparents.shownOk hroot
      have hparent := hparents.bestOffer hroot hro
      simp only [offerStep]
      split
      · rename_i e self' h'
        split
        · rename_i self'' hd
          exact ⟨(hs.loadBestOffer hpn hparent h').2 e self'' rfl hd, hparents⟩
        · exact ⟨hs, hparents⟩
      · rename_i self' h'
        exact ⟨(hs.loadBestOffer hpn hparent h').1 rfl, hparents⟩
      · exact ⟨hs, hparents⟩

theorem StackOffers.run (hroot : ShownOk sellerOf root.getNewestVersion) (hro : ro.Correct root)
    (ops : List (OfferOp Asset K V)) (hops : ∀ op ∈ ops, op.Ok sellerOf) :
    ∀ {stack : List (Impl Asset K V)}, StackOffers root sellerOf stack →
      StackOffers root sellerOf (offerRun root ro ops stack) := by
  induction ops with
  | nil => exact fun h => h
  | cons op ops ih =>
    intro stack h
    exact ih (fun o ho => hops o (List.mem_cons_of_mem _ ho)) (h.step hroot hro op (hops op List.mem_cons_self))

theorem StackOffers.of_suffix {self : Impl Asset K V} {parents stack : List (Impl Asset K V)}
    (h : StackOffers root sellerOf stack) (hsuf : self :: parents <:+ stack) :
    LevelOk sellerOf (newest root parents) self ∧ StackOffers root sellerOf parents := by
  induction stack with
  | nil => exact absurd hsuf (by simp)
  | cons t ts ih =>
    obtain ⟨ht, hts⟩ := h
    rcases List.suffix_cons_iff.mp hsuf with heq | hsuf'
    · cases heq
      exact ⟨ht, hts⟩
    · exact ih hts hsuf'

omit [DecidableEq Asset] [DecidableEq K] in
theorem IsBestOffer.unique {newestOf : InternalLedgerKey K → Option (InternalLedgerEntry Asset K V)}
    (h : ShownOk sellerOf newestOf) {buying selling : Asset} {worseThan : Option OfferDescriptor}
    {exclude : List ℤ} {r r' : Option (OfferLedgerEntry Asset)}
    (hr : IsBestOffer newestOf buying selling worseThan exclude r)
    (hr' : IsBestOffer newestOf buying selling worseThan exclude r') : r = r' :=
  LeastBy.IsLeastBy.unique (fun _ _ ha hb hkey => h.eq_of_sortKey ha.1 hb.1 hkey)
    ((isBestOffer_iff h).mp hr) ((isBestOffer_iff h).mp hr')

end Stack

/-- Over a root that shows entries under their own keys and offers as the ledger keeps them
(prices that compare, and ids that fix their sellers), and whose two best-offer queries answer,
every run of operations from no open `LedgerTxn` that keeps entries so ends with `getBestOffer`
at the innermost `LedgerTxn` returning what `getBestOfferSlow` returns, the best offer of the
flattened view; and every `LedgerTxn` of the stack keeps its worst best offers honest. -/
theorem offerRun_bestOffer_eq_slow (root : Root Asset K V) (ro : RootOffers Asset) {sellerOf : ℤ → AccountID}
    (hroot : ShownOk sellerOf root.getNewestVersion) (hro : ro.Correct root)
    (ops : List (OfferOp Asset K V)) (hops : ∀ op ∈ ops, op.Ok sellerOf)
    (buying selling : Asset) (worseThan : Option OfferDescriptor) :
    bestOffer ro (offerRun root ro ops []) buying selling worseThan =
        .ok (bestOfferSlow ro (offerRun root ro ops []) buying selling worseThan []) ∧
      IsBestOffer (newest root (offerRun root ro ops [])) buying selling worseThan []
        (bestOfferSlow ro (offerRun root ro ops []) buying selling worseThan []) ∧
      ∀ self parents, self :: parents <:+ offerRun root ro ops [] → WorstBestOk (newest root parents) self := by
  have hStack : StackOffers root sellerOf (offerRun root ro ops []) := StackOffers.run hroot hro ops hops trivial
  have hslow := hStack.bestOfferSlow hroot hro buying selling worseThan []
  obtain ⟨r, hr, hbest⟩ := hStack.bestOffer hroot hro buying selling worseThan
  refine ⟨?_, hslow, fun self parents hsuf => (hStack.of_suffix hsuf).1.worstBest⟩
  rw [hr, IsBestOffer.unique (hStack.shownOk hroot) hbest hslow]

/-- A child over an empty root creates an offer, and `loadBestOffer` loads it. -/
theorem offerRun_bestOffer_eq_slow_create :
    bestOffer (⟨fun _ _ _ => none, fun _ _ _ _ => none⟩ : RootOffers ℕ)
        (offerRun (⟨fun _ => none, 1⟩ : Root ℕ Unit Unit) ⟨fun _ _ _ => none, fun _ _ _ _ => none⟩
          [.ledgerOp (.openChild true), .ledgerOp (.create (.ledgerEntry ⟨0, .offer ⟨0, 1, 0, 1, ⟨1, 1⟩⟩⟩)),
            .loadBestOffer 1 0] []) 1 0 none =
      .ok (bestOfferSlow (⟨fun _ _ _ => none, fun _ _ _ _ => none⟩ : RootOffers ℕ)
        (offerRun (⟨fun _ => none, 1⟩ : Root ℕ Unit Unit) ⟨fun _ _ _ => none, fun _ _ _ _ => none⟩
          [.ledgerOp (.openChild true), .ledgerOp (.create (.ledgerEntry ⟨0, .offer ⟨0, 1, 0, 1, ⟨1, 1⟩⟩⟩)),
            .loadBestOffer 1 0] []) 1 0 none []) := by
  have hroot : ShownOk (fun _ => 0) (⟨fun _ => none, 1⟩ : Root ℕ Unit Unit).getNewestVersion :=
    fun _ _ he => by cases he
  have hro : (⟨fun _ _ _ => none, fun _ _ _ _ => none⟩ : RootOffers ℕ).Correct
      (⟨fun _ => none, 1⟩ : Root ℕ Unit Unit) :=
    ⟨fun _ _ _ _ hc => (by cases hc.1), fun _ _ _ _ _ hc => (by cases hc.1)⟩
  have hops : ∀ op ∈ ([.ledgerOp (.openChild true), .ledgerOp (.create (.ledgerEntry ⟨0, .offer ⟨0, 1, 0, 1, ⟨1, 1⟩⟩⟩)),
      .loadBestOffer 1 0] : List (OfferOp ℕ Unit Unit)), op.Ok (fun _ => 0) := by
    simp only [List.mem_cons, List.not_mem_nil, or_false]
    rintro op (rfl | rfl | rfl)
    · trivial
    · rintro le ⟨⟩
      exact ⟨Binary64.div_ne_nan (by decide), rfl⟩
    · trivial
  exact (offerRun_bestOffer_eq_slow _ _ hroot hro _ hops 1 0 none).1

theorem isBestOffer_single (o : OfferLedgerEntry Asset) (buying selling : Asset)
    (worseThan : Option OfferDescriptor) (exclude : List ℤ) :
    IsBestOffer (fun k : InternalLedgerKey K =>
        if k = .ledgerEntry o.key then some (o.toLedgerEntry : InternalLedgerEntry Asset K V) else none)
      buying selling worseThan exclude
      (if o.offer.buying = buying ∧ o.offer.selling = selling ∧
          worseThan.all (isBetterOffer · o.offer.descriptor) = true ∧ o.offer.offerID ∉ exclude then some o
        else none) := by
  have hShown : ∀ le : OfferLedgerEntry Asset, shownOffer (fun k : InternalLedgerKey K =>
      if k = .ledgerEntry o.key then some (o.toLedgerEntry : InternalLedgerEntry Asset K V) else none) le.key =
        some le ↔ le = o := by
    intro le
    by_cases hk : (InternalLedgerKey.ledgerEntry le.key : InternalLedgerKey K) = .ledgerEntry o.key
    · show (if _ then _ else _) >>= _ = _ ↔ _
      rw [if_pos hk]
      exact ⟨fun h => (Option.some.inj h).symm, fun h => by rw [h]; rfl⟩
    · show (if _ then _ else _) >>= _ = _ ↔ _
      rw [if_neg hk]
      exact ⟨fun h => (by cases h), fun h => absurd (by rw [h]) hk⟩
  have hWorse : (∀ w ∈ worseThan, isBetterOffer w o.offer.descriptor = true) ↔
      worseThan.all (isBetterOffer · o.offer.descriptor) = true := by
    cases worseThan <;> simp
  have hMatch : OfferMatches buying selling worseThan exclude o ↔ (o.offer.buying = buying ∧
      o.offer.selling = selling ∧ worseThan.all (isBetterOffer · o.offer.descriptor) = true ∧
        o.offer.offerID ∉ exclude) :=
    ⟨fun ⟨hb, hs, hw, hf⟩ => ⟨hb, hs, hWorse.mp hw, hf⟩, fun ⟨hb, hs, hw, hf⟩ => ⟨hb, hs, hWorse.mpr hw, hf⟩⟩
  split
  · rename_i hcond
    exact ⟨⟨(hShown o).mpr rfl, hMatch.mpr hcond⟩, fun le' hle' => .inl ((hShown le').mp hle'.1)⟩
  · rename_i hcond
    rintro le ⟨hle, hm⟩
    obtain rfl := (hShown le).mp hle
    exact hcond (hMatch.mp hm)

/-- Without unique offer ids the fast path and the slow scan part. The root shows offer 7 of
seller 2 at price 1 and answers both queries; a child creates offer 7 of seller 1 at price 2.
`getBestOffer` returns the root's offer, whose key the child does not record, while the scan of
the child excludes id 7 from the root's query and returns the child's offer. -/
theorem offerRun_bestOffer_ne_slow_duplicate_id :
    let o : OfferLedgerEntry ℕ := ⟨0, ⟨2, 7, 0, 1, ⟨1, 1⟩⟩⟩
    let root : Root ℕ Unit Unit := ⟨fun k => if k = .ledgerEntry o.key then some o.toLedgerEntry else none, 1⟩
    let query := fun (buying selling : ℕ) (worseThan : Option OfferDescriptor) (exclude : List ℤ) =>
      if o.offer.buying = buying ∧ o.offer.selling = selling ∧
          worseThan.all (isBetterOffer · o.offer.descriptor) = true ∧ o.offer.offerID ∉ exclude then some o
        else none
    let ro : RootOffers ℕ := ⟨fun buying selling worseThan => query buying selling worseThan [], query⟩
    let ops : List (OfferOp ℕ Unit Unit) :=
      [.ledgerOp (.openChild true), .ledgerOp (.create (.ledgerEntry ⟨0, .offer ⟨1, 7, 0, 1, ⟨2, 1⟩⟩⟩))]
    ro.Correct root ∧
      bestOffer ro (offerRun root ro ops []) 1 0 none ≠ .ok (bestOfferSlow ro (offerRun root ro ops []) 1 0 none []) := by
  intro o root query ro ops
  refine ⟨⟨fun buying selling worseThan => isBestOffer_single o buying selling worseThan [], isBestOffer_single o⟩, ?_⟩
  dsimp only [ops, ro, query, root, o]
  decide +kernel

end HcnetCore.Ledger
