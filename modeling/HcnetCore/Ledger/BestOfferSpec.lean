import HcnetCore.Ledger.OfferBook

/-! # What the best-offer queries answer

The best offer of a view for a pair of assets: among the offers the view shows for the
pair, worse than a given descriptor and with an id not excluded, the one better by
`isBetterOffer` than every other. Since no two offers kept by the ledger share a sort key,
that is the least candidate by `sortKey`, and the lemmas here work with that form. The
view of a `LedgerTxn` shows what it records and, at the keys it does not record, what
its parent shows, so its candidates split into recorded ones and unrecorded parent ones.
-/

namespace HcnetCore.Ledger

open LeastBy

set_option autoImplicit false

variable {Asset K V : Type} [DecidableEq Asset] [DecidableEq K]

/-- The offer that `newestOf` shows at a ledger key. -/
def shownOffer (newestOf : InternalLedgerKey K → Option (InternalLedgerEntry Asset K V)) (k : LedgerKey K) :
    Option (OfferLedgerEntry Asset) :=
  newestOf (.ledgerEntry k) >>= InternalLedgerEntry.offerEntry?

/-- The offer is of the pair `(buying, selling)`, strictly worse than `worseThan` when it is given,
and its id is not excluded. -/
structure OfferMatches (buying selling : Asset) (worseThan : Option OfferDescriptor) (exclude : List ℤ)
    (le : OfferLedgerEntry Asset) : Prop where
  buying : le.offer.buying = buying
  selling : le.offer.selling = selling
  worse : ∀ w ∈ worseThan, isBetterOffer w le.offer.descriptor = true
  fresh : le.offer.offerID ∉ exclude

/-- An offer that `newestOf` shows and that matches the query. -/
def IsCandidate (newestOf : InternalLedgerKey K → Option (InternalLedgerEntry Asset K V)) (buying selling : Asset)
    (worseThan : Option OfferDescriptor) (exclude : List ℤ) (le : OfferLedgerEntry Asset) : Prop :=
  shownOffer newestOf le.key = some le ∧ OfferMatches buying selling worseThan exclude le

/-- The answer of a best-offer query: a candidate better by `isBetterOffer` than every other
one, and `none` only when there is no candidate. -/
def IsBestOffer (newestOf : InternalLedgerKey K → Option (InternalLedgerEntry Asset K V)) (buying selling : Asset)
    (worseThan : Option OfferDescriptor) (exclude : List ℤ) : Option (OfferLedgerEntry Asset) → Prop
  | none => ∀ le, ¬ IsCandidate newestOf buying selling worseThan exclude le
  | some le => IsCandidate newestOf buying selling worseThan exclude le ∧
      ∀ le', IsCandidate newestOf buying selling worseThan exclude le' →
        le' = le ∨ isBetterOffer le.offer.descriptor le'.offer.descriptor = true

/-- `f` answers `getBestOffer(buying, selling[, worseThan])` for the offers `newestOf` shows. -/
def BestOfferCorrect (newestOf : InternalLedgerKey K → Option (InternalLedgerEntry Asset K V))
    (f : BestOfferFn Asset) : Prop :=
  ∀ buying selling worseThan, ∃ r, f buying selling worseThan = .ok r ∧
    IsBestOffer newestOf buying selling worseThan [] r

/-- `f` answers `getBestOfferSlow(buying, selling, worseThan, exclude)` for the offers `newestOf`
shows. -/
def SlowOfferCorrect (newestOf : InternalLedgerKey K → Option (InternalLedgerEntry Asset K V))
    (f : Asset → Asset → Option OfferDescriptor → List ℤ → Option (OfferLedgerEntry Asset)) : Prop :=
  ∀ buying selling worseThan exclude, IsBestOffer newestOf buying selling worseThan exclude
    (f buying selling worseThan exclude)

def OfferLedgerEntry.sortKey (le : OfferLedgerEntry Asset) : WithBot (WithTop ℚ) ×ₗ ℤ :=
  le.offer.descriptor.sortKey

def Impl.recordedView (self : Impl Asset K V) (key : InternalLedgerKey K) : Option (InternalLedgerEntry Asset K V) :=
  (self.entry.lookup key).bind LedgerEntryPtr.get

section Candidates

variable {sellerOf : ℤ → AccountID} {newestOf : InternalLedgerKey K → Option (InternalLedgerEntry Asset K V)}

omit [DecidableEq Asset] [DecidableEq K] in
theorem ShownOk.offerOk (h : ShownOk sellerOf newestOf) {k : LedgerKey K} {le : OfferLedgerEntry Asset}
    (hle : shownOffer newestOf k = some le) : le.key = k ∧ OfferOk sellerOf le := by
  obtain ⟨e, he, hOffer⟩ := Option.bind_eq_some_iff.mp hle
  obtain ⟨hKey, hOk⟩ := h _ e he
  rw [InternalLedgerEntry.toKey_of_offerEntry? hOffer] at hKey
  exact ⟨InternalLedgerKey.ledgerEntry.inj hKey, hOk le hOffer⟩

omit [DecidableEq Asset] [DecidableEq K] in
theorem ShownOk.eq_of_sortKey (h : ShownOk sellerOf newestOf) {le le' : OfferLedgerEntry Asset}
    (hle : shownOffer newestOf le.key = some le) (hle' : shownOffer newestOf le'.key = some le')
    (hkey : le.sortKey = le'.sortKey) : le = le' := by
  have hKey : (le.key : LedgerKey K) = le'.key :=
    key_eq_of_sortKey_eq (h.offerOk hle).2 (h.offerOk hle').2 hkey
  rw [hKey, hle'] at hle
  exact (Option.some.inj hle).symm

omit [DecidableEq Asset] [DecidableEq K] in
theorem isBetterOffer_iff_sortKey {le le' : OfferLedgerEntry Asset} (hle : OfferOk sellerOf le)
    (hle' : OfferOk sellerOf le') :
    isBetterOffer le.offer.descriptor le'.offer.descriptor = true ↔ le.sortKey < le'.sortKey := by
  rw [isBetterOffer_eq_decide hle.1 hle'.1, decide_eq_true_iff]
  rfl

omit [DecidableEq Asset] [DecidableEq K] in
theorem isBestOffer_iff (h : ShownOk sellerOf newestOf) {buying selling : Asset}
    {worseThan : Option OfferDescriptor} {exclude : List ℤ} {r : Option (OfferLedgerEntry Asset)} :
    IsBestOffer newestOf buying selling worseThan exclude r ↔
      IsLeastBy OfferLedgerEntry.sortKey (IsCandidate newestOf buying selling worseThan exclude) r := by
  cases r with
  | none => exact Iff.rfl
  | some le =>
    simp only [IsBestOffer, isLeastBy_some]
    refine and_congr_right fun hle => forall_congr' fun le' => imp_congr_right fun hle' => ?_
    rw [isBetterOffer_iff_sortKey (h.offerOk hle.1).2 (h.offerOk hle'.1).2]
    constructor
    · rintro (rfl | hlt)
      · exact le_rfl
      · exact hlt.le
    · intro hle'le
      rcases hle'le.lt_or_eq with hlt | heq
      · exact .inr hlt
      · exact .inl (h.eq_of_sortKey hle'.1 hle.1 heq.symm)

omit [DecidableEq Asset] in
theorem RecordsOk.recordedView {self : Impl Asset K V} (hrec : RecordsOk sellerOf self) :
    ShownOk sellerOf self.recordedView := by
  intro key e he
  obtain ⟨p, hp, he'⟩ := Option.bind_eq_some_iff.mp he
  exact hrec key p e hp he'

omit [DecidableEq Asset] in
theorem shownOffer_recordedView (self : Impl Asset K V) (k : LedgerKey K) :
    shownOffer self.recordedView k = self.recordedOffer k := rfl

omit [DecidableEq Asset] in
theorem isCandidate_getNewestVersion_iff (self : Impl Asset K V)
    (parentNewest : InternalLedgerKey K → Option (InternalLedgerEntry Asset K V)) {buying selling : Asset}
    {worseThan : Option OfferDescriptor} {exclude : List ℤ} (le : OfferLedgerEntry Asset) :
    IsCandidate (self.getNewestVersion parentNewest) buying selling worseThan exclude le ↔
      IsCandidate self.recordedView buying selling worseThan exclude le ∨
        self.entry.lookup (.ledgerEntry le.key) = none ∧ IsCandidate parentNewest buying selling worseThan exclude le := by
  simp only [IsCandidate, shownOffer, Impl.recordedView, Impl.getNewestVersion_eq_elim]
  cases self.entry.lookup (.ledgerEntry le.key) with
  | none => simp
  | some p => simp

end Candidates

section Books

variable {sellerOf : ℤ → AccountID} {self : Impl Asset K V}

omit [DecidableEq Asset] in
theorem Impl.bookEntry_eq {o : Option (OfferDescriptor × LedgerKey K)}
    (h : ∀ e ∈ o, (self.recordedOffer e.2).isSome) :
    self.bookEntry o = .ok (o.bind fun e => self.recordedOffer e.2) := by
  rcases o with _ | ⟨d, k⟩
  · rfl
  · obtain ⟨le, hle⟩ := Option.isSome_iff_exists.mp (h (d, k) rfl)
    have hle' : (self.entry.lookup (.ledgerEntry k)).bind LedgerEntryPtr.get >>= InternalLedgerEntry.offerEntry? =
        some le := hle
    simp only [Impl.bookEntry, hle', Option.bind_some]
    rw [hle]
    rfl

omit [DecidableEq Asset] in
theorem BookMatches.bookEntry_least (h : BookMatches self none) (hok : OffersOk sellerOf self)
    {buying selling : Asset} {worseThan : Option OfferDescriptor} {o : Option (OfferDescriptor × LedgerKey K)}
    (ho : IsLeastBy OrderBook.sortKey
      (fun e => e ∈ self.multiOrderBook buying selling ∧ ∀ w ∈ worseThan, isBetterOffer w e.1 = true) o) :
    ∃ r, self.bookEntry o = .ok r ∧
      IsLeastBy OfferLedgerEntry.sortKey (IsCandidate self.recordedView buying selling worseThan []) r := by
  have hElem : ∀ e : OfferDescriptor × LedgerKey K, e ∈ self.multiOrderBook buying selling →
      ∃ le, self.recordedOffer e.2 = some le ∧ le.key = e.2 ∧ le.offer.buying = buying ∧
        le.offer.selling = selling ∧ le.offer.descriptor = e.1 := by
    intro e he
    obtain ⟨-, le, hle, hb, hs, hd⟩ := (h.mem buying selling e.1 e.2).mp he
    exact ⟨le, hle, (hok e.2 le hle).1, hb, hs, hd⟩
  refine ⟨_, Impl.bookEntry_eq fun e he => ?_, ho.bind (fun e he => ?_) (fun le hle => ?_)⟩
  · rw [Option.mem_def] at he
    subst he
    obtain ⟨le, hle, -⟩ := hElem e ho.1.1
    simp [hle]
  · obtain ⟨le, hle, hk, hb, hs, hd⟩ := hElem e he.1
    refine ⟨le, hle, ⟨by rw [shownOffer_recordedView, hk, hle], ⟨hb, hs, hd ▸ he.2, List.not_mem_nil⟩⟩, ?_⟩
    rw [OfferLedgerEntry.sortKey, hd]
  · -- every recorded candidate is in the book, under its descriptor
    obtain ⟨hShown, hm⟩ := hle
    rw [shownOffer_recordedView] at hShown
    refine ⟨(le.offer.descriptor, le.key), ⟨?_, hm.worse⟩, hShown⟩
    exact (h.mem buying selling _ _).mpr ⟨by simp, le, hShown, hm.buying, hm.selling, rfl⟩

omit [DecidableEq Asset] in
theorem BookMatches.bookEntry_head (h : BookMatches self none) (hok : OffersOk sellerOf self)
    (buying selling : Asset) :
    ∃ r, self.bookEntry (self.multiOrderBook buying selling).head? = .ok r ∧
      IsLeastBy OfferLedgerEntry.sortKey (IsCandidate self.recordedView buying selling none []) r :=
  h.bookEntry_least hok ((SortedList.isLeastBy_head? (h.sorted buying selling)).congr fun e => by simp)

omit [DecidableEq Asset] in
theorem BookMatches.bookEntry_upperBound (h : BookMatches self none) (hok : OffersOk sellerOf self)
    (buying selling : Asset) (worseThan : OfferDescriptor) :
    ∃ r, self.bookEntry (OrderBook.upperBound worseThan (self.multiOrderBook buying selling)) = .ok r ∧
      IsLeastBy OfferLedgerEntry.sortKey (IsCandidate self.recordedView buying selling (some worseThan) []) r :=
  h.bookEntry_least hok ((SortedList.isLeastBy_find? (h.sorted buying selling) _).congr fun e => by simp)

end Books

section Loop

variable {sellerOf : ℤ → AccountID} {parentNewest : InternalLedgerKey K → Option (InternalLedgerEntry Asset K V)}
  {self : Impl Asset K V} {buying selling : Asset} {worseThan : Option OfferDescriptor}

open Classical in
/-- The keys `self` records whose parent offer is a candidate no better than `pb`: a bound on the
rounds `bestOfferLoop` still takes from `pb`. -/
noncomputable def Impl.pendingRounds (self : Impl Asset K V)
    (parentNewest : InternalLedgerKey K → Option (InternalLedgerEntry Asset K V)) (buying selling : Asset)
    (worseThan : Option OfferDescriptor) : Option (OfferLedgerEntry Asset) → ℕ
  | none => 0
  | some pb => self.entry.keys.countP fun key =>
      ∃ c, key = .ledgerEntry c.key ∧ IsCandidate parentNewest buying selling worseThan [] c ∧ pb.sortKey ≤ c.sortKey

omit [DecidableEq Asset] [DecidableEq K] in
theorem Impl.pendingRounds_le (pb : Option (OfferLedgerEntry Asset)) :
    self.pendingRounds parentNewest buying selling worseThan pb ≤ self.entry.entries.length := by
  cases pb with
  | none => exact Nat.zero_le _
  | some pb =>
    unfold Impl.pendingRounds
    calc _ ≤ self.entry.keys.length := List.countP_le_length
      _ = self.entry.entries.length := by simp [AList.keys, List.keys]

omit [DecidableEq Asset] [DecidableEq K] in
theorem IsCandidate.of_worse (hpn : ShownOk sellerOf parentNewest) {pb c : OfferLedgerEntry Asset}
    (hpb : IsCandidate parentNewest buying selling worseThan [] pb)
    (hc : IsCandidate parentNewest buying selling (some pb.offer.descriptor) [] c) :
    IsCandidate parentNewest buying selling worseThan [] c ∧ pb.sortKey < c.sortKey := by
  have hpbOk := (hpn.offerOk hpb.1).2
  have hcOk := (hpn.offerOk hc.1).2
  have hlt : pb.sortKey < c.sortKey := (isBetterOffer_iff_sortKey hpbOk hcOk).mp (hc.2.worse _ rfl)
  refine ⟨⟨hc.1, hc.2.buying, hc.2.selling, fun w hw => ?_, List.not_mem_nil⟩, hlt⟩
  obtain ⟨hw, hwpb⟩ := (isBetterOffer_iff hpbOk.1).mp (hpb.2.worse w hw)
  exact (isBetterOffer_iff hcOk.1).mpr ⟨hw, hwpb.trans hlt⟩

omit [DecidableEq Asset] [DecidableEq K] in
theorem IsCandidate.worse_of_lt (hpn : ShownOk sellerOf parentNewest) {pb c : OfferLedgerEntry Asset}
    (hpb : IsCandidate parentNewest buying selling worseThan [] pb)
    (hc : IsCandidate parentNewest buying selling worseThan [] c) (hlt : pb.sortKey < c.sortKey) :
    IsCandidate parentNewest buying selling (some pb.offer.descriptor) [] c :=
  ⟨hc.1, hc.2.buying, hc.2.selling, fun w hw => by
    cases hw
    exact (isBetterOffer_iff_sortKey (hpn.offerOk hpb.1).2 (hpn.offerOk hc.1).2).mpr hlt, List.not_mem_nil⟩

omit [DecidableEq Asset] in
theorem answer_of_recorded {selfBest : Option (OfferLedgerEntry Asset)}
    (hself : IsLeastBy OfferLedgerEntry.sortKey (IsCandidate self.recordedView buying selling worseThan []) selfBest)
    (hR : ∀ c, IsCandidate parentNewest buying selling worseThan [] c → self.entry.lookup (.ledgerEntry c.key) ≠ none) :
    IsLeastBy OfferLedgerEntry.sortKey
      (IsCandidate (self.getNewestVersion parentNewest) buying selling worseThan []) selfBest :=
  hself.congr fun c => by
    rw [isCandidate_getNewestVersion_iff]
    constructor
    · exact .inl
    · rintro (hc | ⟨hn, hc⟩)
      · exact hc
      · exact absurd hn (hR c hc)

omit [DecidableEq Asset] in
theorem answer_parent {selfBest : Option (OfferLedgerEntry Asset)}
    (hself : IsLeastBy OfferLedgerEntry.sortKey (IsCandidate self.recordedView buying selling worseThan []) selfBest)
    {pb : OfferLedgerEntry Asset} (hpb : IsCandidate parentNewest buying selling worseThan [] pb)
    (hbetter : ∀ sb ∈ selfBest, pb.sortKey < sb.sortKey) (hnot : self.entry.lookup (.ledgerEntry pb.key) = none)
    (hR : ∀ c, IsCandidate parentNewest buying selling worseThan [] c → self.entry.lookup (.ledgerEntry c.key) = none →
      pb.sortKey ≤ c.sortKey) :
    IsLeastBy OfferLedgerEntry.sortKey
      (IsCandidate (self.getNewestVersion parentNewest) buying selling worseThan []) (some pb) := by
  refine ⟨(isCandidate_getNewestVersion_iff self parentNewest pb).mpr (.inr ⟨hnot, hpb⟩), fun c hc => ?_⟩
  rcases (isCandidate_getNewestVersion_iff self parentNewest c).mp hc with hrec | ⟨hn, hcp⟩
  · -- a recorded candidate is no better than the best recorded one, which `pb` beats
    cases selfBest with
    | none => exact absurd hrec (hself c)
    | some sb => exact (hbetter sb rfl).le.trans (hself.2 c hrec)
  · exact hR c hcp hn

omit [DecidableEq Asset] in
theorem answer_self {sb : OfferLedgerEntry Asset}
    (hself : IsLeastBy OfferLedgerEntry.sortKey (IsCandidate self.recordedView buying selling worseThan []) (some sb))
    {pb : OfferLedgerEntry Asset} (hsbpb : sb.sortKey ≤ pb.sortKey)
    (hR : ∀ c, IsCandidate parentNewest buying selling worseThan [] c → self.entry.lookup (.ledgerEntry c.key) = none →
      pb.sortKey ≤ c.sortKey) :
    IsLeastBy OfferLedgerEntry.sortKey
      (IsCandidate (self.getNewestVersion parentNewest) buying selling worseThan []) (some sb) := by
  refine ⟨(isCandidate_getNewestVersion_iff self parentNewest sb).mpr (.inl hself.1), fun c hc => ?_⟩
  rcases (isCandidate_getNewestVersion_iff self parentNewest c).mp hc with hrec | ⟨hn, hcp⟩
  · exact hself.2 c hrec
  · exact hsbpb.trans (hR c hcp hn)

omit [DecidableEq Asset] in
theorem next_parent_offer (hpn : ShownOk sellerOf parentNewest) {pb : OfferLedgerEntry Asset}
    (hpb : IsCandidate parentNewest buying selling worseThan [] pb)
    (hrecd : self.entry.lookup (.ledgerEntry pb.key) ≠ none)
    (hR : ∀ c, IsCandidate parentNewest buying selling worseThan [] c → self.entry.lookup (.ledgerEntry c.key) = none →
      pb.sortKey ≤ c.sortKey)
    {next : Option (OfferLedgerEntry Asset)}
    (hnext : IsLeastBy OfferLedgerEntry.sortKey
      (IsCandidate parentNewest buying selling (some pb.offer.descriptor) []) next) :
    (∀ n ∈ next, IsCandidate parentNewest buying selling worseThan [] n) ∧
      (∀ c, IsCandidate parentNewest buying selling worseThan [] c → self.entry.lookup (.ledgerEntry c.key) = none →
        ∃ n ∈ next, n.sortKey ≤ c.sortKey) ∧
      self.pendingRounds parentNewest buying selling worseThan next <
        self.pendingRounds parentNewest buying selling worseThan (some pb) := by
  -- an unrecorded candidate is not `pb`, so it is worse than `pb`
  have hWorse : ∀ c, IsCandidate parentNewest buying selling worseThan [] c →
      self.entry.lookup (.ledgerEntry c.key) = none →
      IsCandidate parentNewest buying selling (some pb.offer.descriptor) [] c := by
    intro c hc hn
    refine IsCandidate.worse_of_lt hpn hpb hc ((hR c hc hn).lt_of_ne fun heq => ?_)
    rw [hpn.eq_of_sortKey hpb.1 hc.1 heq] at hrecd
    exact hrecd hn
  have hpbKey : InternalLedgerKey.ledgerEntry pb.key ∈ self.entry.keys := by
    exact AList.mem_keys.mp (AList.lookup_isSome.mp (Option.isSome_iff_ne_none.mpr hrecd))
  refine ⟨fun n hn => ?_, fun c hc hn => ?_, ?_⟩
  · rw [Option.mem_def] at hn
    subst hn
    exact (IsCandidate.of_worse hpn hpb hnext.1).1
  · cases next with
    | none => exact absurd (hWorse c hc hn) (hnext c)
    | some n => exact ⟨n, rfl, hnext.2 c (hWorse c hc hn)⟩
  · cases next with
    | none =>
      simp only [Impl.pendingRounds]
      exact List.countP_pos_iff.mpr ⟨_, hpbKey, by simpa using ⟨pb, rfl, hpb, le_rfl⟩⟩
    | some n =>
      have hpbn : pb.sortKey < n.sortKey := (IsCandidate.of_worse hpn hpb hnext.1).2
      simp only [Impl.pendingRounds]
      refine LeastBy.countP_lt_countP (fun key _ hkey => ?_) hpbKey (by simpa using ⟨pb, rfl, hpb, le_rfl⟩) ?_
      · obtain ⟨c, hck, hc, hnc⟩ := by simpa using hkey
        simpa using ⟨c, hck, hc, hpbn.le.trans hnc⟩
      · simp only [decide_eq_true_eq, not_exists, not_and]
        intro c hck hc hnc
        have hpc : pb = c := by
          have hShown := hpb.1
          rw [InternalLedgerKey.ledgerEntry.inj hck, hc.1] at hShown
          exact (Option.some.inj hShown).symm
        subst hpc
        exact absurd hnc (not_le.mpr hpbn)

omit [DecidableEq Asset] [DecidableEq K] in
theorem all_isBetterOffer_iff {pb : OfferLedgerEntry Asset} (hpb : OfferOk sellerOf pb)
    {selfBest : Option (OfferLedgerEntry Asset)} (hsb : ∀ sb ∈ selfBest, OfferOk sellerOf sb) :
    (selfBest.all fun sb => isBetterOffer pb.offer.descriptor sb.offer.descriptor) = true ↔
      ∀ sb ∈ selfBest, pb.sortKey < sb.sortKey := by
  cases selfBest with
  | none => simp
  | some sb => simp [isBetterOffer_iff_sortKey hpb (hsb sb rfl)]

omit [DecidableEq Asset] in
theorem Impl.bestOfferLoop_correct (hpn : ShownOk sellerOf parentNewest) (hrec : RecordsOk sellerOf self)
    {parentBest : BestOfferFn Asset} (hparent : BestOfferCorrect parentNewest parentBest)
    {selfBest : Option (OfferLedgerEntry Asset)}
    (hself : IsLeastBy OfferLedgerEntry.sortKey (IsCandidate self.recordedView buying selling worseThan []) selfBest) :
    ∀ (fuel : ℕ) (pb : Option (OfferLedgerEntry Asset)),
      (∀ p ∈ pb, IsCandidate parentNewest buying selling worseThan [] p) →
      (∀ c, IsCandidate parentNewest buying selling worseThan [] c → self.entry.lookup (.ledgerEntry c.key) = none →
        ∃ p ∈ pb, p.sortKey ≤ c.sortKey) →
      self.pendingRounds parentNewest buying selling worseThan pb < fuel →
      ∃ r, self.bestOfferLoop parentBest buying selling selfBest fuel pb = .ok r ∧
        IsLeastBy OfferLedgerEntry.sortKey
          (IsCandidate (self.getNewestVersion parentNewest) buying selling worseThan []) r := by
  intro fuel
  -- on the fuel: each round passes a recorded key, so fewer rounds remain
  induction fuel with
  | zero => exact fun _ _ _ hlt => absurd hlt (Nat.not_lt_zero _)
  | succ fuel ih =>
    intro pb hP hR hlt
    cases pb with
    | none =>
      refine ⟨selfBest, rfl, answer_of_recorded hself fun c hc hn => ?_⟩
      obtain ⟨p, hp, -⟩ := hR c hc hn
      cases hp
    | some pb =>
      have hpb := hP pb rfl
      have hpbOk := (hpn.offerOk hpb.1).2
      have hRpb : ∀ c, IsCandidate parentNewest buying selling worseThan [] c →
          self.entry.lookup (.ledgerEntry c.key) = none → pb.sortKey ≤ c.sortKey := by
        intro c hc hn
        obtain ⟨p, hp, hpc⟩ := hR c hc hn
        cases hp
        exact hpc
      have hsbOk : ∀ sb ∈ selfBest, OfferOk sellerOf sb := by
        intro sb hsb
        rw [Option.mem_def] at hsb
        subst hsb
        exact (hrec.recordedView.offerOk hself.1.1).2
      simp only [Impl.bestOfferLoop]
      split
      · rename_i hBetter
        rw [all_isBetterOffer_iff hpbOk hsbOk] at hBetter
        split
        · rename_i hNot
          exact ⟨some pb, rfl, answer_parent hself hpb hBetter hNot hRpb⟩
        · -- `pb` is recorded here: ask the parent for the next offer
          rename_i hRecorded
          obtain ⟨next, hnext, hbest⟩ := hparent buying selling (some pb.offer.descriptor)
          rw [isBestOffer_iff hpn] at hbest
          obtain ⟨hPnext, hRnext, hFewer⟩ := next_parent_offer hpn hpb hRecorded hRpb hbest
          obtain ⟨r, hr, hAnswer⟩ := ih next hPnext hRnext (lt_of_lt_of_le hFewer (Nat.lt_succ_iff.mp hlt))
          exact ⟨r, by simp [hnext, hr, bind, Except.bind], hAnswer⟩
      · rename_i hNotBetter
        rw [all_isBetterOffer_iff hpbOk hsbOk] at hNotBetter
        cases selfBest with
        | none => exact absurd (fun sb hsb => by cases hsb) hNotBetter
        | some sb =>
          have hsbpb : sb.sortKey ≤ pb.sortKey :=
            not_lt.mp fun hlt' => hNotBetter fun sb' hsb' => by
              cases hsb'
              exact hlt'
          exact ⟨some sb, rfl, answer_self hself hsbpb hRpb⟩

end Loop

/-- For each pair with a worst best offer `W`, every offer the parent shows for the pair that is
not worse than `W` is recorded; with `W` null, every offer the parent shows for the pair. -/
def WorstBestOk (parentNewest : InternalLedgerKey K → Option (InternalLedgerEntry Asset K V))
    (self : Impl Asset K V) : Prop :=
  ∀ buying selling W, self.worstBestOffer.lookup ⟨buying, selling⟩ = some W →
    ∀ le, IsCandidate parentNewest buying selling none [] le →
      (∀ w ∈ W, isBetterOffer w le.offer.descriptor = false) →
      (self.entry.lookup (.ledgerEntry le.key)).isSome

section FastPath

variable {sellerOf : ℤ → AccountID} {parentNewest : InternalLedgerKey K → Option (InternalLedgerEntry Asset K V)}
  {self : Impl Asset K V} {parentBest : BestOfferFn Asset}

omit [DecidableEq Asset] [DecidableEq K] in
theorem BestOfferCorrect.first (hpn : ShownOk sellerOf parentNewest) (hparent : BestOfferCorrect parentNewest parentBest)
    (buying selling : Asset) (worseThan : Option OfferDescriptor) :
    ∃ pb₀, parentBest buying selling worseThan = .ok pb₀ ∧
      (∀ p ∈ pb₀, IsCandidate parentNewest buying selling worseThan [] p) ∧
      ∀ c, IsCandidate parentNewest buying selling worseThan [] c → ∃ p ∈ pb₀, p.sortKey ≤ c.sortKey := by
  obtain ⟨pb₀, h₀, hbest⟩ := hparent buying selling worseThan
  rw [isBestOffer_iff hpn] at hbest
  refine ⟨pb₀, h₀, fun p hp => ?_, fun c hc => ?_⟩
  · rw [Option.mem_def] at hp
    subst hp
    exact hbest.1
  · cases pb₀ with
    | none => exact absurd hc (hbest c)
    | some p => exact ⟨p, rfl, hbest.2 c hc⟩

theorem Impl.getBestOffer_correct (hpn : ShownOk sellerOf parentNewest) (hkept : OffersKept sellerOf self)
    (hwbo : WorstBestOk parentNewest self) (hparent : BestOfferCorrect parentNewest parentBest)
    (buying selling : Asset) :
    ∃ r, self.getBestOffer parentBest buying selling = .ok r ∧
      IsLeastBy OfferLedgerEntry.sortKey
        (IsCandidate (self.getNewestVersion parentNewest) buying selling none []) r := by
  obtain ⟨selfBest, hsb, hself⟩ := hkept.books.bookEntry_head hkept.records.offersOk buying selling
  -- the parent's first offer: past the worst best offer of the pair, when one is recorded
  have hFirst : ∃ pb₀, self.getBestOffer parentBest buying selling =
        self.bestOfferLoop parentBest buying selling selfBest (self.entry.entries.length + 1) pb₀ ∧
      (∀ p ∈ pb₀, IsCandidate parentNewest buying selling none [] p) ∧
      (∀ c, IsCandidate parentNewest buying selling none [] c → self.entry.lookup (.ledgerEntry c.key) = none →
        ∃ p ∈ pb₀, p.sortKey ≤ c.sortKey) := by
    cases hW : self.worstBestOffer.lookup ⟨buying, selling⟩ with
    | none =>
      obtain ⟨pb₀, h₀, hP, hR⟩ := hparent.first hpn buying selling none
      exact ⟨pb₀, by simp only [Impl.getBestOffer, hsb, hW, h₀, bind, Except.bind], hP, fun c hc _ => hR c hc⟩
    | some W =>
      cases W with
      | none =>
        refine ⟨none, by simp only [Impl.getBestOffer, hsb, hW, bind, Except.bind, pure, Except.pure],
          fun p hp => (by cases hp), fun c hc hn => ?_⟩
        -- with a null worst best offer, every parent offer of the pair is recorded
        have hRecorded := hwbo buying selling none hW c hc fun w hw => by cases hw
        rw [hn] at hRecorded
        cases hRecorded
      | some worst =>
        obtain ⟨pb₀, h₀, hP, hR⟩ := hparent.first hpn buying selling (some worst)
        refine ⟨pb₀, by simp only [Impl.getBestOffer, hsb, hW, h₀, bind, Except.bind], fun p hp => ?_,
          fun c hc hn => ?_⟩
        · have hp' := hP p hp
          exact ⟨hp'.1, hp'.2.buying, hp'.2.selling, fun w hw => (by cases hw), List.not_mem_nil⟩
        · -- an unrecorded parent offer of the pair is worse than the worst best offer
          have hWorse : isBetterOffer worst c.offer.descriptor = true := by
            by_contra hNot
            have hRecorded := hwbo buying selling (some worst) hW c hc fun w hw => by
              cases hw
              simpa using hNot
            rw [hn] at hRecorded
            cases hRecorded
          exact hR c ⟨hc.1, hc.2.buying, hc.2.selling, fun w hw => (by cases hw; exact hWorse), List.not_mem_nil⟩
  obtain ⟨pb₀, hEq, hP, hR⟩ := hFirst
  rw [hEq]
  exact Impl.bestOfferLoop_correct hpn hkept.records hparent hself _ pb₀ hP hR
    (Nat.lt_succ_of_le (Impl.pendingRounds_le pb₀))

omit [DecidableEq Asset] in
theorem Impl.getBestOfferWorseThan_correct (hpn : ShownOk sellerOf parentNewest) (hkept : OffersKept sellerOf self)
    (hparent : BestOfferCorrect parentNewest parentBest) (buying selling : Asset) (worseThan : OfferDescriptor) :
    ∃ r, self.getBestOfferWorseThan parentBest buying selling worseThan = .ok r ∧
      IsLeastBy OfferLedgerEntry.sortKey
        (IsCandidate (self.getNewestVersion parentNewest) buying selling (some worseThan) []) r := by
  obtain ⟨selfBest, hsb, hself⟩ := hkept.books.bookEntry_upperBound hkept.records.offersOk buying selling worseThan
  obtain ⟨pb₀, h₀, hP, hR⟩ := hparent.first hpn buying selling (some worseThan)
  have hEq : self.getBestOfferWorseThan parentBest buying selling worseThan =
      self.bestOfferLoop parentBest buying selling selfBest (self.entry.entries.length + 1) pb₀ := by
    simp only [Impl.getBestOfferWorseThan, hsb, h₀, bind, Except.bind]
  rw [hEq]
  exact Impl.bestOfferLoop_correct hpn hkept.records hparent hself _ pb₀ hP (fun c hc _ => hR c hc)
    (Nat.lt_succ_of_le (Impl.pendingRounds_le pb₀))

end FastPath

section SlowPath

variable {sellerOf : ℤ → AccountID} {parentNewest : InternalLedgerKey K → Option (InternalLedgerEntry Asset K V)}
  {self : Impl Asset K V} {buying selling : Asset} {worseThan : Option OfferDescriptor} {exclude : List ℤ}

omit [DecidableEq Asset] [DecidableEq K] in
theorem sellerOf_of_toKey {e : InternalLedgerEntry Asset K V} {sellerID : AccountID} {offerID : ℤ}
    (hk : e.toKey = .ledgerEntry (.offer sellerID offerID)) (hok : EntryOk sellerOf e) :
    sellerID = sellerOf offerID := by
  rcases e with ⟨seq, data⟩ | ⟨k, v⟩
  · cases data with
    | offer o =>
      simp only [InternalLedgerEntry.toKey, LedgerEntry.key, InternalLedgerKey.ledgerEntry.injEq,
        LedgerKey.offer.injEq] at hk
      obtain ⟨rfl, rfl⟩ := hk
      exact (hok ⟨seq, o⟩ rfl).2
    | configSetting _ _ => cases hk
    | other _ _ => cases hk
  · cases hk

omit [DecidableEq Asset] in
theorem recorded_offer_key (hpn : ShownOk sellerOf parentNewest) (hrec : RecordsOk sellerOf self)
    (hagree : EntriesAgree parentNewest self) {sellerID : AccountID} {offerID : ℤ}
    {p : LedgerEntryPtr (InternalLedgerEntry Asset K V)}
    (hp : self.entry.lookup (.ledgerEntry (.offer sellerID offerID)) = some p) : sellerID = sellerOf offerID := by
  cases hGet : p.get with
  | some e =>
    obtain ⟨hKey, hOk⟩ := hrec _ p e hp hGet
    exact sellerOf_of_toKey hKey hOk
  | none =>
    -- a deleted entry stands where the parent shows one
    have hDeleted : p = .deleted := (LedgerEntryPtr.get_eq_none_iff p).mp hGet
    have hAgrees := hagree.agrees _ p hp
    rw [hDeleted] at hAgrees
    obtain ⟨e, he⟩ := Option.isSome_iff_exists.mp hAgrees
    obtain ⟨hKey, hOk⟩ := hpn _ e he
    exact sellerOf_of_toKey hKey hOk

omit [DecidableEq K] in
theorem slowStep_spec {r : Option (OfferLedgerEntry Asset)} {E : List ℤ} {P : OfferLedgerEntry Asset → Prop}
    (hr : IsLeastBy OfferLedgerEntry.sortKey P r) (hP : ∀ c, P c → OfferOk sellerOf c)
    (d : Sigma fun _ : InternalLedgerKey K => LedgerEntryPtr (InternalLedgerEntry Asset K V))
    (hd : ∀ e, d.2.get = some e → e.toKey = d.1 ∧ EntryOk sellerOf e)
    (hE : ∀ s x, d.1 = .ledgerEntry (.offer s x) → (x ∈ E ↔ x ∈ exclude)) :
    (∀ x, x ∈ (Impl.slowStep buying selling worseThan (r, E) d).2 ↔
      x ∈ E ∨ ∃ s, d.1 = .ledgerEntry (.offer s x)) ∧
    IsLeastBy OfferLedgerEntry.sortKey (fun c => P c ∨ .ledgerEntry c.key = d.1 ∧
        (d.2.get >>= InternalLedgerEntry.offerEntry?) = some c ∧ OfferMatches buying selling worseThan exclude c)
      (Impl.slowStep buying selling worseThan (r, E) d).1 := by
  obtain ⟨k, p⟩ := d
  have hOffer : ∀ c, (p.get >>= InternalLedgerEntry.offerEntry?) = some c →
      InternalLedgerKey.ledgerEntry c.key = k ∧ OfferOk sellerOf c := fun c hc => newOffer_ok hd hc
  have hKeep : (∀ c, InternalLedgerKey.ledgerEntry c.key = k → (p.get >>= InternalLedgerEntry.offerEntry?) = some c →
      ¬ OfferMatches buying selling worseThan exclude c) →
      IsLeastBy OfferLedgerEntry.sortKey (fun c => P c ∨ .ledgerEntry c.key = k ∧
        (p.get >>= InternalLedgerEntry.offerEntry?) = some c ∧ OfferMatches buying selling worseThan exclude c) r :=
    fun hNone => hr.congr fun c => ⟨.inl, fun h => h.elim id fun hkcm => absurd hkcm.2.2 (hNone c hkcm.1 hkcm.2.1)⟩
  unfold Impl.slowStep
  split
  · rename_i s x hk
    subst hk
    have hx := hE s x rfl
    split
    · -- an id already excluded: an offer with it is excluded too
      rename_i hxE
      refine ⟨fun y => ⟨.inl, fun h => h.elim id fun hs => ?_⟩, hKeep fun c hk _ hm => ?_⟩
      · obtain ⟨s', hs'⟩ := hs
        simp only [InternalLedgerKey.ledgerEntry.injEq, LedgerKey.offer.injEq] at hs'
        rw [← hs'.2]
        exact hxE
      · simp only [OfferLedgerEntry.key, InternalLedgerKey.ledgerEntry.injEq, LedgerKey.offer.injEq] at hk
        exact hm.fresh (hk.2 ▸ hx.mp hxE)
    · rename_i hxE
      have hIds : ∀ y, y ∈ x :: E ↔ y ∈ E ∨ ∃ s', (InternalLedgerKey.ledgerEntry (.offer s x) : InternalLedgerKey K) =
          .ledgerEntry (.offer s' y) := by
        intro y
        simp only [List.mem_cons, InternalLedgerKey.ledgerEntry.injEq, LedgerKey.offer.injEq]
        constructor
        · rintro (rfl | hy)
          · exact .inr ⟨s, rfl, rfl⟩
          · exact .inl hy
        · rintro (hy | ⟨s', -, rfl⟩)
          · exact .inr hy
          · exact .inl rfl
      split
      · rename_i le hle
        rw [← Option.bind_eq_bind] at hle
        obtain ⟨hleKey, hleOk⟩ := hOffer le hle
        have hleId : le.offer.offerID = x := by
          simp only [OfferLedgerEntry.key, InternalLedgerKey.ledgerEntry.injEq, LedgerKey.offer.injEq] at hleKey
          exact hleKey.2
        have hNew : ∀ c, ((InternalLedgerKey.ledgerEntry c.key : InternalLedgerKey K) = .ledgerEntry (.offer s x) ∧
            (p.get >>= InternalLedgerEntry.offerEntry?) = some c ∧ OfferMatches buying selling worseThan exclude c) ↔
            c = le ∧ OfferMatches buying selling worseThan exclude le := by
          intro c
          rw [hle]
          constructor
          · rintro ⟨-, hc, hm⟩
            cases hc
            exact ⟨rfl, hm⟩
          · rintro ⟨rfl, hm⟩
            exact ⟨hleKey, rfl, hm⟩
        split
        · rename_i hPair
          refine ⟨hIds, hKeep fun c _ hc hm => ?_⟩
          rw [hle] at hc
          cases hc
          simp [hm.buying, hm.selling] at hPair
        · split
          · rename_i hNotWorse
            refine ⟨hIds, hKeep fun c _ hc hm => ?_⟩
            rw [hle] at hc
            cases hc
            cases worseThan with
            | none => simp at hNotWorse
            | some w => simp [hm.worse w rfl] at hNotWorse
          · rename_i hNotPair hWorse
            have hMatches : OfferMatches buying selling worseThan exclude le := by
              obtain ⟨hb, hs⟩ : le.offer.buying = buying ∧ le.offer.selling = selling := by simpa using hNotPair
              refine ⟨hb, hs, fun w hw => ?_, hleId ▸ fun hxExcl => hxE (hx.mpr hxExcl)⟩
              cases hw
              simpa using hWorse
            have hCands : ∀ c, (c = le ∨ P c) ↔ (P c ∨ (InternalLedgerKey.ledgerEntry c.key : InternalLedgerKey K) =
                .ledgerEntry (.offer s x) ∧ (p.get >>= InternalLedgerEntry.offerEntry?) = some c ∧
                OfferMatches buying selling worseThan exclude c) := by
              intro c
              rw [hNew c]
              constructor
              · rintro (rfl | h)
                · exact .inr ⟨rfl, hMatches⟩
                · exact .inl h
              · rintro (h | ⟨rfl, -⟩)
                · exact .inr h
                · exact .inl rfl
            have hCond : (r.all fun sb => isBetterOffer le.offer.descriptor sb.offer.descriptor) =
                r.all fun c => decide (le.sortKey < c.sortKey) := by
              cases r with
              | none => rfl
              | some sb => exact isBetterOffer_eq_decide hleOk.1 (hP sb hr.1).1
            have hScan := (hr.insert le).congr hCands
            rw [← hCond] at hScan
            split
            · rename_i hC
              rw [if_pos hC] at hScan
              exact ⟨hIds, hScan⟩
            · rename_i hC
              rw [if_neg hC] at hScan
              exact ⟨hIds, hScan⟩
      · rename_i hNone
        rw [← Option.bind_eq_bind] at hNone
        refine ⟨hIds, hKeep fun c _ hc _ => ?_⟩
        rw [hNone] at hc
        cases hc
  · rename_i hNotOffer
    refine ⟨fun y => ⟨.inl, fun h => h.elim id fun hs => hs.elim fun s' hs' => absurd hs' (hNotOffer s' y)⟩,
      hKeep fun c hk _ _ => absurd hk.symm (hNotOffer _ _)⟩

omit [DecidableEq K] in
theorem slowScan_spec (buying selling : Asset) (worseThan : Option OfferDescriptor) (exclude : List ℤ) :
    ∀ (l : List (Sigma fun _ : InternalLedgerKey K => LedgerEntryPtr (InternalLedgerEntry Asset K V)))
    (r : Option (OfferLedgerEntry Asset)) (E : List ℤ) (P : OfferLedgerEntry Asset → Prop),
    l.NodupKeys →
    (∀ d ∈ l, ∀ e, d.2.get = some e → e.toKey = d.1 ∧ EntryOk sellerOf e) →
    (∀ d ∈ l, ∀ s x, d.1 = .ledgerEntry (.offer s x) → s = sellerOf x) →
    (∀ d ∈ l, ∀ s x, d.1 = .ledgerEntry (.offer s x) → (x ∈ E ↔ x ∈ exclude)) →
    (∀ c, P c → OfferOk sellerOf c) → IsLeastBy OfferLedgerEntry.sortKey P r →
    (∀ x, x ∈ (l.foldl (Impl.slowStep buying selling worseThan) (r, E)).2 ↔
      x ∈ E ∨ ∃ s, (.ledgerEntry (.offer s x) : InternalLedgerKey K) ∈ l.keys) ∧
    IsLeastBy OfferLedgerEntry.sortKey (fun c => P c ∨ ∃ d ∈ l, .ledgerEntry c.key = d.1 ∧
        (d.2.get >>= InternalLedgerEntry.offerEntry?) = some c ∧ OfferMatches buying selling worseThan exclude c)
      (l.foldl (Impl.slowStep buying selling worseThan) (r, E)).1
  | [], r, E, P, _, _, _, _, _, hr => ⟨fun x => by simp, hr.congr fun c => by simp⟩
  | d :: l, r, E, P, hl, hRec, hKeys, hE, hP, hr => by
    rw [List.foldl_cons]
    obtain ⟨hdl, hl'⟩ := List.nodupKeys_cons.mp hl
    obtain ⟨hIds₁, hScan₁⟩ := slowStep_spec hr hP d (hRec d List.mem_cons_self) (hE d List.mem_cons_self)
    -- a later offer key has an id other than that of `d`, since the id names the key
    have hE₁ : ∀ d' ∈ l, ∀ s x, d'.1 = .ledgerEntry (.offer s x) →
        (x ∈ (Impl.slowStep buying selling worseThan (r, E) d).2 ↔ x ∈ exclude) := by
      intro d' hd' s x hs
      rw [hIds₁, ← hE d' (List.mem_cons_of_mem _ hd') s x hs]
      refine or_iff_left fun ⟨s', hs'⟩ => hdl ?_
      have hs₁ := hKeys d List.mem_cons_self s' x hs'
      have hs₂ := hKeys d' (List.mem_cons_of_mem _ hd') s x hs
      rw [hs', hs₁, ← hs₂, ← hs]
      exact List.mem_keys_of_mem hd'
    have hP₁ : ∀ c, (P c ∨ .ledgerEntry c.key = d.1 ∧ (d.2.get >>= InternalLedgerEntry.offerEntry?) = some c ∧
        OfferMatches buying selling worseThan exclude c) → OfferOk sellerOf c := by
      rintro c (hc | ⟨-, hc, -⟩)
      · exact hP c hc
      · exact (newOffer_ok (hRec d List.mem_cons_self) hc).2
    obtain ⟨hIds, hScan⟩ := slowScan_spec buying selling worseThan exclude l _ _ _ hl'
      (fun d' hd' => hRec d' (List.mem_cons_of_mem _ hd'))
      (fun d' hd' => hKeys d' (List.mem_cons_of_mem _ hd')) hE₁ hP₁ hScan₁
    refine ⟨fun x => ?_, hScan.congr fun c => ?_⟩
    · rw [hIds, hIds₁, List.keys_cons]
      constructor
      · rintro ((hx | ⟨s, hs⟩) | ⟨s, hs⟩)
        · exact .inl hx
        · exact .inr ⟨s, hs ▸ List.mem_cons_self⟩
        · exact .inr ⟨s, List.mem_cons_of_mem _ hs⟩
      · rintro (hx | ⟨s, hs⟩)
        · exact .inl (.inl hx)
        · rcases List.mem_cons.mp hs with hs | hs
          · exact .inl (.inr ⟨s, hs.symm⟩)
          · exact .inr ⟨s, hs⟩
    · simp only [List.mem_cons, exists_eq_or_imp, or_assoc]

omit [DecidableEq Asset] in
theorem recorded_id_iff (hpn : ShownOk sellerOf parentNewest) (hrec : RecordsOk sellerOf self)
    (hagree : EntriesAgree parentNewest self) {c : OfferLedgerEntry Asset}
    (hc : shownOffer parentNewest c.key = some c) :
    (∃ s, (.ledgerEntry (.offer s c.offer.offerID) : InternalLedgerKey K) ∈ self.entry.entries.keys) ↔
      self.entry.lookup (.ledgerEntry c.key) ≠ none := by
  have hcOk := (hpn.offerOk hc).2
  constructor
  · rintro ⟨s, hs⟩
    obtain ⟨p, hp⟩ := Option.isSome_iff_exists.mp (AList.lookup_isSome.mpr (AList.mem_keys.mpr hs))
    have hs' := recorded_offer_key hpn hrec hagree hp
    rw [OfferLedgerEntry.key, hcOk.2, ← hs', hp]
    exact Option.some_ne_none p
  · intro hRecorded
    exact ⟨c.offer.sellerID, AList.mem_keys.mp (AList.lookup_isSome.mp (Option.isSome_iff_ne_none.mpr hRecorded))⟩

omit [DecidableEq Asset] in
theorem scanned_candidate_iff (c : OfferLedgerEntry Asset) :
    (False ∨ ∃ d ∈ self.entry.entries, .ledgerEntry c.key = d.1 ∧
        (d.2.get >>= InternalLedgerEntry.offerEntry?) = some c ∧ OfferMatches buying selling worseThan exclude c) ↔
      IsCandidate self.recordedView buying selling worseThan exclude c := by
  simp only [false_or, IsCandidate, shownOffer_recordedView, Impl.recordedOffer]
  constructor
  · rintro ⟨⟨k, p⟩, hd, hk, hc, hm⟩
    simp only at hk hc
    subst hk
    rw [AList.mem_lookup_iff.mpr hd]
    exact ⟨hc, hm⟩
  · rintro ⟨hc, hm⟩
    obtain ⟨e, he, hOffer⟩ := Option.bind_eq_some_iff.mp hc
    obtain ⟨p, hp, hpe⟩ := Option.bind_eq_some_iff.mp he
    refine ⟨⟨_, p⟩, AList.mem_lookup_iff.mp hp, rfl, ?_, hm⟩
    show p.get >>= InternalLedgerEntry.offerEntry? = some c
    rw [hpe]
    exact hOffer

theorem Impl.getBestOfferSlow_correct (hpn : ShownOk sellerOf parentNewest) (hrec : RecordsOk sellerOf self)
    (hagree : EntriesAgree parentNewest self)
    {parentSlow : Asset → Asset → Option OfferDescriptor → List ℤ → Option (OfferLedgerEntry Asset)}
    (hparent : SlowOfferCorrect parentNewest parentSlow) :
    SlowOfferCorrect (self.getNewestVersion parentNewest) (self.getBestOfferSlow parentSlow) := by
  intro buying selling worseThan exclude
  rw [isBestOffer_iff (hrec.shownOk hpn)]
  obtain ⟨hIds, hScan⟩ := slowScan_spec buying selling worseThan exclude self.entry.entries none exclude
    (fun _ => False) self.entry.nodupKeys (fun d hd e he => hrec d.1 d.2 e (AList.mem_lookup_iff.mpr hd) he)
    (fun d hd s x hs => recorded_offer_key hpn hrec hagree (hs ▸ AList.mem_lookup_iff.mpr hd))
    (fun _ _ _ _ _ => Iff.rfl) (fun c hc => hc.elim) (fun c hc => hc)
  have hEq : self.getBestOfferSlow parentSlow buying selling worseThan exclude =
      minBy OfferLedgerEntry.sortKey (self.entry.entries.foldl (Impl.slowStep buying selling worseThan) (none, exclude)).1
        (parentSlow buying selling worseThan
          (self.entry.entries.foldl (Impl.slowStep buying selling worseThan) (none, exclude)).2) := by
    have ha : ∀ x ∈ (self.entry.entries.foldl (Impl.slowStep buying selling worseThan) (none, exclude)).1,
        OfferOk sellerOf x := by
      intro x hx
      rw [Option.mem_def] at hx
      have hx' := hScan.congr scanned_candidate_iff
      rw [hx] at hx'
      exact (hrec.recordedView.offerOk hx'.1.1).2
    have hb : ∀ y ∈ parentSlow buying selling worseThan
        (self.entry.entries.foldl (Impl.slowStep buying selling worseThan) (none, exclude)).2, OfferOk sellerOf y := by
      intro y hy
      rw [Option.mem_def] at hy
      have hy' := hparent buying selling worseThan
        (self.entry.entries.foldl (Impl.slowStep buying selling worseThan) (none, exclude)).2
      rw [hy] at hy'
      exact (hpn.offerOk hy'.1.1).2
    simp only [Impl.getBestOfferSlow]
    split
    · rename_i sb ha' hb'
      rw [ha', hb']
      rfl
    · rename_i pb ha' hb'
      rw [ha', hb']
      rfl
    · rename_i sb pb ha' hb'
      rw [ha', hb']
      rw [ha'] at ha
      rw [hb'] at hb
      simp only [minBy, isBetterOffer_iff_sortKey (ha sb rfl) (hb pb rfl)]
    · rename_i ha' hb'
      rw [ha', hb']
      rfl
  generalize self.entry.entries.foldl (Impl.slowStep buying selling worseThan) (none, exclude) = scanned at hIds hScan hEq
  have hParentCands : ∀ c, IsCandidate parentNewest buying selling worseThan scanned.2 c ↔
      self.entry.lookup (.ledgerEntry c.key) = none ∧ IsCandidate parentNewest buying selling worseThan exclude c := by
    intro c
    constructor
    · rintro ⟨hc, hm⟩
      have hFresh := hm.fresh
      rw [hIds, not_or, recorded_id_iff hpn hrec hagree hc, not_not] at hFresh
      exact ⟨hFresh.2, hc, ⟨hm.buying, hm.selling, hm.worse, hFresh.1⟩⟩
    · rintro ⟨hn, hc, hm⟩
      refine ⟨hc, ⟨hm.buying, hm.selling, hm.worse, ?_⟩⟩
      rw [hIds, not_or, recorded_id_iff hpn hrec hagree hc, not_not]
      exact ⟨hm.fresh, hn⟩
  have hParent := ((isBestOffer_iff hpn).mp (hparent buying selling worseThan scanned.2)).congr hParentCands
  rw [hEq]
  exact ((hScan.congr scanned_candidate_iff).minBy hParent).congr fun c =>
    (isCandidate_getNewestVersion_iff self parentNewest c).symm

end SlowPath

end HcnetCore.Ledger
