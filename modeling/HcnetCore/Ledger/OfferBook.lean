import HcnetCore.Ledger.EntryState
import HcnetCore.Ledger.OfferOrder
import HcnetCore.Ledger.BestOffer

/-! # The order books hold the recorded offers

Between operations, the order book of a `LedgerTxn` for a pair of assets lists exactly
the offers of that pair that it records live, sorted by `isBetterOffer`. While an entry is
active its offer is out of the book, and `deactivate` puts it back. This rests on two facts
the ledger keeps about offers: their prices are not `0/0`, and an offer id names its
seller, so that no two offers share an id.
-/

namespace HcnetCore.Ledger

set_option autoImplicit false

variable {Asset K V : Type} [DecidableEq Asset] [DecidableEq K]

namespace InternalLedgerEntry

omit [DecidableEq Asset] [DecidableEq K] in
theorem offer?_eq (e : InternalLedgerEntry Asset K V) : e.offer? = e.offerEntry?.map (·.offer) := by
  rcases e with ⟨seq, data⟩ | ⟨k, v⟩
  · cases data <;> rfl
  · rfl

omit [DecidableEq Asset] [DecidableEq K] in
theorem toKey_of_offerEntry? {e : InternalLedgerEntry Asset K V} {le : OfferLedgerEntry Asset}
    (h : e.offerEntry? = some le) : e.toKey = .ledgerEntry le.key := by
  rcases e with ⟨seq, data⟩ | ⟨k, v⟩
  · cases data with
    | offer o =>
      cases h
      rfl
    | configSetting _ _ => cases h
    | other _ _ => cases h
  · cases h

end InternalLedgerEntry

/-- The offer that a `LedgerTxn` records live at a ledger key. -/
def Impl.recordedOffer (self : Impl Asset K V) (k : LedgerKey K) : Option (OfferLedgerEntry Asset) :=
  (self.entry.lookup (.ledgerEntry k)).bind LedgerEntryPtr.get >>= InternalLedgerEntry.offerEntry?

/-- What the ledger keeps of every offer: its price compares, and its id names its seller. -/
def OfferOk (sellerOf : ℤ → AccountID) (le : OfferLedgerEntry Asset) : Prop :=
  le.offer.price.Comparable ∧ le.offer.sellerID = sellerOf le.offer.offerID

/-- Every offer an entry holds is as the ledger keeps offers. -/
def EntryOk (sellerOf : ℤ → AccountID) (e : InternalLedgerEntry Asset K V) : Prop :=
  ∀ le, e.offerEntry? = some le → OfferOk sellerOf le

omit [DecidableEq Asset] [DecidableEq K] in
theorem OfferOk.key_eq {sellerOf : ℤ → AccountID} {le : OfferLedgerEntry Asset} (h : OfferOk sellerOf le) :
    (le.key : LedgerKey K) = .offer (sellerOf le.offer.offerID) le.offer.offerID := by
  rw [OfferLedgerEntry.key, h.2]

theorem offerID_eq_of_sortKey_eq {d d' : OfferDescriptor} (h : d.sortKey = d'.sortKey) :
    d.offerID = d'.offerID :=
  (Prod.ext_iff.mp (toLex.injective h)).2

omit [DecidableEq Asset] [DecidableEq K] in
theorem key_eq_of_sortKey_eq {sellerOf : ℤ → AccountID} {le le' : OfferLedgerEntry Asset}
    (hle : OfferOk sellerOf le) (hle' : OfferOk sellerOf le')
    (h : le.offer.descriptor.sortKey = le'.offer.descriptor.sortKey) : (le.key : LedgerKey K) = le'.key := by
  have hid : le.offer.offerID = le'.offer.offerID := offerID_eq_of_sortKey_eq h
  rw [hle.key_eq, hle'.key_eq, hid]

omit [DecidableEq K] in
theorem MultiOrderBook.modify_apply (mob : MultiOrderBook Asset K) (buying selling : Asset)
    (f : OrderBook K → OrderBook K) (b s : Asset) :
    mob.modify buying selling f b s = if b = buying ∧ s = selling then f (mob b s) else mob b s := by
  unfold MultiOrderBook.modify
  by_cases hb : b = buying
  · subst hb
    by_cases hs : s = selling
    · subst hs
      simp
    · simp [hs]
  · simp [hb]

/-- The order books of `self` list, sorted, exactly the offers it records live, but the one at
the `active` key. -/
structure BookMatches (ltx : Impl Asset K V) (active : Option (InternalLedgerKey K)) : Prop where
  sorted : ∀ b s, SortedList.Sorted OrderBook.sortKey (ltx.multiOrderBook b s)
  mem : ∀ b s d k, (d, k) ∈ ltx.multiOrderBook b s ↔
    active ≠ some (.ledgerEntry k) ∧ ∃ le, ltx.recordedOffer k = some le ∧ le.offer.buying = b ∧
      le.offer.selling = s ∧ le.offer.descriptor = d

/-- Every offer `self` records is under its own key and as the ledger keeps offers. -/
def OffersOk (sellerOf : ℤ → AccountID) (self : Impl Asset K V) : Prop :=
  ∀ k le, self.recordedOffer k = some le → le.key = k ∧ OfferOk sellerOf le

/-- Every entry `self` records is under its own key and holds offers as the ledger keeps them. -/
def RecordsOk (sellerOf : ℤ → AccountID) (self : Impl Asset K V) : Prop :=
  ∀ key p e, self.entry.lookup key = some p → p.get = some e → e.toKey = key ∧ EntryOk sellerOf e

omit [DecidableEq Asset] in
theorem Impl.recordedOffer_eq_some {self : Impl Asset K V} {k : LedgerKey K} {le : OfferLedgerEntry Asset} :
    self.recordedOffer k = some le ↔ ∃ p e, self.entry.lookup (.ledgerEntry k) = some p ∧ p.get = some e ∧
      e.offerEntry? = some le := by
  simp only [Impl.recordedOffer, Option.bind_eq_bind, Option.bind_eq_some_iff]
  constructor
  · rintro ⟨e, ⟨p, hp, he⟩, hle⟩
    exact ⟨p, e, hp, he, hle⟩
  · rintro ⟨p, e, hp, he, hle⟩
    exact ⟨e, ⟨p, hp, he⟩, hle⟩

omit [DecidableEq Asset] in
theorem RecordsOk.offersOk {sellerOf : ℤ → AccountID} {self : Impl Asset K V} (h : RecordsOk sellerOf self) :
    OffersOk sellerOf self := by
  intro k le hle
  obtain ⟨p, e, hp, he, hOffer⟩ := Impl.recordedOffer_eq_some.mp hle
  obtain ⟨hKey, hOk⟩ := h _ p e hp he
  rw [InternalLedgerEntry.toKey_of_offerEntry? hOffer] at hKey
  exact ⟨InternalLedgerKey.ledgerEntry.inj hKey, hOk le hOffer⟩

section Book

variable {sellerOf : ℤ → AccountID} {self : Impl Asset K V} {active : Option (InternalLedgerKey K)}

omit [DecidableEq Asset] in
theorem BookMatches.comparable (h : BookMatches self active) (hok : OffersOk sellerOf self)
    {b s : Asset} {e : OfferDescriptor × LedgerKey K} (he : e ∈ self.multiOrderBook b s) :
    e.1.price.Comparable := by
  obtain ⟨-, le, hle, -, -, hd⟩ := (h.mem b s e.1 e.2).mp he
  rw [← hd]
  exact (hok e.2 le hle).2.1

omit [DecidableEq Asset] in
theorem BookMatches.key_of_sortKey (h : BookMatches self active) (hok : OffersOk sellerOf self)
    {b s : Asset} {d : OfferDescriptor} {k' : LedgerKey K} (hmem : (d, k') ∈ self.multiOrderBook b s)
    {le : OfferLedgerEntry Asset} {k : LedgerKey K} (hk : le.key = k) (hle : OfferOk sellerOf le)
    (hd : d.sortKey = le.offer.descriptor.sortKey) : k' = k := by
  obtain ⟨-, le', hle', -, -, rfl⟩ := (h.mem b s d k').mp hmem
  obtain ⟨hk', hok'⟩ := hok k' le' hle'
  rw [← hk', ← hk]
  exact key_eq_of_sortKey_eq hok' hle hd

omit [DecidableEq Asset] [DecidableEq K] in
theorem bind_offer? (o : Option (InternalLedgerEntry Asset K V)) :
    (o >>= InternalLedgerEntry.offer?) = (o >>= InternalLedgerEntry.offerEntry?).map (·.offer) := by
  cases o with
  | none => rfl
  | some e => exact e.offer?_eq

/-- The books with the offer recorded at `k` taken out: the first half of `updateEntry`'s work
on the books. -/
def Impl.booksWithout (self : Impl Asset K V) (k : LedgerKey K) : MultiOrderBook Asset K :=
  match (self.recordedOffer k).map (·.offer) with
  | some oe => removeFromOrderBookIfExists self.multiOrderBook oe
  | none => self.multiOrderBook

theorem BookMatches.booksWithout (h : BookMatches self active) (hok : OffersOk sellerOf self)
    (k : LedgerKey K) :
    (∀ b s, SortedList.Sorted OrderBook.sortKey (self.booksWithout k b s)) ∧
      ∀ b s d k', (d, k') ∈ self.booksWithout k b s ↔ k' ≠ k ∧ (d, k') ∈ self.multiOrderBook b s := by
  unfold Impl.booksWithout
  cases hOld : self.recordedOffer k with
  | none =>
    -- no offer is recorded at `k`, so no element of the books has key `k`
    refine ⟨h.sorted, fun b s d k' => ⟨fun hmem => ⟨fun hk => ?_, hmem⟩, fun hmem => hmem.2⟩⟩
    obtain ⟨-, le, hle, -⟩ := (h.mem b s d k').mp hmem
    rw [hk, hOld] at hle
    cases hle
  | some old =>
    obtain ⟨hkOld, hokOld⟩ := hok k old hOld
    have hErase : ∀ b s, OrderBook.erase old.offer.descriptor (self.multiOrderBook b s) =
        (self.multiOrderBook b s).eraseP fun e => OrderBook.sortKey e = old.offer.descriptor.sortKey :=
      fun b s => OrderBook.erase_eq hokOld.1 fun e he => h.comparable hok he
    -- an element of the books has the sort key of `old` exactly when it is the one at `k`
    have hAtK : ∀ b s d k', (d, k') ∈ self.multiOrderBook b s →
        (d.sortKey = old.offer.descriptor.sortKey ↔ k' = k) := by
      intro b s d k' hmem
      refine ⟨h.key_of_sortKey hok hmem hkOld hokOld, ?_⟩
      rintro rfl
      obtain ⟨-, le, hle, -, -, rfl⟩ := (h.mem b s d k').mp hmem
      rw [hOld] at hle
      cases hle
      rfl
    refine ⟨fun b s => ?_, fun b s d k' => ?_⟩
    · simp only [Option.map_some, removeFromOrderBookIfExists, MultiOrderBook.modify_apply]
      split
      · rw [hErase]
        exact SortedList.sorted_eraseP (h.sorted b s) _
      · exact h.sorted b s
    · simp only [Option.map_some, removeFromOrderBookIfExists, MultiOrderBook.modify_apply]
      split
      · rw [hErase, SortedList.mem_eraseP_key (h.sorted b s)]
        constructor
        · rintro ⟨hmem, hne⟩
          exact ⟨fun hk => hne ((hAtK b s d k' hmem).mpr hk), hmem⟩
        · rintro ⟨hne, hmem⟩
          exact ⟨hmem, fun hd => hne ((hAtK b s d k' hmem).mp hd)⟩
      · rename_i hPair
        refine ⟨fun hmem => ⟨fun hk => hPair ?_, hmem⟩, fun hmem => hmem.2⟩
        obtain ⟨-, le, hle, hb, hs, -⟩ := (h.mem b s d k').mp hmem
        rw [hk, hOld] at hle
        cases hle
        exact ⟨hb.symm, hs.symm⟩

theorem Impl.updatedOrderBook_offer_put (self : Impl Asset K V) (sellerID : AccountID) (offerID : ℤ)
    {p : LedgerEntryPtr (InternalLedgerEntry Asset K V)} {le : OfferLedgerEntry Asset}
    (hle : (p.get >>= InternalLedgerEntry.offerEntry?) = some le) :
    self.updatedOrderBook (.ledgerEntry (.offer sellerID offerID)) p false =
      (self.booksWithout (.offer sellerID offerID)).modify le.offer.buying le.offer.selling
        (OrderBook.emplace le.offer.descriptor (.offer sellerID offerID)) := by
  simp only [Impl.updatedOrderBook, Impl.booksWithout, Impl.recordedOffer, bind_offer?, hle]
  rfl

theorem Impl.updatedOrderBook_offer_keep (self : Impl Asset K V) (sellerID : AccountID) (offerID : ℤ)
    {p : LedgerEntryPtr (InternalLedgerEntry Asset K V)} {effectiveActive : Bool}
    (hKeep : ∀ le, (p.get >>= InternalLedgerEntry.offerEntry?) = some le → effectiveActive = true) :
    self.updatedOrderBook (.ledgerEntry (.offer sellerID offerID)) p effectiveActive =
      self.booksWithout (.offer sellerID offerID) := by
  simp only [Impl.updatedOrderBook, Impl.booksWithout, Impl.recordedOffer, bind_offer?]
  rcases Option.eq_none_or_eq_some (p.get >>= InternalLedgerEntry.offerEntry?) with hNone | ⟨le, hle⟩
  · rw [hNone]
    rfl
  · rw [hle, hKeep le hle]
    rfl

theorem BookMatches.updatedOrderBook (h : BookMatches self active) (hok : OffersOk sellerOf self)
    {sellerID : AccountID} {offerID : ℤ} {p : LedgerEntryPtr (InternalLedgerEntry Asset K V)}
    (hnew : ∀ le, (p.get >>= InternalLedgerEntry.offerEntry?) = some le →
      le.key = (.offer sellerID offerID : LedgerKey K) ∧ OfferOk sellerOf le) (effectiveActive : Bool) :
    (∀ b s, SortedList.Sorted OrderBook.sortKey
        (self.updatedOrderBook (.ledgerEntry (.offer sellerID offerID)) p effectiveActive b s)) ∧
      ∀ b s d k', (d, k') ∈ self.updatedOrderBook (.ledgerEntry (.offer sellerID offerID)) p effectiveActive b s ↔
        (k' ≠ .offer sellerID offerID ∧ (d, k') ∈ self.multiOrderBook b s) ∨
        (k' = .offer sellerID offerID ∧ effectiveActive = false ∧
          ∃ le, (p.get >>= InternalLedgerEntry.offerEntry?) = some le ∧ le.offer.buying = b ∧
            le.offer.selling = s ∧ le.offer.descriptor = d) := by
  obtain ⟨hSorted₁, hMem₁⟩ := h.booksWithout hok (.offer sellerID offerID)
  -- without a new offer to put in, the books are those with the old one taken out
  have hKeep : (∀ le, (p.get >>= InternalLedgerEntry.offerEntry?) = some le → effectiveActive = true) →
      (∀ b s, SortedList.Sorted OrderBook.sortKey
        (self.updatedOrderBook (.ledgerEntry (.offer sellerID offerID)) p effectiveActive b s)) ∧
      ∀ b s d k', (d, k') ∈ self.updatedOrderBook (.ledgerEntry (.offer sellerID offerID)) p effectiveActive b s ↔
        (k' ≠ .offer sellerID offerID ∧ (d, k') ∈ self.multiOrderBook b s) ∨
        (k' = .offer sellerID offerID ∧ effectiveActive = false ∧
          ∃ le, (p.get >>= InternalLedgerEntry.offerEntry?) = some le ∧ le.offer.buying = b ∧
            le.offer.selling = s ∧ le.offer.descriptor = d) := by
    intro hNone
    rw [Impl.updatedOrderBook_offer_keep self sellerID offerID hNone]
    refine ⟨hSorted₁, fun b s d k' => ?_⟩
    rw [hMem₁]
    constructor
    · exact .inl
    · rintro (h₁ | ⟨-, hEff, le, hle, -⟩)
      · exact h₁
      · rw [hNone le hle] at hEff
        cases hEff
  cases effectiveActive with
  | true => exact hKeep fun _ _ => rfl
  | false =>
    rcases Option.eq_none_or_eq_some (p.get >>= InternalLedgerEntry.offerEntry?) with hNone | ⟨le, hNew⟩
    · exact hKeep fun le hle => by rw [hNone] at hle; cases hle
    obtain ⟨hkNew, hokNew⟩ := hnew le hNew
    rw [Impl.updatedOrderBook_offer_put self sellerID offerID hNew]
    have hComp : ∀ b s, ∀ e ∈ self.booksWithout (.offer sellerID offerID) b s, e.1.price.Comparable :=
      fun b s e he => h.comparable hok ((hMem₁ b s e.1 e.2).mp he).2
    -- no element left in the books shares the new offer's id
    have hFresh : ∀ y ∈ self.booksWithout (.offer sellerID offerID) le.offer.buying le.offer.selling,
        OrderBook.sortKey y ≠ le.offer.descriptor.sortKey := by
      intro y hy hy'
      obtain ⟨hne, hmem⟩ := (hMem₁ _ _ y.1 y.2).mp hy
      exact hne (h.key_of_sortKey hok hmem hkNew hokNew hy')
    refine ⟨fun b s => ?_, fun b s d k' => ?_⟩
    · rw [MultiOrderBook.modify_apply]
      split
      · rename_i hPair
        obtain ⟨rfl, rfl⟩ := hPair
        rw [OrderBook.emplace_eq hokNew.1 (hComp _ _)]
        exact SortedList.sorted_emplace (hSorted₁ _ _)
      · exact hSorted₁ b s
    · rw [MultiOrderBook.modify_apply]
      split
      · rename_i hPair
        obtain ⟨rfl, rfl⟩ := hPair
        rw [OrderBook.emplace_eq hokNew.1 (hComp _ _), SortedList.mem_emplace hFresh, hMem₁]
        constructor
        · rintro (hEq | h₁)
          · cases hEq
            exact .inr ⟨rfl, rfl, le, hNew, rfl, rfl, rfl⟩
          · exact .inl h₁
        · rintro (h₁ | ⟨rfl, -, le', hle', -, -, rfl⟩)
          · exact .inr h₁
          · rw [hNew] at hle'
            cases hle'
            exact .inl rfl
      · rename_i hPair
        rw [hMem₁]
        constructor
        · exact .inl
        · rintro (h₁ | ⟨-, -, le', hle', hb, hs, -⟩)
          · exact h₁
          · rw [hNew] at hle'
            cases hle'
            exact absurd ⟨hb.symm, hs.symm⟩ hPair

theorem Impl.updatedOrderBook_of_not_offer (self : Impl Asset K V) {key : InternalLedgerKey K}
    (hkey : key.isOffer = false) (p : LedgerEntryPtr (InternalLedgerEntry Asset K V)) (eff : Bool) :
    self.updatedOrderBook key p eff = self.multiOrderBook := by
  unfold Impl.updatedOrderBook
  split
  · cases hkey
  · rfl

theorem Impl.updateEntry_books {self self' : Impl Asset K V} {key : InternalLedgerKey K}
    {p : LedgerEntryPtr (InternalLedgerEntry Asset K V)} {eff : Bool} (h : self.updateEntry key p eff = .ok self') :
    self'.multiOrderBook = self.updatedOrderBook key p eff := by
  unfold Impl.updateEntry at h
  cases hr : recordEntry self.entry key p with
  | error msg => simp [hr, bind, Except.bind] at h
  | ok entry =>
    simp only [hr, bind, Except.bind, pure, Except.pure, Except.ok.injEq] at h
    rw [← h]

omit [DecidableEq Asset] in
theorem Impl.recordedOffer_of_recordedAt {self self' : Impl Asset K V} {key : InternalLedgerKey K}
    {p : LedgerEntryPtr (InternalLedgerEntry Asset K V)} (h : RecordedAt self self' key p) (k : LedgerKey K) :
    self'.recordedOffer k =
      if .ledgerEntry k = key then p.get >>= InternalLedgerEntry.offerEntry? else self.recordedOffer k := by
  unfold Impl.recordedOffer
  split
  · rename_i hk
    rw [hk, recordAt_bind_get h.1]
  · rename_i hk
    rw [h.2 _ hk]

omit [DecidableEq Asset] in
theorem RecordsOk.recordedAt {sellerOf : ℤ → AccountID} {self self' : Impl Asset K V}
    {key : InternalLedgerKey K} {p : LedgerEntryPtr (InternalLedgerEntry Asset K V)}
    (hrec : RecordsOk sellerOf self) (h : RecordedAt self self' key p)
    (hp : ∀ e, p.get = some e → e.toKey = key ∧ EntryOk sellerOf e) : RecordsOk sellerOf self' := by
  obtain ⟨hAt, hFrame⟩ := h
  intro x q e hq he
  by_cases hx : x = key
  · subst hx
    rw [hq] at hAt
    rw [recordAt_get hAt] at he
    exact hp e he
  · rw [hFrame x hx] at hq
    exact hrec x q e hq he

omit [DecidableEq Asset] [DecidableEq K] in
theorem newOffer_ok {sellerOf : ℤ → AccountID} {key : InternalLedgerKey K}
    {p : LedgerEntryPtr (InternalLedgerEntry Asset K V)}
    (hp : ∀ e, p.get = some e → e.toKey = key ∧ EntryOk sellerOf e) {le : OfferLedgerEntry Asset}
    (hle : (p.get >>= InternalLedgerEntry.offerEntry?) = some le) :
    .ledgerEntry le.key = key ∧ OfferOk sellerOf le := by
  obtain ⟨e, he, hOffer⟩ := Option.bind_eq_some_iff.mp hle
  obtain ⟨hKey, hOk⟩ := hp e he
  rw [InternalLedgerEntry.toKey_of_offerEntry? hOffer] at hKey
  exact ⟨hKey, hOk le hOffer⟩

theorem BookMatches.updateEntry (h : BookMatches self active) (hrec : RecordsOk sellerOf self)
    {key : InternalLedgerKey K} (hActive : active = none ∨ active = some key)
    {p : LedgerEntryPtr (InternalLedgerEntry Asset K V)}
    (hp : ∀ e, p.get = some e → e.toKey = key ∧ EntryOk sellerOf e) {eff : Bool} {self' : Impl Asset K V}
    (hu : self.updateEntry key p eff = .ok self') :
    BookMatches self' (if eff then some key else none) := by
  have hok := hrec.offersOk
  have hBooks := Impl.updateEntry_books hu
  have hRecorded := Impl.recordedOffer_of_recordedAt (Impl.updateEntry_recordedAt hu).1
  -- away from `key`, neither the old nor the new active key is in the way
  have hAway : ∀ k : LedgerKey K, .ledgerEntry k ≠ key →
      (active ≠ some (.ledgerEntry k) ↔ (if eff then some key else none) ≠ some (.ledgerEntry k)) := by
    intro k hk
    have hNew : (if eff then some key else none) ≠ some (.ledgerEntry k) := by
      cases eff
      · simp
      · simpa using Ne.symm hk
    refine ⟨fun _ => hNew, fun _ => ?_⟩
    rcases hActive with rfl | rfl
    · simp
    · simpa using Ne.symm hk
  cases hOffer : key.isOffer with
  | false =>
    -- the books stay, and no offer is recorded at `key` before or after
    have hNone : ∀ k : LedgerKey K, .ledgerEntry k = key → self.recordedOffer k = none := by
      intro k hk
      cases hle : self.recordedOffer k with
      | none => rfl
      | some le =>
        rw [← hk, ← (hok k le hle).1] at hOffer
        cases hOffer
    have hNone' : ∀ k : LedgerKey K, .ledgerEntry k = key → (p.get >>= InternalLedgerEntry.offerEntry?) = none := by
      intro k hk
      cases hle : (p.get >>= InternalLedgerEntry.offerEntry?) with
      | none => rfl
      | some le =>
        rw [← (newOffer_ok hp hle).1] at hOffer
        cases hOffer
    rw [Impl.updatedOrderBook_of_not_offer self hOffer] at hBooks
    refine ⟨fun b s => hBooks ▸ h.sorted b s, fun b s d k => ?_⟩
    rw [hBooks, h.mem, hRecorded]
    by_cases hk : InternalLedgerKey.ledgerEntry k = key
    · rw [if_pos hk, hNone' k hk, hNone k hk]
      simp
    · rw [if_neg hk, hAway k hk]
  | true =>
    obtain ⟨sellerID, offerID, rfl⟩ : ∃ sellerID offerID, key = .ledgerEntry (.offer sellerID offerID) := by
      rcases key with ⟨⟨sellerID, offerID⟩ | k | k⟩ | k <;> simp_all [InternalLedgerKey.isOffer]
    have hnew : ∀ le, (p.get >>= InternalLedgerEntry.offerEntry?) = some le →
        le.key = (.offer sellerID offerID : LedgerKey K) ∧ OfferOk sellerOf le := by
      intro le hle
      obtain ⟨hKey, hOk⟩ := newOffer_ok hp hle
      exact ⟨InternalLedgerKey.ledgerEntry.inj hKey, hOk⟩
    obtain ⟨hSorted, hMem⟩ := h.updatedOrderBook hok hnew eff
    refine ⟨fun b s => hBooks ▸ hSorted b s, fun b s d k => ?_⟩
    rw [hBooks, hMem, hRecorded]
    by_cases hk : k = .offer sellerID offerID
    · subst hk
      rw [if_pos rfl]
      cases eff <;> simp
    · have hk' : InternalLedgerKey.ledgerEntry k ≠ .ledgerEntry (.offer sellerID offerID) := fun h' =>
        hk (InternalLedgerKey.ledgerEntry.inj h')
      rw [if_neg hk', ← hAway k hk', h.mem]
      simp [hk]

omit [DecidableEq Asset] in
theorem BookMatches.clear {key : InternalLedgerKey K} (h : BookMatches self (some key))
    (hkey : ∀ k : LedgerKey K, .ledgerEntry k = key → self.recordedOffer k = none) : BookMatches self none := by
  refine ⟨h.sorted, fun b s d k => ?_⟩
  rw [h.mem]
  by_cases hk : InternalLedgerKey.ledgerEntry k = key
  · rw [hkey k hk]
    simp
  · simp [Ne.symm hk]

theorem BookMatches.updateEntryIfRecorded (h : BookMatches self active) (hrec : RecordsOk sellerOf self)
    {key : InternalLedgerKey K} (hActive : active = none ∨ active = some key) {self' : Impl Asset K V}
    (hu : self.updateEntryIfRecorded key false = .ok self') : BookMatches self' none := by
  have hClear : (∀ k : LedgerKey K, .ledgerEntry k = key → self.recordedOffer k = none) → BookMatches self none := by
    intro hkey
    rcases hActive with rfl | rfl
    · exact h
    · exact h.clear hkey
  unfold Impl.updateEntryIfRecorded at hu
  split at hu
  · -- no offer key: nothing changes, and no offer is recorded there
    rename_i hNotOffer
    cases hu
    refine hClear fun k hk => ?_
    cases hle : self.recordedOffer k with
    | none => rfl
    | some le =>
      rw [← hk, ← (hrec.offersOk k le hle).1] at hNotOffer
      cases hNotOffer
  · split at hu
    · rename_i p hp
      simpa using h.updateEntry hrec hActive (fun e he => hrec key p e hp he) hu
    · rename_i hp
      cases hu
      refine hClear fun k hk => ?_
      rw [Impl.recordedOffer, hk, hp]
      rfl

omit [DecidableEq Asset] in
theorem Impl.modifyLoaded_books (self : Impl Asset K V) (key : InternalLedgerKey K)
    (modify : InternalLedgerEntry Asset K V → InternalLedgerEntry Asset K V) :
    (self.modifyLoaded key modify).multiOrderBook = self.multiOrderBook := by
  unfold Impl.modifyLoaded
  split <;> rfl

omit [DecidableEq Asset] in
theorem BookMatches.modifyLoaded {key : InternalLedgerKey K} (h : BookMatches self (some key))
    (modify : InternalLedgerEntry Asset K V → InternalLedgerEntry Asset K V) :
    BookMatches (self.modifyLoaded key modify) (some key) := by
  refine ⟨fun b s => ?_, fun b s d k => ?_⟩
  · rw [Impl.modifyLoaded_books]
    exact h.sorted b s
  · rw [Impl.modifyLoaded_books, h.mem]
    by_cases hk : InternalLedgerKey.ledgerEntry k = key
    · simp [hk]
    · simp only [Impl.recordedOffer, Impl.modifyLoaded_lookup, if_neg hk]

omit [DecidableEq Asset] in
theorem RecordsOk.modifyLoaded (hrec : RecordsOk sellerOf self) {key : InternalLedgerKey K}
    {modify : InternalLedgerEntry Asset K V → InternalLedgerEntry Asset K V}
    (hmodify : ∀ e, (modify e).toKey = e.toKey) (hok : ∀ e, EntryOk sellerOf e → EntryOk sellerOf (modify e)) :
    RecordsOk sellerOf (self.modifyLoaded key modify) := by
  intro x q e hq he
  rw [Impl.modifyLoaded_lookup] at hq
  split at hq
  · obtain ⟨p, hp, rfl⟩ := Option.map_eq_some_iff.mp hq
    rw [LedgerEntryPtr.get_map] at he
    obtain ⟨e₀, he₀, rfl⟩ := Option.map_eq_some_iff.mp he
    obtain ⟨hKey, hOk⟩ := hrec _ p e₀ hp he₀
    rename_i hx
    exact ⟨(hmodify e₀).trans (hx ▸ hKey), hok e₀ hOk⟩
  · exact hrec x q e hq he

end Book

/-- The entries `newestOf` shows are under their own keys and hold offers as the ledger keeps
them. -/
def ShownOk (sellerOf : ℤ → AccountID) (newestOf : InternalLedgerKey K → Option (InternalLedgerEntry Asset K V)) :
    Prop :=
  ∀ key e, newestOf key = some e → e.toKey = key ∧ EntryOk sellerOf e

/-- What a `LedgerTxn` keeps about offers between operations: its records are keyed and hold
offers as the ledger keeps them, and its books list exactly its live offers. -/
structure OffersKept (sellerOf : ℤ → AccountID) (ltx : Impl Asset K V) : Prop where
  records : RecordsOk sellerOf ltx
  books : BookMatches ltx none

section Operations

variable {sellerOf : ℤ → AccountID} {parentNewest : InternalLedgerKey K → Option (InternalLedgerEntry Asset K V)}
  {self self' : Impl Asset K V}

omit [DecidableEq Asset] in
theorem RecordsOk.shownOk (hrec : RecordsOk sellerOf self) (hpn : ShownOk sellerOf parentNewest) :
    ShownOk sellerOf (self.getNewestVersion parentNewest) := by
  intro key e he
  rw [Impl.getNewestVersion_eq_elim] at he
  cases hLookup : self.entry.lookup key with
  | none =>
    rw [hLookup] at he
    exact hpn key e he
  | some p =>
    rw [hLookup] at he
    exact hrec key p e hLookup he

omit [DecidableEq Asset] [DecidableEq K] in
theorem EntryOk.setLastModified {e : InternalLedgerEntry Asset K V} (h : EntryOk sellerOf e) (seq : ℕ) :
    EntryOk sellerOf (e.setLastModified seq) := by
  intro le hle
  rcases e with ⟨seq₀, data⟩ | ⟨k, v⟩
  · cases data with
    | offer o =>
      cases hle
      exact h ⟨seq₀, o⟩ rfl
    | configSetting _ _ => cases hle
    | other _ _ => cases hle
  · cases hle

omit [DecidableEq Asset] in
theorem RecordsOk.maybeUpdateLastModified (hrec : RecordsOk sellerOf self) :
    RecordsOk sellerOf self.maybeUpdateLastModified := by
  intro key q e hq he
  rw [Impl.maybeUpdateLastModified_lookup] at hq
  split at hq
  · obtain ⟨p, hp, rfl⟩ := Option.map_eq_some_iff.mp hq
    rw [LedgerEntryPtr.get_map] at he
    obtain ⟨e₀, he₀, rfl⟩ := Option.map_eq_some_iff.mp he
    obtain ⟨hKey, hOk⟩ := hrec key p e₀ hp he₀
    exact ⟨by rw [InternalLedgerEntry.toKey_setLastModified, hKey], hOk.setLastModified _⟩
  · exact hrec key q e hq he

omit [DecidableEq Asset] in
theorem OffersKept.fresh (ledgerSeq : ℕ) (flag : Bool) :
    OffersKept sellerOf (Impl.fresh ledgerSeq flag : Impl Asset K V) :=
  ⟨fun _ _ _ h => by simp [Impl.fresh] at h, fun _ _ => List.Pairwise.nil,
    fun _ _ _ k => by simp [Impl.fresh, Impl.recordedOffer]⟩

theorem OffersKept.updateEntry_active {active : Option (InternalLedgerKey K)} (hrec : RecordsOk sellerOf self)
    (hbooks : BookMatches self active) {key : InternalLedgerKey K} (hActive : active = none ∨ active = some key)
    {p : LedgerEntryPtr (InternalLedgerEntry Asset K V)}
    (hp : ∀ e, p.get = some e → e.toKey = key ∧ EntryOk sellerOf e) {eff : Bool}
    (hu : self.updateEntry key p eff = .ok self') :
    RecordsOk sellerOf self' ∧ BookMatches self' (if eff then some key else none) :=
  ⟨hrec.recordedAt (Impl.updateEntry_recordedAt hu).1 hp, hbooks.updateEntry hrec hActive hp hu⟩

theorem OffersKept.load (h : OffersKept sellerOf self) (hpn : ShownOk sellerOf parentNewest)
    {key : InternalLedgerKey K} {res : Option (InternalLedgerEntry Asset K V)}
    (hl : self.load parentNewest key = .ok (res, self')) :
    RecordsOk sellerOf self' ∧ BookMatches self' (if res.isSome then some key else none) := by
  rcases Impl.load_steps parentNewest hl with ⟨rfl, rfl⟩ | ⟨p, e, rfl, hpe, hShown, hu⟩
  · exact ⟨h.records, h.books⟩
  · have hp : ∀ e', p.get = some e' → e'.toKey = key ∧ EntryOk sellerOf e' := by
      intro e' he'
      rw [hpe] at he'
      cases he'
      exact (h.records.shownOk hpn) key e hShown
    exact OffersKept.updateEntry_active h.records h.books (.inl rfl) hp hu

theorem OffersKept.deactivate {active : Option (InternalLedgerKey K)} (hrec : RecordsOk sellerOf self)
    (hbooks : BookMatches self active) {key : InternalLedgerKey K} (hActive : active = none ∨ active = some key)
    (hd : self.deactivate key = .ok self') : OffersKept sellerOf self' := by
  obtain ⟨hSame, -⟩ := Impl.updateEntryIfRecorded_ok hd
  refine ⟨fun x q e hq he => hrec x q e ((hSame x).symm.trans hq) he, ?_⟩
  exact hbooks.updateEntryIfRecorded hrec hActive hd

theorem OffersKept.create (h : OffersKept sellerOf self) {e : InternalLedgerEntry Asset K V}
    (he : EntryOk sellerOf e) (hc : self.create parentNewest e = .ok self') : OffersKept sellerOf self' := by
  obtain ⟨-, self₁, h₁, h₂⟩ := Impl.create_steps parentNewest hc
  have hp : ∀ e', (LedgerEntryPtr.init e).get = some e' → e'.toKey = e.toKey ∧ EntryOk sellerOf e' := by
    intro e' he'
    cases he'
    exact ⟨rfl, he⟩
  obtain ⟨hrec₁, hbooks₁⟩ := OffersKept.updateEntry_active h.records h.books (.inl rfl) hp h₁
  exact OffersKept.deactivate hrec₁ hbooks₁ (.inr rfl) h₂

theorem OffersKept.loadAndModify (h : OffersKept sellerOf self) (hpn : ShownOk sellerOf parentNewest)
    {key : InternalLedgerKey K} {modify : InternalLedgerEntry Asset K V → InternalLedgerEntry Asset K V}
    (hmodify : ∀ e, (modify e).toKey = e.toKey) (hok : ∀ e, EntryOk sellerOf e → EntryOk sellerOf (modify e))
    {res : Option (InternalLedgerEntry Asset K V)} (hl : self.loadAndModify parentNewest key modify = .ok (res, self')) :
    OffersKept sellerOf self' := by
  rcases Impl.loadAndModify_steps parentNewest hl with ⟨-, rfl⟩ | ⟨e, self₁, -, h₁, h₂⟩
  · exact h
  · obtain ⟨hrec₁, hbooks₁⟩ := h.load hpn h₁
    rw [Option.isSome_some, if_pos rfl] at hbooks₁
    exact OffersKept.deactivate (hrec₁.modifyLoaded hmodify hok) (hbooks₁.modifyLoaded modify) (.inr rfl) h₂

theorem OffersKept.erase (h : OffersKept sellerOf self) {key : InternalLedgerKey K}
    (he : self.erase parentNewest key = .ok self') : OffersKept sellerOf self' := by
  unfold Impl.erase at he
  split at he
  · cases he
  · split at he
    · cases he
    · have hp : ∀ e, (LedgerEntryPtr.deleted : LedgerEntryPtr (InternalLedgerEntry Asset K V)).get = some e →
          e.toKey = key ∧ EntryOk sellerOf e := fun e he' => by cases he'
      obtain ⟨hrec', hbooks'⟩ := OffersKept.updateEntry_active h.records h.books (.inl rfl) hp he
      exact ⟨hrec', hbooks'⟩

omit [DecidableEq Asset] in
theorem BookMatches.of_fields {active : Option (InternalLedgerKey K)} (h : BookMatches self active)
    (hEntry : self'.entry = self.entry) (hBooks : self'.multiOrderBook = self.multiOrderBook) :
    BookMatches self' active := by
  refine ⟨fun b s => hBooks ▸ h.sorted b s, fun b s d k => ?_⟩
  rw [hBooks, h.mem]
  simp only [Impl.recordedOffer, hEntry]

omit [DecidableEq Asset] in
theorem OffersKept.of_fields (h : OffersKept sellerOf self) (hEntry : self'.entry = self.entry)
    (hBooks : self'.multiOrderBook = self.multiOrderBook) : OffersKept sellerOf self' :=
  ⟨fun x q e hq he => h.records x q e (hEntry ▸ hq) he, h.books.of_fields hEntry hBooks⟩

theorem OffersKept.commitChild (h : OffersKept sellerOf self) {child : Impl Asset K V}
    (hc : RecordsOk sellerOf child) (hcommit : self.commitChild child = .ok self') : OffersKept sellerOf self' := by
  obtain ⟨self₁, h₁, rfl⟩ := Impl.commitChild_steps hcommit
  -- each entry of the child is recorded by one `updateEntry`, inactive
  have hStep : ∀ (s : Impl Asset K V) d (s' : Impl Asset K V), d ∈ child.entry.entries → OffersKept sellerOf s →
      s.updateEntry d.1 d.2 false = .ok s' → OffersKept sellerOf s' := by
    intro s d s' hd hs hu
    have hLookup : child.entry.lookup d.1 = some d.2 := AList.mem_lookup_iff.mpr hd
    obtain ⟨hrec', hbooks'⟩ :=
      OffersKept.updateEntry_active hs.records hs.books (.inl rfl) (fun e he => hc d.1 d.2 e hLookup he) hu
    exact ⟨hrec', hbooks'⟩
  have h₁' : OffersKept sellerOf self₁ :=
    AList.foldlM_invariant (OffersKept sellerOf) _ _ hStep self self₁ h h₁
  obtain ⟨hEntry, hBooks, -⟩ := Impl.foldl_updateWorstBestOffer_fields child.worstBestOffer.entries self₁
  exact h₁'.of_fields hEntry hBooks

end Operations

end HcnetCore.Ledger
