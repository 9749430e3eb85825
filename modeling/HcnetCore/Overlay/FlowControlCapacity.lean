import HcnetCore.Library.ExceptInvariant
import Mathlib

/-! # Flow control capacity

`FlowControlCapacity` (overlay/FlowControlCapacity.cpp) counts one resource of the flow between
this node and one peer: what the node may still read from the peer (`mCapacity`: flood
messages, and all messages for the message count) and what the peer allows it to send
(`mOutboundCapacity`). `FlowControlMessageCapacity` counts messages, `FlowControlByteCapacity`
counts the XDR bytes of the messages; the kind is an index of the type, and the virtual methods
dispatch on it.

The messages are `HcnetMessage` with what flow control reads of each arm. Their sizes are
those of their XDR encoding, from the sizes of the arms the model does not look into.
-/

namespace HcnetCore.Overlay

set_option autoImplicit false

inductive MessageType where
  | transaction
  | scpMessage
  | sendMore
  | sendMoreExtended
  | floodAdvert
  | floodDemand
deriving DecidableEq, Repr

def MessageType.enumName : MessageType → String
  | transaction => "TRANSACTION"
  | scpMessage => "SCP_MESSAGE"
  | sendMore => "SEND_MORE"
  | sendMoreExtended => "SEND_MORE_EXTENDED"
  | floodAdvert => "FLOOD_ADVERT"
  | floodDemand => "FLOOD_DEMAND"

/-- `HcnetMessage`: a transaction envelope and an SCP envelope by the XDR size of the envelope
(and the slot and statement of the SCP one, over statements `S`), an advert or a demand by its
number of transaction hashes, and `SendMore`/`SendMoreExtended` by their fields. -/
inductive HcnetMessage (S : Type) where
  | transaction (envelopeSize : ℕ)
  | scpMessage (slotIndex : ℕ) (statement : S) (envelopeSize : ℕ)
  | sendMore (numMessages : UInt32)
  | sendMoreExtended (numMessages numBytes : UInt32)
  | floodAdvert (txHashes : ℕ)
  | floodDemand (txHashes : ℕ)
deriving DecidableEq, Repr

namespace HcnetMessage

variable {S : Type}

def type : HcnetMessage S → MessageType
  | transaction _ => .transaction
  | scpMessage _ _ _ => .scpMessage
  | sendMore _ => .sendMore
  | sendMoreExtended _ _ => .sendMoreExtended
  | floodAdvert _ => .floodAdvert
  | floodDemand _ => .floodDemand

end HcnetMessage

variable {S : Type}

def isFloodMessage (msg : HcnetMessage S) : Bool :=
  msg.type == .scpMessage || msg.type == .transaction || msg.type == .floodDemand || msg.type == .floodAdvert

/-- `FlowControlCapacity::msgBodySize`, `xdr::xdr_size` of the message: four bytes of union
discriminant, then the arm; a hash vector is its length and 32 bytes a hash. -/
def msgBodySize : HcnetMessage S → ℕ
  | .transaction envelopeSize => 4 + envelopeSize
  | .scpMessage _ _ envelopeSize => 4 + envelopeSize
  | .sendMore _ => 4 + 4
  | .sendMoreExtended _ _ => 4 + 8
  | .floodAdvert txHashes => 4 + (4 + 32 * txHashes)
  | .floodDemand txHashes => 4 + (4 + 32 * txHashes)

theorem msgBodySize_pos (msg : HcnetMessage S) : 0 < msgBodySize msg := by
  cases msg <;> simp only [msgBodySize] <;> omega

/-- `releaseAssert(e)` aborts unless `e` holds; the model returns an error with the asserted
expression. -/
def releaseAssert (check : Prop) [Decidable check] (expr : String) : Except String Unit :=
  if check then pure () else throw expr

@[simp] theorem releaseAssert_of_true {check : Prop} [Decidable check] {expr : String} (h : check) :
    releaseAssert check expr = pure () :=
  if_pos h

inductive CapacityKind where
  | message
  | byte
deriving DecidableEq, Repr

structure ReadingCapacity where
  floodCapacity : ℕ
  totalCapacity : Option ℕ
deriving DecidableEq, Repr

/-- A `FlowControlCapacity` of kind `k`: `mCapacity`, what `getCapacityLimits()` returns
(`mCapacityLimits` of a byte capacity; the configuration, which does not change, of a message
capacity), and `mOutboundCapacity`. -/
structure FlowControlCapacity (k : CapacityKind) where
  capacity : ReadingCapacity
  capacityLimits : ReadingCapacity
  outboundCapacity : ℕ
deriving DecidableEq, Repr

def FlowControlMessageCapacity.getMsgResourceCount (_msg : HcnetMessage S) : ℕ := 1

def FlowControlByteCapacity.getMsgResourceCount (msg : HcnetMessage S) : ℕ := msgBodySize msg

def getMsgResourceCount : CapacityKind → HcnetMessage S → ℕ
  | .message => FlowControlMessageCapacity.getMsgResourceCount
  | .byte => FlowControlByteCapacity.getMsgResourceCount

theorem getMsgResourceCount_pos (k : CapacityKind) (msg : HcnetMessage S) : 0 < getMsgResourceCount k msg := by
  cases k
  · exact Nat.one_pos
  · exact msgBodySize_pos msg

namespace FlowControlCapacity

variable {k : CapacityKind}

def checkCapacityInvariants (c : FlowControlCapacity k) : Except String Unit := do
  releaseAssert (c.capacity.floodCapacity ≤ c.capacityLimits.floodCapacity)
    "getCapacityLimits().mFloodCapacity >= mCapacity.mFloodCapacity"
  match c.capacityLimits.totalCapacity, c.capacity.totalCapacity with
  | some limit, some total =>
    releaseAssert (total ≤ limit) "*getCapacityLimits().mTotalCapacity >= *mCapacity.mTotalCapacity"
  | some _, none => throw "mCapacity.mTotalCapacity"
  | none, some _ => throw "!mCapacity.mTotalCapacity"
  | none, none => pure ()

def hasOutboundCapacity (c : FlowControlCapacity k) (msg : HcnetMessage S) : Bool :=
  decide (getMsgResourceCount k msg ≤ c.outboundCapacity)

def lockOutboundCapacity (c : FlowControlCapacity k) (msg : HcnetMessage S) :
    Except String (FlowControlCapacity k) :=
  if isFloodMessage msg then do
    releaseAssert (c.hasOutboundCapacity msg) "hasOutboundCapacity(msg)"
    pure { c with outboundCapacity := c.outboundCapacity - getMsgResourceCount k msg }
  else pure c

def lockLocalCapacity (c : FlowControlCapacity k) (msg : HcnetMessage S) :
    Except String (Bool × FlowControlCapacity k) := do
  c.checkCapacityInvariants
  let msgResources := getMsgResourceCount k msg
  let c ← match c.capacity.totalCapacity with
    | some total => do
      releaseAssert (msgResources ≤ total) "*mCapacity.mTotalCapacity >= msgResources"
      pure { c with capacity := { c.capacity with totalCapacity := some (total - msgResources) } }
    | none => pure c
  if isFloodMessage msg then
    if c.capacity.floodCapacity < msgResources then pure (false, c)
    else pure (true, { c with capacity := { c.capacity with floodCapacity := c.capacity.floodCapacity - msgResources } })
  else pure (true, c)

def releaseLocalCapacity (c : FlowControlCapacity k) (msg : HcnetMessage S) :
    Except String (ℕ × FlowControlCapacity k) := do
  let resourcesFreed := getMsgResourceCount k msg
  let c := { c with capacity := { c.capacity with totalCapacity := c.capacity.totalCapacity.map (· + resourcesFreed) } }
  let (releasedFloodCapacity, c) :=
    if isFloodMessage msg then
      (resourcesFreed, { c with capacity := { c.capacity with floodCapacity := c.capacity.floodCapacity + resourcesFreed } })
    else (0, c)
  c.checkCapacityInvariants
  pure (releasedFloodCapacity, c)

/-! ## Local capacity while messages are processed -/

def floodCost (k : CapacityKind) (msg : HcnetMessage S) : ℕ :=
  if isFloodMessage msg then getMsgResourceCount k msg else 0

/-- The local capacity of a node processing `processing`: the flood capacity and the total
capacity, where there is one, are their limits less what the messages in processing hold. -/
structure LocalOk (c : FlowControlCapacity k) (processing : List (HcnetMessage S)) : Prop where
  flood : c.capacity.floodCapacity + (processing.map (floodCost k)).sum = c.capacityLimits.floodCapacity
  total : c.capacity.totalCapacity.map (· + (processing.map (getMsgResourceCount k)).sum) =
    c.capacityLimits.totalCapacity

theorem checkCapacityInvariants_of_localOk {c : FlowControlCapacity k} {processing : List (HcnetMessage S)}
    (h : LocalOk c processing) : c.checkCapacityInvariants = .ok () := by
  have hflood : c.capacity.floodCapacity ≤ c.capacityLimits.floodCapacity := by
    have := h.flood
    omega
  have htotal := h.total
  unfold checkCapacityInvariants
  rw [releaseAssert_of_true hflood, pure_bind]
  cases ht : c.capacity.totalCapacity with
  | none =>
    rw [ht, Option.map_none] at htotal
    rw [← htotal]
    rfl
  | some total =>
    rw [ht, Option.map_some] at htotal
    rw [← htotal]
    exact releaseAssert_of_true (Nat.le_add_right _ _)

theorem lockLocalCapacity_of_localOk {c : FlowControlCapacity k} {processing : List (HcnetMessage S)}
    {msg : HcnetMessage S} (h : LocalOk c processing)
    (htotal : ∀ total, c.capacity.totalCapacity = some total → getMsgResourceCount k msg ≤ total)
    (hflood : isFloodMessage msg → getMsgResourceCount k msg ≤ c.capacity.floodCapacity) :
    ∃ c', c.lockLocalCapacity msg = .ok (true, c') ∧ LocalOk c' (msg :: processing) ∧
      c'.capacityLimits = c.capacityLimits ∧ c'.outboundCapacity = c.outboundCapacity := by
  have hfloodEq := h.flood
  have htotalEq := h.total
  -- the total capacity, where there is one, takes the message first
  cases ht : c.capacity.totalCapacity with
  | none =>
    rw [ht, Option.map_none] at htotalEq
    by_cases hf : isFloodMessage msg
    · simp only [lockLocalCapacity, checkCapacityInvariants_of_localOk h, ht, hf, Except.ok_bind, pure_bind,
        if_true]
      rw [if_neg (Nat.not_lt.mpr (hflood hf))]
      refine ⟨_, rfl, ⟨?_, ?_⟩, rfl, rfl⟩
      · simp only [List.map_cons, List.sum_cons, floodCost, if_pos hf]
        have := hflood hf
        omega
      · simpa [ht] using htotalEq
    · simp only [lockLocalCapacity, checkCapacityInvariants_of_localOk h, ht, hf, Except.ok_bind, pure_bind]
      refine ⟨_, rfl, ⟨?_, ?_⟩, rfl, rfl⟩
      · simpa [floodCost, hf] using hfloodEq
      · simpa [ht] using htotalEq
  | some total =>
    rw [ht, Option.map_some] at htotalEq
    have hle := htotal total ht
    by_cases hf : isFloodMessage msg
    · simp only [lockLocalCapacity, checkCapacityInvariants_of_localOk h, ht, hf, Except.ok_bind,
        releaseAssert_of_true hle, pure_bind, if_true]
      rw [if_neg (Nat.not_lt.mpr (hflood hf))]
      refine ⟨_, rfl, ⟨?_, ?_⟩, rfl, rfl⟩
      · simp only [List.map_cons, List.sum_cons, floodCost, if_pos hf]
        have := hflood hf
        omega
      · simp only [Option.map_some, List.map_cons, List.sum_cons, ← htotalEq, Option.some.injEq]
        omega
    · simp only [lockLocalCapacity, checkCapacityInvariants_of_localOk h, ht, hf, Except.ok_bind,
        releaseAssert_of_true hle, pure_bind]
      refine ⟨_, rfl, ⟨?_, ?_⟩, rfl, rfl⟩
      · simpa [floodCost, hf] using hfloodEq
      · simp only [Option.map_some, List.map_cons, List.sum_cons, ← htotalEq, Option.some.injEq]
        omega

theorem releaseLocalCapacity_of_localOk [DecidableEq S] {c : FlowControlCapacity k}
    {processing : List (HcnetMessage S)} {msg : HcnetMessage S} (h : LocalOk c processing)
    (hmem : msg ∈ processing) :
    ∃ c', c.releaseLocalCapacity msg = .ok (floodCost k msg, c') ∧ LocalOk c' (processing.erase msg) ∧
      c'.capacityLimits = c.capacityLimits ∧ c'.outboundCapacity = c.outboundCapacity := by
  have hfloodSum := List.sum_map_erase (floodCost k) hmem
  have htotalSum := List.sum_map_erase (getMsgResourceCount k) hmem
  let c' : FlowControlCapacity k :=
    { c with capacity := ⟨c.capacity.floodCapacity + floodCost k msg,
        c.capacity.totalCapacity.map (· + getMsgResourceCount k msg)⟩ }
  have hok : LocalOk c' (processing.erase msg) := by
    constructor
    · have := h.flood
      simp only [c']
      omega
    · rw [← h.total, ← htotalSum, Option.map_map]
      congr 1
      funext total
      simp only [Function.comp_apply]
      omega
  refine ⟨c', ?_, hok, rfl, rfl⟩
  cases hf : isFloodMessage msg with
  | true =>
    have hc' : c' = { c with capacity := ⟨c.capacity.floodCapacity + getMsgResourceCount k msg,
        c.capacity.totalCapacity.map (· + getMsgResourceCount k msg)⟩ } := by
      simp only [c', floodCost, hf, if_true]
    simp only [releaseLocalCapacity, hf, if_true]
    rw [← hc', checkCapacityInvariants_of_localOk hok]
    simp [floodCost, hf]
  | false =>
    have hc' : c' = { c with capacity := ⟨c.capacity.floodCapacity,
        c.capacity.totalCapacity.map (· + getMsgResourceCount k msg)⟩ } := by
      simp only [c', floodCost, hf, Bool.false_eq_true, if_false, Nat.add_zero]
    simp only [releaseLocalCapacity, hf, Bool.false_eq_true, if_false]
    rw [← hc', checkCapacityInvariants_of_localOk hok]
    simp [floodCost, hf]

theorem lockOutboundCapacity_eq {c : FlowControlCapacity k} {msg : HcnetMessage S}
    (hcap : isFloodMessage msg → getMsgResourceCount k msg ≤ c.outboundCapacity) :
    c.lockOutboundCapacity msg = .ok { c with outboundCapacity := c.outboundCapacity - floodCost k msg } := by
  cases hf : isFloodMessage msg with
  | true =>
    have hhas : c.hasOutboundCapacity msg = true := decide_eq_true (hcap hf)
    simp [lockOutboundCapacity, hf, hhas, floodCost]
  | false => simp [lockOutboundCapacity, hf, floodCost]

end FlowControlCapacity

def grantOf : CapacityKind → HcnetMessage S → ℕ
  | .message, .sendMore numMessages => numMessages.toNat
  | .message, .sendMoreExtended numMessages _ => numMessages.toNat
  | .byte, .sendMoreExtended _ numBytes => numBytes.toNat
  | _, _ => 0

def FlowControlMessageCapacity.releaseOutboundCapacity (c : FlowControlCapacity .message) (msg : HcnetMessage S) :
    Except String (FlowControlCapacity .message) :=
  match msg with
  | .sendMore numMessages | .sendMoreExtended numMessages _ =>
    pure { c with outboundCapacity := c.outboundCapacity + numMessages.toNat }
  | _ => throw "msg.type() == SEND_MORE || msg.type() == SEND_MORE_EXTENDED"

def FlowControlByteCapacity.releaseOutboundCapacity (c : FlowControlCapacity .byte) (msg : HcnetMessage S) :
    Except String (FlowControlCapacity .byte) :=
  match msg with
  | .sendMoreExtended _ numBytes => pure { c with outboundCapacity := c.outboundCapacity + numBytes.toNat }
  | _ => throw "msg.type() == SEND_MORE_EXTENDED"

theorem FlowControlMessageCapacity.releaseOutboundCapacity_eq {c : FlowControlCapacity .message}
    {msg : HcnetMessage S} (h : msg.type = .sendMore ∨ msg.type = .sendMoreExtended) :
    FlowControlMessageCapacity.releaseOutboundCapacity c msg =
      .ok { c with outboundCapacity := c.outboundCapacity + grantOf .message msg } := by
  cases msg with
  | sendMore _ | sendMoreExtended _ _ => rfl
  | _ => simp [HcnetMessage.type] at h

theorem FlowControlByteCapacity.releaseOutboundCapacity_eq {c : FlowControlCapacity .byte}
    {msg : HcnetMessage S} (h : msg.type = .sendMoreExtended) :
    FlowControlByteCapacity.releaseOutboundCapacity c msg =
      .ok { c with outboundCapacity := c.outboundCapacity + grantOf .byte msg } := by
  cases msg with
  | sendMoreExtended _ _ => rfl
  | _ => simp [HcnetMessage.type] at h

def FlowControlMessageCapacity.canRead (c : FlowControlCapacity .message) : Except String Bool :=
  match c.capacity.totalCapacity with
  | some total => pure (decide (0 < total))
  | none => throw "mCapacity.mTotalCapacity"

def FlowControlByteCapacity.canRead (c : FlowControlCapacity .byte) : Except String Bool :=
  match c.capacity.totalCapacity with
  | none => pure true
  | some _ => throw "!mCapacity.mTotalCapacity"

def FlowControlByteCapacity.handleTxSizeIncrease (c : FlowControlCapacity .byte) (increase : UInt32) :
    FlowControlCapacity .byte :=
  { c with
    capacity := { c.capacity with floodCapacity := c.capacity.floodCapacity + increase.toNat }
    capacityLimits := { c.capacityLimits with floodCapacity := c.capacityLimits.floodCapacity + increase.toNat } }

def FlowControlMessageCapacity.create (peerFloodReadingCapacity peerReadingCapacity : UInt32) :
    FlowControlCapacity .message :=
  let limits : ReadingCapacity := ⟨peerFloodReadingCapacity.toNat, some peerReadingCapacity.toNat⟩
  ⟨limits, limits, 0⟩

def FlowControlByteCapacity.create (total : UInt32) : FlowControlCapacity .byte :=
  let limits : ReadingCapacity := ⟨total.toNat, none⟩
  ⟨limits, limits, 0⟩

end HcnetCore.Overlay
