import HcnetCore.Overlay.FlowControl
import HcnetCore.Library.CreditFlow

/-! # Two peers over one connection

Flow control at both ends of a connection, in one direction: the sender's `FlowControl` queues
and sends flood messages, the receiver's takes each message into processing as `Peer` reads it
and grants the flood data back with `SEND_MORE`s once it is processed (overlay/Peer.cpp).
`PeerLink.step` runs one event of either end, and `PeerLink.run` any interleaving of them.

Each resource flows as a `CreditFlow.Channel`, and every event moves it by steps of the channel,
so that it stays conserved; hence the receiver has room for what it reads and no `SEND_MORE`
overflows the sender. `run_start_conserved` holds along every run under the checks of `Config`
and a nonempty byte batch; `run_start_zero_byte_batch_drops` is a run in which a byte batch of
zero, which `Config` accepts, makes the sender drop the receiver.
-/

namespace HcnetCore.Overlay

set_option autoImplicit false

variable {S : Type}

/-- A `SEND_MORE` that `isSendMoreValid` accepts by its type and its counts: a `SEND_MORE` of some
messages without flow control in bytes, a `SEND_MORE_EXTENDED` of some bytes with it. -/
def GrantOk (bytes : Bool) : HcnetMessage S → Prop
  | .sendMore numMessages => bytes = false ∧ 0 < numMessages.toNat
  | .sendMoreExtended _ numBytes => bytes = true ∧ 0 < numBytes.toNat
  | _ => False

theorem GrantOk.type {bytes : Bool} {msg : HcnetMessage S} (h : GrantOk bytes msg) :
    (msg.type = .sendMore ∨ msg.type = .sendMoreExtended) ∧ (bytes → msg.type = .sendMoreExtended) := by
  cases msg with
  | sendMore _ => exact ⟨.inl rfl, fun hb => absurd h.1 (by simp [hb])⟩
  | sendMoreExtended _ _ => exact ⟨.inr rfl, fun _ => rfl⟩
  | _ => exact absurd h id

namespace FlowControl

/-- The receiving side while it processes `processing`: its local capacities are their limits
less what the messages in processing hold, its message limits are those of the configuration,
and the flood data processed since its last `SEND_MORE` is short of a batch of messages, and in
bytes at least as much as in messages (none without flow control in bytes). -/
structure ReceiverOk (cfg : Config) (fc : FlowControl S) (processing : List (HcnetMessage S)) : Prop where
  message : fc.flowControlCapacity.LocalOk processing
  messageLimits : fc.flowControlCapacity.capacityLimits =
    ⟨cfg.PEER_FLOOD_READING_CAPACITY.toNat, some cfg.PEER_READING_CAPACITY.toNat⟩
  bytes : ∀ b, fc.flowControlBytesCapacity = some b → b.LocalOk processing ∧ b.capacityLimits.totalCapacity = none
  processed_lt : fc.floodDataProcessed < cfg.FLOW_CONTROL_SEND_MORE_BATCH_SIZE.toNat
  processedBytes_eq : fc.flowControlBytesCapacity = none → fc.floodDataProcessedBytes = 0
  processed_le : fc.flowControlBytesCapacity.isSome → fc.floodDataProcessed ≤ fc.floodDataProcessedBytes

variable {cfg : Config} {fc : FlowControl S} {processing : List (HcnetMessage S)}

theorem canRead_of_receiverOk (h : fc.ReceiverOk cfg processing) :
    ∃ total, fc.flowControlCapacity.capacity.totalCapacity = some total ∧ fc.canRead = .ok (decide (0 < total)) := by
  have htotal := h.message.total
  rw [h.messageLimits] at htotal
  obtain ⟨total, htotalEq, -⟩ := Option.map_eq_some_iff.mp htotal
  refine ⟨total, htotalEq, ?_⟩
  have hbytes : ∀ b, fc.flowControlBytesCapacity = some b → FlowControlByteCapacity.canRead b = .ok true := by
    intro b hb
    have hnone : b.capacity.totalCapacity = none := by
      have := (h.bytes b hb).1.total
      rw [(h.bytes b hb).2] at this
      exact Option.map_eq_none_iff.mp this
    simp [FlowControlByteCapacity.canRead, hnone, pure, Except.pure]
  unfold canRead
  cases hb : fc.flowControlBytesCapacity with
  | none => simp [FlowControlMessageCapacity.canRead, htotalEq, pure, Except.pure]
  | some b => simp [hbytes b hb, FlowControlMessageCapacity.canRead, htotalEq, pure, Except.pure]

theorem ReceiverOk.byteTotal (h : fc.ReceiverOk cfg processing) {b : FlowControlCapacity .byte}
    (hb : fc.flowControlBytesCapacity = some b) : b.capacity.totalCapacity = none := by
  have htotal := (h.bytes b hb).1.total
  rw [(h.bytes b hb).2] at htotal
  exact Option.map_eq_none_iff.mp htotal

theorem floodCount_le_of_floodCost_le {k : CapacityKind} {msg : HcnetMessage S} {n : ℕ}
    (h : FlowControlCapacity.floodCost k msg ≤ n) : isFloodMessage msg → getMsgResourceCount k msg ≤ n := by
  intro hf
  simpa [FlowControlCapacity.floodCost, hf] using h

theorem beginMessageProcessing_spec (h : fc.ReceiverOk cfg processing) {msg : HcnetMessage S} {total : ℕ}
    (htotal : fc.flowControlCapacity.capacity.totalCapacity = some total) (hread : 0 < total)
    (hroom : FlowControlCapacity.floodCost .message msg ≤ fc.flowControlCapacity.capacity.floodCapacity)
    (hroomBytes : ∀ b, fc.flowControlBytesCapacity = some b →
      FlowControlCapacity.floodCost .byte msg ≤ b.capacity.floodCapacity) :
    ∃ fc', fc.beginMessageProcessing msg = .ok (true, fc') ∧ fc'.ReceiverOk cfg (msg :: processing) ∧
      fc'.floodDataProcessed = fc.floodDataProcessed ∧ fc'.floodDataProcessedBytes = fc.floodDataProcessedBytes ∧
      fc'.flowControlBytesCapacity.map (·.capacityLimits) = fc.flowControlBytesCapacity.map (·.capacityLimits) := by
  obtain ⟨c, hlock, hok, hlim, -⟩ := FlowControlCapacity.lockLocalCapacity_of_localOk h.message
    (fun t ht => by
      rw [htotal, Option.some.injEq] at ht
      subst ht
      exact hread) (floodCount_le_of_floodCost_le hroom)
  cases hb : fc.flowControlBytesCapacity with
  | none =>
    refine ⟨{ fc with flowControlCapacity := c }, ?_, ⟨hok, hlim ▸ h.messageLimits, by simp [hb],
      h.processed_lt, fun _ => h.processedBytes_eq hb, by simp [hb]⟩, rfl, rfl, by simp [hb]⟩
    simp [beginMessageProcessing, hlock, hb, pure, Except.pure]
  | some b =>
    obtain ⟨b', hlockb, hokb, hlimb, -⟩ := FlowControlCapacity.lockLocalCapacity_of_localOk (h.bytes b hb).1
      (fun t ht => by simp [h.byteTotal hb] at ht) (floodCount_le_of_floodCost_le (hroomBytes b hb))
    refine ⟨{ fc with flowControlCapacity := c, flowControlBytesCapacity := some b' }, ?_,
      ⟨hok, hlim ▸ h.messageLimits, ?_, h.processed_lt, by simp, fun _ => h.processed_le (by simp [hb])⟩,
      rfl, rfl, by simp [hlimb]⟩
    · simp [beginMessageProcessing, hlock, hb, hlockb, pure, Except.pure]
    · intro b'' hb''
      cases hb''
      exact ⟨hokb, hlimb ▸ (h.bytes b hb).2⟩

theorem floodCost_message_le_byte (msg : HcnetMessage S) :
    FlowControlCapacity.floodCost .message msg ≤ FlowControlCapacity.floodCost .byte msg := by
  unfold FlowControlCapacity.floodCost
  split_ifs
  · exact getMsgResourceCount_pos .byte msg
  · exact le_rfl

theorem floodCost_message_le_one (msg : HcnetMessage S) : FlowControlCapacity.floodCost .message msg ≤ 1 := by
  unfold FlowControlCapacity.floodCost
  split_ifs
  · exact le_rfl
  · exact Nat.zero_le 1

theorem endMessageProcessing_spec [DecidableEq S] (h : fc.ReceiverOk cfg processing) {msg : HcnetMessage S}
    (hmem : msg ∈ processing) {maxTxSize : UInt32} (hmax : 0 < maxTxSize)
    (hbatchBytes : fc.flowControlBytesCapacity.isSome → 0 < (byteBatchSize cfg).toNat)
    (hsmall : fc.flowControlBytesCapacity.isSome →
      fc.floodDataProcessedBytes + FlowControlCapacity.floodCost .byte msg < 2 ^ 32) :
    ∃ fc' sent, fc.endMessageProcessing cfg maxTxSize msg = .ok (fc', sent) ∧
      fc'.ReceiverOk cfg (processing.erase msg) ∧
      fc'.flowControlBytesCapacity.map (·.capacityLimits) = fc.flowControlBytesCapacity.map (·.capacityLimits) ∧
      (∀ g ∈ sent, GrantOk fc.bytesOn g) ∧
      fc'.floodDataProcessed + (sent.map (grantOf .message)).sum =
        fc.floodDataProcessed + FlowControlCapacity.floodCost .message msg ∧
      (fc.flowControlBytesCapacity.isSome → fc'.floodDataProcessedBytes + (sent.map (grantOf .byte)).sum =
        fc.floodDataProcessedBytes + FlowControlCapacity.floodCost .byte msg) ∧
      (sent = [] ∨ fc'.floodDataProcessed = 0 ∧ fc'.floodDataProcessedBytes = 0) := by
  obtain ⟨c, hrel, hok, hlim, -⟩ := FlowControlCapacity.releaseLocalCapacity_of_localOk h.message hmem
  have hlt := h.processed_lt
  have hone := floodCost_message_le_one msg
  have hle : fc.floodDataProcessed + FlowControlCapacity.floodCost .message msg ≤
      cfg.FLOW_CONTROL_SEND_MORE_BATCH_SIZE.toNat := by omega
  have hbatch : fc.floodDataProcessed + FlowControlCapacity.floodCost .message msg < 2 ^ 32 :=
    lt_of_le_of_lt hle (UInt32.toNat_lt _)
  cases hb : fc.flowControlBytesCapacity with
  | none =>
    -- without flow control in bytes a `SEND_MORE` goes once a batch of messages is processed
    have hzero := h.processedBytes_eq hb
    by_cases hfull : fc.floodDataProcessed + FlowControlCapacity.floodCost .message msg =
        cfg.FLOW_CONTROL_SEND_MORE_BATCH_SIZE.toNat
    · refine ⟨{ fc with flowControlCapacity := c, floodDataProcessed := 0, floodDataProcessedBytes := 0 },
        [.sendMore (fc.floodDataProcessed + FlowControlCapacity.floodCost .message msg).toUInt32], ?_,
        ⟨hok, hlim ▸ h.messageLimits, by simp [hb], by simp only; omega, fun _ => rfl, by simp⟩, by simp [hb], ?_, ?_,
        by simp, .inr ⟨rfl, rfl⟩⟩
      · simp only [endMessageProcessing, hrel, hb, Except.ok_bind, pure_bind, releaseAssert_of_true hle, hzero,
          decide_eq_true hfull, if_true, releaseAssert_of_true True.intro]
        rfl
      · intro g hg
        rw [List.mem_singleton.mp hg]
        simp only [GrantOk, bytesOn, hb, Option.isSome_none, true_and]
        simp only [UInt32.toNat_ofNat', Nat.toUInt32, Nat.mod_eq_of_lt hbatch]
        omega
      · simp only [List.map_cons, List.map_nil, List.sum_cons, List.sum_nil, grantOf, Nat.zero_add, Nat.add_zero]
        simp only [Nat.toUInt32, UInt32.toNat_ofNat', Nat.mod_eq_of_lt hbatch]
    · refine ⟨{ fc with
          flowControlCapacity := c
          floodDataProcessed := fc.floodDataProcessed + FlowControlCapacity.floodCost .message msg }, [], ?_,
        ⟨hok, hlim ▸ h.messageLimits, by simp [hb], by simp only; omega, fun _ => hzero, by simp [hb]⟩, by simp [hb],
        by simp, by simp, by simp, .inl rfl⟩
      simp only [endMessageProcessing, hrel, hb, Except.ok_bind, pure_bind, releaseAssert_of_true hle,
        decide_eq_false hfull, Bool.false_eq_true, if_false]
      rfl
  | some b =>
    -- with flow control in bytes a `SEND_MORE_EXTENDED` also goes once a batch of bytes is processed
    obtain ⟨b', hrelb, hokb, hlimb, -⟩ := FlowControlCapacity.releaseLocalCapacity_of_localOk (h.bytes b hb).1 hmem
    have hsome : fc.flowControlBytesCapacity.isSome := by simp [hb]
    have hsmall' := hsmall hsome
    have hpb := h.processed_le hsome
    have hmb := floodCost_message_le_byte msg
    obtain ⟨bytesConfig, hconfig⟩ := getFlowControlBytesConfig_ok cfg hmax
    have hbatchSize := getFlowControlBytesConfig_batchSize hconfig
    have hbytesOk : ∀ b'', some b' = some b'' → b''.LocalOk (processing.erase msg) ∧ b''.capacityLimits.totalCapacity = none := by
      intro b'' hb''
      cases hb''
      exact ⟨hokb, hlimb ▸ (h.bytes b hb).2⟩
    by_cases hsend : (decide (fc.floodDataProcessed + FlowControlCapacity.floodCost .message msg =
        cfg.FLOW_CONTROL_SEND_MORE_BATCH_SIZE.toNat) || decide (fc.floodDataProcessedBytes +
          FlowControlCapacity.floodCost .byte msg ≥ bytesConfig.batchSize.toNat)) = true
    · refine ⟨{ fc with
          flowControlCapacity := c
          flowControlBytesCapacity := some b'
          floodDataProcessed := 0
          floodDataProcessedBytes := 0 },
        [.sendMoreExtended (fc.floodDataProcessed + FlowControlCapacity.floodCost .message msg).toUInt32
          (fc.floodDataProcessedBytes + FlowControlCapacity.floodCost .byte msg).toUInt32], ?_,
        ⟨hok, hlim ▸ h.messageLimits, hbytesOk, by simp only; omega, by simp, fun _ => le_rfl⟩, by simp [hlimb],
        ?_, ?_, ?_, .inr ⟨rfl, rfl⟩⟩
      · simp only [endMessageProcessing, hrel, hb, hrelb, Except.ok_bind, pure_bind, releaseAssert_of_true hle,
          hconfig, hsend, if_true]
        rfl
      · -- a batch of messages holds at least as many bytes, and a batch of bytes at least one
        intro g hg
        rw [List.mem_singleton.mp hg]
        simp only [GrantOk, bytesOn, hb, Option.isSome_some, true_and]
        simp only [Nat.toUInt32, UInt32.toNat_ofNat', Nat.mod_eq_of_lt hsmall']
        have := hbatchBytes hsome
        rw [← hbatchSize] at this
        simp only [Bool.or_eq_true, decide_eq_true_eq] at hsend
        omega
      · simp only [List.map_cons, List.map_nil, List.sum_cons, List.sum_nil, grantOf, Nat.zero_add, Nat.add_zero]
        simp only [Nat.toUInt32, UInt32.toNat_ofNat', Nat.mod_eq_of_lt hbatch]
      · intro _
        simp only [List.map_cons, List.map_nil, List.sum_cons, List.sum_nil, grantOf, Nat.zero_add, Nat.add_zero]
        simp only [Nat.toUInt32, UInt32.toNat_ofNat', Nat.mod_eq_of_lt hsmall']
    · have hfull : fc.floodDataProcessed + FlowControlCapacity.floodCost .message msg ≠
          cfg.FLOW_CONTROL_SEND_MORE_BATCH_SIZE.toNat := by
        intro hfull
        simp [hfull] at hsend
      refine ⟨{ fc with
          flowControlCapacity := c
          flowControlBytesCapacity := some b'
          floodDataProcessed := fc.floodDataProcessed + FlowControlCapacity.floodCost .message msg
          floodDataProcessedBytes := fc.floodDataProcessedBytes + FlowControlCapacity.floodCost .byte msg }, [], ?_,
        ⟨hok, hlim ▸ h.messageLimits, hbytesOk, by simp only; omega, by simp, fun _ => by simp only; omega⟩,
        by simp [hlimb], by simp, by simp, by simp, .inl rfl⟩
      simp only [endMessageProcessing, hrel, hb, hrelb, Except.ok_bind, pure_bind, releaseAssert_of_true hle,
        hconfig, Bool.not_eq_true] at hsend ⊢
      simp only [hsend, Bool.false_eq_true, if_false]
      rfl

theorem handleTxSizeIncrease_spec (h : fc.ReceiverOk cfg processing) {increase : UInt32} (hinc : 0 < increase) :
    ∃ fc', fc.handleTxSizeIncrease increase =
        .ok (fc', if fc.flowControlBytesCapacity.isSome then [.sendMoreExtended 0 increase] else []) ∧
      fc'.ReceiverOk cfg processing ∧ fc'.flowControlCapacity = fc.flowControlCapacity ∧
      fc'.floodDataProcessed = fc.floodDataProcessed ∧ fc'.floodDataProcessedBytes = fc.floodDataProcessedBytes ∧
      fc'.flowControlBytesCapacity.map (·.capacityLimits.floodCapacity) =
        fc.flowControlBytesCapacity.map (·.capacityLimits.floodCapacity + increase.toNat) := by
  cases hb : fc.flowControlBytesCapacity with
  | none => exact ⟨fc, by simp [handleTxSizeIncrease, hb, pure, Except.pure], h, rfl, rfl, rfl, by simp [hb]⟩
  | some b =>
    refine ⟨{ fc with flowControlBytesCapacity := some (FlowControlByteCapacity.handleTxSizeIncrease b increase) }, ?_,
      ⟨h.message, h.messageLimits, ?_, h.processed_lt, by simp, fun _ => h.processed_le (by simp [hb])⟩,
      rfl, rfl, rfl, by simp [FlowControlByteCapacity.handleTxSizeIncrease]⟩
    · simp [handleTxSizeIncrease, hb, releaseAssert_of_true hinc, pure, Except.pure]
    · intro b' hb'
      cases hb'
      obtain ⟨⟨hflood, htotal⟩, hnone⟩ := h.bytes b hb
      refine ⟨⟨?_, htotal⟩, hnone⟩
      simp only [FlowControlByteCapacity.handleTxSizeIncrease]
      omega

theorem isSendMoreValid_of_grantOk {msg : HcnetMessage S} (h : GrantOk fc.bytesOn msg)
    (hmsg : fc.flowControlCapacity.outboundCapacity + grantOf .message msg ≤ UINT64_MAX)
    (hbytes : ∀ b, fc.flowControlBytesCapacity = some b → b.outboundCapacity + grantOf .byte msg ≤ UINT64_MAX) :
    fc.isSendMoreValid msg = .ok () := by
  unfold isSendMoreValid
  cases hb : fc.flowControlBytesCapacity with
  | none =>
    cases msg with
    | sendMore numMessages =>
      obtain ⟨-, hpos⟩ := h
      have hne : numMessages ≠ 0 := fun h0 => by simp [h0] at hpos
      simp only [grantOf] at hmsg
      simp [hne, show ¬ numMessages.toNat > UINT64_MAX - fc.flowControlCapacity.outboundCapacity by omega,
        pure, Except.pure]
    | sendMoreExtended _ _ => simp [GrantOk, bytesOn, hb] at h
    | _ => exact absurd h id
  | some b =>
    cases msg with
    | sendMoreExtended numMessages numBytes =>
      obtain ⟨-, hpos⟩ := h
      have hne : numBytes ≠ 0 := fun h0 => by simp [h0] at hpos
      have hb' := hbytes b hb
      simp only [grantOf] at hmsg hb'
      simp [hne, show ¬ (numMessages.toNat > UINT64_MAX - fc.flowControlCapacity.outboundCapacity ∨
        numBytes.toNat > UINT64_MAX - b.outboundCapacity) by omega, pure, Except.pure]
    | sendMore _ => simp [GrantOk, bytesOn, hb] at h
    | _ => exact absurd h id

theorem sum_floodCost_of_flood {k : CapacityKind} {sent : List (HcnetMessage S)} (h : ∀ m ∈ sent, isFloodMessage m) :
    (sent.map (FlowControlCapacity.floodCost k)).sum = (sent.map (getMsgResourceCount k)).sum := by
  congr 1
  apply List.map_congr_left
  intro m hm
  simp [FlowControlCapacity.floodCost, h m hm]

theorem Sends.byteOutbound {fc' : FlowControl S} {sent : List (HcnetMessage S)} (hs : Sends fc fc' sent)
    {a' : FlowControlCapacity .byte} (ha' : fc'.flowControlBytesCapacity = some a') :
    ∃ a, fc.flowControlBytesCapacity = some a ∧
      (sent.map (FlowControlCapacity.floodCost .byte)).sum ≤ a.outboundCapacity ∧
      a'.outboundCapacity = a.outboundCapacity - (sent.map (FlowControlCapacity.floodCost .byte)).sum := by
  rw [hs.bytes] at ha'
  obtain ⟨a, ha, rfl⟩ := Option.map_eq_some_iff.mp ha'
  rw [sum_floodCost_of_flood hs.flood]
  exact ⟨a, ha, hs.bytes_le a ha, rfl⟩

theorem bytesOn_eq_of_map_eq {fc' : FlowControl S} {β : Type} {f g : FlowControlCapacity .byte → β}
    (h : fc'.flowControlBytesCapacity.map f = fc.flowControlBytesCapacity.map g) : fc'.bytesOn = fc.bytesOn := by
  simpa [bytesOn] using congrArg Option.isSome h

theorem canRead_of_endMessageProcessing [DecidableEq S] {fc' : FlowControl S} {msg : HcnetMessage S}
    (h : fc.ReceiverOk cfg processing) (h' : fc'.ReceiverOk cfg (processing.erase msg)) (hmem : msg ∈ processing) :
    fc'.canRead = .ok true := by
  obtain ⟨total, htotal, hread⟩ := canRead_of_receiverOk h'
  obtain ⟨total₀, htotal₀, -⟩ := canRead_of_receiverOk h
  have hsplit := List.sum_map_erase (getMsgResourceCount .message) hmem
  have hone : getMsgResourceCount .message msg = 1 := rfl
  have hsum := h.message.total
  have hsum' := h'.message.total
  rw [h.messageLimits, htotal₀, Option.map_some, Option.some.injEq] at hsum
  rw [h'.messageLimits, htotal, Option.map_some, Option.some.injEq] at hsum'
  rw [hread, decide_eq_true (by omega)]

theorem queueCounts_empty (bytes : Bool) : QueueCounts bytes (OutboundQueues.empty : OutboundQueues S) 0 0 0 :=
  ⟨by simp [OutboundQueues.empty], by simp [OutboundQueues.empty], by simp [OutboundQueues.empty],
    by simp [OutboundQueues.empty], by simp [OutboundQueues.empty], rfl, rfl⟩

theorem ReceiverOk.start {bytesCapacity : Option (FlowControlCapacity .byte)}
    (hbatch : 0 < cfg.FLOW_CONTROL_SEND_MORE_BATCH_SIZE.toNat)
    (hbytes : ∀ b, bytesCapacity = some b → b.capacity = b.capacityLimits ∧ b.capacityLimits.totalCapacity = none) :
    ({ create cfg with started := true, flowControlBytesCapacity := bytesCapacity } : FlowControl S).ReceiverOk cfg [] where
  message := ⟨by simp [create, FlowControlMessageCapacity.create], by simp [create, FlowControlMessageCapacity.create]⟩
  messageLimits := rfl
  bytes := by
    intro b hb
    obtain ⟨hcap, hnone⟩ := hbytes b hb
    exact ⟨⟨by simp [hcap], by simp [hcap]⟩, hnone⟩
  processed_lt := hbatch
  processedBytes_eq := fun _ => rfl
  processed_le := fun _ => le_rfl

end FlowControl

/-! ## Two peers connected in one direction

The flow of flood messages from a sender to a receiver over a connection: the sender's
`FlowControl` queues and sends them, a FIFO channel carries them, the receiver reads each when
`canRead()` holds and processes it between `beginMessageProcessing` and `endMessageProcessing`,
and a FIFO channel carries the receiver's `SEND_MORE`s back, which the sender checks with
`isSendMoreValid` and takes in with `maybeReleaseCapacityAndTriggerSend`. What the peers do with a
message besides flow control is left out, as is the flow in the other direction. -/

/-- The state of the connection: the two flow controls, the messages written by the sender and
not yet read, the messages the receiver reads and has not finished, and the `SEND_MORE`s written
by the receiver and not yet read. -/
structure PeerLink (S : Type) where
  sender : FlowControl S
  receiver : FlowControl S
  toReceiver : List (HcnetMessage S)
  processing : List (HcnetMessage S)
  toSender : List (HcnetMessage S)

/-- What may happen on the connection: the sender's `Peer::sendMessage`, the receiver reading the
next message, the receiver finishing one it processes (with the herder's largest transaction
size at that time), the sender reading the next `SEND_MORE`, and `Peer::handleMaxTxSizeIncrease`
at the receiver. -/
inductive LinkEvent (S : Type) where
  | send (env : QueueEnv) (msg : HcnetMessage S)
  | read
  | process (msg : HcnetMessage S) (maxTxSize : UInt32)
  | deliver
  | raiseMaxTxSize (increase : UInt32)

namespace PeerLink

/-- `Peer::recvMessage` drops a peer whose flood message finds no capacity with this text. -/
def peerAtCapacity : String := "unexpected flood message, peer at capacity"

variable [DecidableEq S]

/-- One event. A message flow control does not queue is written at once (`Peer::sendMessage`); a
`SEND_MORE` that `isSendMoreValid` rejects drops the connection with its error. -/
def step (cfg : Config) (isNewerNominationOrBallotSt : S → S → Bool) (l : PeerLink S) :
    LinkEvent S → Except String (PeerLink S)
  | .send env msg => do
    let (queued, sender, sent) ← l.sender.maybeSendMessage cfg isNewerNominationOrBallotSt env msg
    pure { l with sender, toReceiver := l.toReceiver ++ if queued then sent else [msg] }
  | .read =>
    match l.toReceiver with
    | [] => pure l
    | msg :: rest => do
      let canRead ← l.receiver.canRead
      if canRead then do
        let (success, receiver) ← l.receiver.beginMessageProcessing msg
        if success then pure { l with receiver, toReceiver := rest, processing := msg :: l.processing }
        else throw peerAtCapacity
      else pure l
  | .process msg maxTxSize =>
    if msg ∈ l.processing then do
      let (receiver, sent) ← l.receiver.endMessageProcessing cfg maxTxSize msg
      -- `Peer::endMessageProcessing` asserts that the peer can read again
      let canRead ← receiver.canRead
      releaseAssert (canRead = true) "canRead()"
      pure { l with receiver, processing := l.processing.erase msg, toSender := l.toSender ++ sent }
    else pure l
  | .deliver =>
    match l.toSender with
    | [] => pure l
    | msg :: rest => do
      l.sender.isSendMoreValid msg
      let (sender, sent) ← l.sender.maybeReleaseCapacityAndTriggerSend msg
      pure { l with sender, toSender := rest, toReceiver := l.toReceiver ++ sent }
  | .raiseMaxTxSize increase =>
    if 0 < increase then do
      let (receiver, sent) ← l.receiver.handleTxSizeIncrease increase
      pure { l with receiver, toSender := l.toSender ++ sent }
    else pure l

def run (cfg : Config) (isNewerNominationOrBallotSt : S → S → Bool) (l : PeerLink S) (events : List (LinkEvent S)) :
    Except String (PeerLink S) :=
  events.foldlM (step cfg isNewerNominationOrBallotSt) l

end PeerLink

/-- Both peers start flow control with one setting; each first message goes to the other. -/
def PeerLink.start (cfg : Config) (maxTxSize : UInt32) (enableFCBytes : Bool) : Except String (PeerLink S) := do
  let (sender, toReceiver) ← (FlowControl.create cfg).start cfg maxTxSize enableFCBytes
  let (receiver, toSender) ← (FlowControl.create cfg).start cfg maxTxSize enableFCBytes
  pure ⟨sender, receiver, toReceiver, [], toSender⟩

/-! ## The flow of each resource

Each resource, messages and bytes, flows as a `CreditFlow.Channel`: the sender's outbound
capacity is the credit, the flood cost of the messages in the channel is in flight, that of the
messages the receiver processes is held, the data processed since the last `SEND_MORE` is
pending, the `SEND_MORE`s in the channel back are the grants, and the receiver's flood capacity
limit is the limit. Each event moves the flow by steps of the channel. -/

namespace PeerLink

open FlowControlCapacity (floodCost)

/-- One resource's flow over the connection, with the sender's credit, the receiver's data
processed and its limit given. -/
def flow (l : PeerLink S) (k : CapacityKind) (credit pending limit : ℕ) : CreditFlow.Channel where
  credit := credit
  inFlight := l.toReceiver.map (floodCost k)
  held := (l.processing.map (floodCost k)).sum
  pending := pending
  grants := (l.toSender.map (grantOf k) : Multiset ℕ)
  limit := limit

def messageFlow (l : PeerLink S) : CreditFlow.Channel :=
  l.flow .message l.sender.flowControlCapacity.outboundCapacity l.receiver.floodDataProcessed
    l.receiver.flowControlCapacity.capacityLimits.floodCapacity

/-- The flow in bytes, between the sender's byte capacity `a` and the receiver's `b`. -/
def byteFlow (l : PeerLink S) (a b : FlowControlCapacity .byte) : CreditFlow.Channel :=
  l.flow .byte a.outboundCapacity l.receiver.floodDataProcessedBytes b.capacityLimits.floodCapacity

/-- The receiver's flood capacity limit in bytes, which only `handleTxSizeIncrease` raises. -/
def byteLimit (l : PeerLink S) : Option ℕ :=
  l.receiver.flowControlBytesCapacity.map (·.capacityLimits.floodCapacity)

section Flow

variable {k : CapacityKind} {l l' : PeerLink S} {credit credit' pending pending' limit limit' : ℕ}

theorem flow_sendAll {sent : List (HcnetMessage S)} (hsum : (sent.map (floodCost k)).sum ≤ credit)
    (hcredit : credit' = credit - (sent.map (floodCost k)).sum) (hr : l'.toReceiver = l.toReceiver ++ sent)
    (hp : l'.processing = l.processing) (hs : l'.toSender = l.toSender) :
    CreditFlow.Steps (l.flow k credit pending limit) (l'.flow k credit' pending limit) :=
  CreditFlow.Steps.sendAll _ hsum (by simp [flow, hcredit, hr, hp, hs])

theorem flow_read {msg : HcnetMessage S} {rest : List (HcnetMessage S)} (hl : l.toReceiver = msg :: rest)
    (hr : l'.toReceiver = rest) (hp : l'.processing = msg :: l.processing) (hs : l'.toSender = l.toSender) :
    CreditFlow.Steps (l.flow k credit pending limit) (l'.flow k credit pending limit) := by
  have hin : (l.flow k credit pending limit).inFlight = floodCost k msg :: rest.map (floodCost k) := by
    simp [flow, hl]
  exact CreditFlow.Steps.read hin (by simp [flow, hr, hp, hs, Nat.add_comm])

theorem flow_process [DecidableEq S] {msg : HcnetMessage S} {sent : List (HcnetMessage S)}
    (hmem : msg ∈ l.processing) (hr : l'.toReceiver = l.toReceiver) (hp : l'.processing = l.processing.erase msg)
    (hs : l'.toSender = l.toSender ++ sent)
    (hpending : pending' + (sent.map (grantOf k)).sum = pending + floodCost k msg) :
    CreditFlow.Steps (l.flow k credit pending limit) (l'.flow k credit pending' limit) := by
  have hheld := List.sum_map_erase (floodCost k) hmem
  refine (CreditFlow.Steps.release (n := floodCost k msg) (by simp only [flow]; omega) rfl).trans ?_
  refine CreditFlow.Steps.grantAll (sent.map (grantOf k)) (by simp only [flow]; omega) ?_
  simp only [flow, hr, hp, hs, List.map_append, ← Multiset.coe_add, CreditFlow.Channel.mk.injEq, true_and, and_true]
  omega

theorem flow_deliver {g : HcnetMessage S} {rest : List (HcnetMessage S)} (hl : l.toSender = g :: rest)
    (hs : l'.toSender = rest) (hr : l'.toReceiver = l.toReceiver) (hp : l'.processing = l.processing)
    (hcredit : credit' = credit + grantOf k g) :
    CreditFlow.Steps (l.flow k credit pending limit) (l'.flow k credit' pending limit) :=
  CreditFlow.Steps.deliver (n := grantOf k g) (by simp [flow, hl]) (by simp [flow, hl, hs, hr, hp, hcredit])

theorem flow_raise {g : HcnetMessage S} (hs : l'.toSender = l.toSender ++ [g]) (hr : l'.toReceiver = l.toReceiver)
    (hp : l'.processing = l.processing) (hlimit : limit' = limit + grantOf k g) :
    CreditFlow.Steps (l.flow k credit pending limit) (l'.flow k credit pending limit') :=
  CreditFlow.Steps.raise (n := grantOf k g) (by simp [flow, hs, hr, hp, hlimit])

theorem floodCost_le_of_conserved {c : FlowControlCapacity k} (hc : c.LocalOk l.processing) {msg : HcnetMessage S}
    {rest : List (HcnetMessage S)} (hl : l.toReceiver = msg :: rest)
    (hcons : (l.flow k credit pending c.capacityLimits.floodCapacity).Conserved) :
    floodCost k msg ≤ c.capacity.floodCapacity := by
  have hin : (l.flow k credit pending c.capacityLimits.floodCapacity).inFlight =
      floodCost k msg :: rest.map (floodCost k) := by
    simp [flow, hl]
  have hroom := hcons.held_add_le hin
  have hflood := hc.flood
  simp only [flow] at hroom
  omega

theorem pending_add_le_of_conserved {msg : HcnetMessage S} (hmem : msg ∈ l.processing)
    (hcons : (l.flow k credit pending limit).Conserved) : pending + floodCost k msg ≤ limit := by
  have hheld : floodCost k msg ≤ (l.processing.map (floodCost k)).sum :=
    List.le_sum_of_mem (List.mem_map_of_mem hmem)
  unfold CreditFlow.Channel.Conserved CreditFlow.Channel.total at hcons
  simp only [flow] at hcons
  omega

theorem credit_add_le_of_conserved {g : HcnetMessage S} {rest : List (HcnetMessage S)} (hl : l.toSender = g :: rest)
    (hcons : (l.flow k credit pending limit).Conserved) : credit + grantOf k g ≤ limit :=
  hcons.credit_add_le (by simp [flow, hl])

end Flow

end PeerLink

/-! ## The invariant of the connection -/

/-- What an event raises the largest transaction by. -/
def LinkEvent.increase : LinkEvent S → ℕ
  | .raiseMaxTxSize increase => increase.toNat
  | _ => 0

/-- The herder's largest transaction size, which `HerderImpl` keeps positive, is positive when a
message ends processing. -/
def LinkEvent.HerderOk : LinkEvent S → Prop
  | .process _ maxTxSize => 0 < maxTxSize
  | _ => True

namespace PeerLink

open FlowControl
open FlowControlCapacity (floodCost)

/-- The connection between two honest peers: the sender was started and its queue counts are
right, both peers agree on flow control in bytes (and then the byte batch is not empty), the
receiver's capacities are its limits less what it processes, every `SEND_MORE` in the channel back
is of a kind the sender accepts, and the flow of each resource is conserved. -/
structure Ok (cfg : Config) (l : PeerLink S) : Prop where
  started : l.sender.started
  counts : l.sender.CountsOf l.sender.outboundQueues
  bytesOn : l.sender.bytesOn = l.receiver.bytesOn
  receiver : l.receiver.ReceiverOk cfg l.processing
  grants : ∀ g ∈ l.toSender, GrantOk l.receiver.bytesOn g
  batchBytes : l.receiver.bytesOn → 0 < (byteBatchSize cfg).toNat
  messageFlow : l.messageFlow.Conserved
  byteFlow : ∀ a b, l.sender.flowControlBytesCapacity = some a → l.receiver.flowControlBytesCapacity = some b →
    (l.byteFlow a b).Conserved

variable {cfg : Config} {l : PeerLink S}

theorem Ok.senderBytes (hl : l.Ok cfg) {b : FlowControlCapacity .byte} (hb : l.receiver.flowControlBytesCapacity = some b) :
    ∃ a, l.sender.flowControlBytesCapacity = some a := by
  have hon : l.sender.bytesOn = true := by rw [hl.bytesOn, FlowControl.bytesOn, hb, Option.isSome_some]
  exact Option.isSome_iff_exists.mp hon

theorem Ok.messageLimit (hl : l.Ok cfg) :
    l.receiver.flowControlCapacity.capacityLimits.floodCapacity = cfg.PEER_FLOOD_READING_CAPACITY.toNat := by
  rw [hl.receiver.messageLimits]

theorem exists_of_map_eq {β : Type} {f : FlowControlCapacity .byte → β} {o o' : Option (FlowControlCapacity .byte)}
    (h : o'.map f = o.map f) {b' : FlowControlCapacity .byte} (hb' : o' = some b') : ∃ b, o = some b ∧ f b' = f b := by
  subst hb'
  cases o with
  | none => simp at h
  | some b => exact ⟨b, rfl, Option.some.inj h⟩

theorem byteLimit_eq {l' : PeerLink S} (h : l'.receiver.flowControlBytesCapacity.map (·.capacityLimits) =
    l.receiver.flowControlBytesCapacity.map (·.capacityLimits)) : l'.byteLimit = l.byteLimit := by
  have hmap := congrArg (Option.map ReadingCapacity.floodCapacity) h
  simp only [Option.map_map] at hmap
  exact hmap

theorem Ok.of_sends (hl : l.Ok cfg) {fc' : FlowControl S} {sent : List (HcnetMessage S)}
    (hcounts : fc'.CountsOf fc'.outboundQueues) (hsends : Sends l.sender fc' sent) (hbytes : fc'.bytesOn = l.sender.bytesOn) :
    ({ l with sender := fc', toReceiver := l.toReceiver ++ sent } : PeerLink S).Ok cfg where
  started := hsends.started ▸ hl.started
  counts := hcounts
  bytesOn := hbytes.trans hl.bytesOn
  receiver := hl.receiver
  grants := hl.grants
  batchBytes := hl.batchBytes
  messageFlow := by
    have hle := hsends.message_le
    rw [← sum_floodCost_of_flood hsends.flood] at hle
    have hout : fc'.flowControlCapacity.outboundCapacity =
        l.sender.flowControlCapacity.outboundCapacity - (sent.map (floodCost .message)).sum := by
      rw [hsends.message, sum_floodCost_of_flood hsends.flood]
    exact hl.messageFlow.steps (flow_sendAll hle hout rfl rfl rfl)
  byteFlow := by
    intro a' b ha' hb
    obtain ⟨a, ha, hle, hout⟩ := hsends.byteOutbound ha'
    exact (hl.byteFlow a b ha hb).steps (flow_sendAll hle hout rfl rfl rfl)

theorem Ok.write (hl : l.Ok cfg) {msg : HcnetMessage S} (hf : isFloodMessage msg = false) :
    ({ l with toReceiver := l.toReceiver ++ [msg] } : PeerLink S).Ok cfg where
  started := hl.started
  counts := hl.counts
  bytesOn := hl.bytesOn
  receiver := hl.receiver
  grants := hl.grants
  batchBytes := hl.batchBytes
  messageFlow := hl.messageFlow.steps (flow_sendAll (by simp [floodCost, hf]) (by simp [floodCost, hf])
    rfl rfl rfl)
  byteFlow := fun a b ha hb => (hl.byteFlow a b ha hb).steps (flow_sendAll (by simp [floodCost, hf])
    (by simp [floodCost, hf]) rfl rfl rfl)

theorem Ok.takeGrant (hl : l.Ok cfg) {g : HcnetMessage S} {rest : List (HcnetMessage S)}
    (hsend : l.toSender = g :: rest) :
    ({ l with
      sender := { l.sender with
        flowControlCapacity := { l.sender.flowControlCapacity with
          outboundCapacity := l.sender.flowControlCapacity.outboundCapacity + grantOf .message g }
        flowControlBytesCapacity := l.sender.flowControlBytesCapacity.map fun b =>
          { b with outboundCapacity := b.outboundCapacity + grantOf .byte g } }
      toSender := rest } : PeerLink S).Ok cfg where
  started := hl.started
  counts := by simpa only [CountsOf, FlowControl.bytesOn, Option.isSome_map] using hl.counts
  bytesOn := by simpa only [FlowControl.bytesOn, Option.isSome_map] using hl.bytesOn
  receiver := hl.receiver
  grants := fun g' hg' => hl.grants g' (hsend ▸ List.mem_cons_of_mem g hg')
  batchBytes := hl.batchBytes
  messageFlow := hl.messageFlow.steps (flow_deliver hsend rfl rfl rfl rfl)
  byteFlow := by
    intro a' b ha' hb
    obtain ⟨a, ha, rfl⟩ := Option.map_eq_some_iff.mp ha'
    exact (hl.byteFlow a b ha hb).steps (flow_deliver hsend rfl rfl rfl rfl)

section Events

variable [DecidableEq S] {isNewerNominationOrBallotSt : S → S → Bool}

theorem Ok.read (hl : l.Ok cfg) {msg : HcnetMessage S} {rest : List (HcnetMessage S)} (hrecv : l.toReceiver = msg :: rest) :
    ∃ l', l.step cfg isNewerNominationOrBallotSt .read = .ok l' ∧ l'.Ok cfg ∧ l'.byteLimit = l.byteLimit := by
  obtain ⟨total, htotal, hcan⟩ := canRead_of_receiverOk hl.receiver
  by_cases hread : 0 < total
  · have hroom : floodCost .message msg ≤ l.receiver.flowControlCapacity.capacity.floodCapacity :=
      floodCost_le_of_conserved hl.receiver.message hrecv hl.messageFlow
    have hroomBytes : ∀ b, l.receiver.flowControlBytesCapacity = some b →
        floodCost .byte msg ≤ b.capacity.floodCapacity := by
      intro b hb
      obtain ⟨a, ha⟩ := hl.senderBytes hb
      exact floodCost_le_of_conserved (hl.receiver.bytes b hb).1 hrecv (hl.byteFlow a b ha hb)
    obtain ⟨fc', hbegin, hok, hp, hpb, hlim⟩ := beginMessageProcessing_spec hl.receiver htotal hread hroom hroomBytes
    have hbytesOn := bytesOn_eq_of_map_eq hlim
    have hlimits := hok.messageLimits.trans hl.receiver.messageLimits.symm
    refine ⟨{ l with receiver := fc', toReceiver := rest, processing := msg :: l.processing }, ?_,
      ⟨hl.started, hl.counts, hl.bytesOn.trans hbytesOn.symm, hok, hbytesOn ▸ hl.grants, hbytesOn ▸ hl.batchBytes, ?_, ?_⟩,
      ?_⟩
    · simp [step, hrecv, hcan, hread, hbegin]
    · show (flow _ .message _ fc'.floodDataProcessed fc'.flowControlCapacity.capacityLimits.floodCapacity).Conserved
      rw [hp, hlimits]
      exact hl.messageFlow.steps (flow_read hrecv rfl rfl rfl)
    · intro a b' ha hb'
      obtain ⟨b, hb, hbl⟩ := exists_of_map_eq hlim hb'
      show (flow _ .byte _ fc'.floodDataProcessedBytes b'.capacityLimits.floodCapacity).Conserved
      rw [hpb, hbl]
      exact (hl.byteFlow a b ha hb).steps (flow_read hrecv rfl rfl rfl)
    · exact byteLimit_eq hlim
  · exact ⟨l, by simp [step, hrecv, hcan, hread], hl, rfl⟩

theorem Ok.process (hl : l.Ok cfg) {msg : HcnetMessage S} (hmem : msg ∈ l.processing) {maxTxSize : UInt32}
    (hmax : 0 < maxTxSize) (hlim : ∀ n, l.byteLimit = some n → n < 2 ^ 32) :
    ∃ l', l.step cfg isNewerNominationOrBallotSt (.process msg maxTxSize) = .ok l' ∧ l'.Ok cfg ∧
      l'.byteLimit = l.byteLimit := by
  -- the bytes processed and those of the message are within the limit, hence within 32 bits
  have hsmall : l.receiver.flowControlBytesCapacity.isSome →
      l.receiver.floodDataProcessedBytes + floodCost .byte msg < 2 ^ 32 := by
    intro hsome
    obtain ⟨b, hb⟩ := Option.isSome_iff_exists.mp hsome
    obtain ⟨a, ha⟩ := hl.senderBytes hb
    have hle := pending_add_le_of_conserved hmem (hl.byteFlow a b ha hb)
    have hlt := hlim b.capacityLimits.floodCapacity (by simp [byteLimit, hb])
    omega
  obtain ⟨fc', sent, hend, hok, hlimB, hgrants, hsum, hsumB, -⟩ :=
    endMessageProcessing_spec hl.receiver hmem hmax hl.batchBytes hsmall
  have hcan := canRead_of_endMessageProcessing hl.receiver hok hmem
  have hbytesOn := bytesOn_eq_of_map_eq hlimB
  have hlimits := hok.messageLimits.trans hl.receiver.messageLimits.symm
  refine ⟨{ l with receiver := fc', processing := l.processing.erase msg, toSender := l.toSender ++ sent }, ?_,
    ⟨hl.started, hl.counts, hl.bytesOn.trans hbytesOn.symm, hok, ?_, hbytesOn ▸ hl.batchBytes, ?_, ?_⟩, ?_⟩
  · simp [step, hmem, hend, hcan]
  · rw [hbytesOn]
    exact List.forall_mem_append.mpr ⟨hl.grants, hgrants⟩
  · show (flow _ .message _ fc'.floodDataProcessed fc'.flowControlCapacity.capacityLimits.floodCapacity).Conserved
    rw [hlimits]
    exact hl.messageFlow.steps (flow_process hmem rfl rfl rfl hsum)
  · intro a b' ha hb'
    obtain ⟨b, hb, hbl⟩ := exists_of_map_eq hlimB hb'
    have hbl' : b'.capacityLimits.floodCapacity = b.capacityLimits.floodCapacity :=
      congrArg ReadingCapacity.floodCapacity hbl
    show (flow _ .byte _ fc'.floodDataProcessedBytes b'.capacityLimits.floodCapacity).Conserved
    rw [hbl']
    exact (hl.byteFlow a b ha hb).steps (flow_process hmem rfl rfl rfl (hsumB (by simp [hb])))
  · exact byteLimit_eq hlimB

theorem Ok.deliver (hl : l.Ok cfg) {g : HcnetMessage S} {rest : List (HcnetMessage S)} (hsend : l.toSender = g :: rest)
    (hlim : ∀ n, l.byteLimit = some n → n < 2 ^ 32) :
    ∃ l', l.step cfg isNewerNominationOrBallotSt .deliver = .ok l' ∧ l'.Ok cfg ∧ l'.byteLimit = l.byteLimit := by
  have hg : GrantOk l.sender.bytesOn g := hl.bytesOn ▸ hl.grants g (by simp [hsend])
  have hmsg : l.sender.flowControlCapacity.outboundCapacity + grantOf .message g ≤ UINT64_MAX := by
    have hle := credit_add_le_of_conserved hsend hl.messageFlow
    have hlt := UInt32.toNat_lt cfg.PEER_FLOOD_READING_CAPACITY
    rw [hl.messageLimit] at hle
    unfold UINT64_MAX
    omega
  have hbytes : ∀ a, l.sender.flowControlBytesCapacity = some a → a.outboundCapacity + grantOf .byte g ≤ UINT64_MAX := by
    intro a ha
    have hon : l.receiver.bytesOn = true := by rw [← hl.bytesOn, FlowControl.bytesOn, ha, Option.isSome_some]
    obtain ⟨b, hb⟩ := Option.isSome_iff_exists.mp hon
    have hle := credit_add_le_of_conserved hsend (hl.byteFlow a b ha hb)
    have hlt := hlim b.capacityLimits.floodCapacity (by simp [byteLimit, hb])
    unfold UINT64_MAX
    omega
  have hvalid := isSendMoreValid_of_grantOk hg hmsg hbytes
  obtain ⟨hty, hext⟩ := hg.type
  obtain ⟨fc', sent, hrel, hcounts, hsends, hbytesOn⟩ :=
    maybeReleaseCapacityAndTriggerSend_spec hl.started hl.counts hty hext
  refine ⟨{ l with sender := fc', toSender := rest, toReceiver := l.toReceiver ++ sent }, ?_,
    (hl.takeGrant hsend).of_sends hcounts hsends (by simpa [FlowControl.bytesOn] using hbytesOn), rfl⟩
  simp [step, hsend, hvalid, hrel]

theorem Ok.raise (hl : l.Ok cfg) (increase : UInt32) :
    ∃ l', l.step cfg isNewerNominationOrBallotSt (.raiseMaxTxSize increase) = .ok l' ∧ l'.Ok cfg ∧
      l'.byteLimit = l.byteLimit.map (· + increase.toNat) := by
  by_cases hinc : 0 < increase
  · obtain ⟨fc', hhandle, hok, hcap, hp, hpb, hlimB⟩ := handleTxSizeIncrease_spec hl.receiver hinc
    have hbytesOn := bytesOn_eq_of_map_eq hlimB
    cases hb : l.receiver.flowControlBytesCapacity with
    | none =>
      -- without flow control in bytes nothing changes but the receiver
      have hb' : fc'.flowControlBytesCapacity = none := by simpa [hb] using hlimB
      refine ⟨{ l with receiver := fc' }, by simp [step, hinc, hhandle, hb],
        ⟨hl.started, hl.counts, hl.bytesOn.trans hbytesOn.symm, hok, hbytesOn ▸ hl.grants, hbytesOn ▸ hl.batchBytes,
          ?_, fun a b' _ hb'' => by simp [hb'] at hb''⟩, by simp [byteLimit, hb, hb']⟩
      show (flow _ .message _ fc'.floodDataProcessed fc'.flowControlCapacity.capacityLimits.floodCapacity).Conserved
      rw [hp, hcap]
      exact hl.messageFlow
    | some b =>
      have hlimB' : fc'.flowControlBytesCapacity.map (·.capacityLimits.floodCapacity) =
          some (b.capacityLimits.floodCapacity + increase.toNat) := by
        rw [hlimB, hb]
        rfl
      obtain ⟨b', hb', hbl⟩ := Option.map_eq_some_iff.mp hlimB'
      have hon : l.receiver.bytesOn = true := by simp [FlowControl.bytesOn, hb]
      refine ⟨{ l with receiver := fc', toSender := l.toSender ++ [.sendMoreExtended 0 increase] },
        by simp [step, hinc, hhandle, hb], ⟨hl.started, hl.counts, hl.bytesOn.trans hbytesOn.symm, hok, ?_,
          hbytesOn ▸ hl.batchBytes, ?_, ?_⟩, by simp [byteLimit, hb, hb', hbl]⟩
      · rw [hbytesOn]
        refine List.forall_mem_append.mpr ⟨hl.grants, ?_⟩
        rw [List.forall_mem_singleton, hon]
        exact ⟨rfl, hinc⟩
      · show (flow _ .message _ fc'.floodDataProcessed fc'.flowControlCapacity.capacityLimits.floodCapacity).Conserved
        rw [hp, hcap]
        exact hl.messageFlow.steps (flow_raise rfl rfl rfl (by simp [grantOf]))
      · intro a b'' ha hb''
        rw [hb', Option.some.injEq] at hb''
        subst hb''
        show (flow _ .byte _ fc'.floodDataProcessedBytes b'.capacityLimits.floodCapacity).Conserved
        rw [hpb, hbl]
        exact (hl.byteFlow a b ha hb).steps (flow_raise rfl rfl rfl (by simp [grantOf]))
  · have h0 : increase.toNat = 0 := by
      rw [UInt32.lt_iff_toNat_lt] at hinc
      simp only [UInt32.toNat_zero] at hinc
      omega
    exact ⟨l, by simp [step, hinc], hl, by simp [h0]⟩

theorem Ok.step (hl : l.Ok cfg) {e : LinkEvent S} (he : e.HerderOk)
    (hlim : ∀ n, l.byteLimit = some n → n + e.increase < 2 ^ 32) :
    ∃ l', l.step cfg isNewerNominationOrBallotSt e = .ok l' ∧ l'.Ok cfg ∧
      l'.byteLimit = l.byteLimit.map (· + e.increase) := by
  have hlim' : ∀ n, l.byteLimit = some n → n < 2 ^ 32 := fun n hn => by
    have := hlim n hn
    omega
  cases e with
  | send env msg =>
    cases hf : isFloodMessage msg with
    | true =>
      obtain ⟨fc', sent, hsend, hcounts, hsends, hbytes⟩ :=
        maybeSendMessage_spec cfg isNewerNominationOrBallotSt env hl.started hl.counts hf
      exact ⟨_, by simp [PeerLink.step, hsend], hl.of_sends hcounts hsends hbytes, by simp only [LinkEvent.increase, Nat.add_zero, Option.map_id', byteLimit]⟩
    | false => exact ⟨_, by simp [PeerLink.step, maybeSendMessage, hf], hl.write hf, by simp only [LinkEvent.increase, Nat.add_zero, Option.map_id', byteLimit]⟩
  | read =>
    cases hrecv : l.toReceiver with
    | nil => exact ⟨l, by simp [PeerLink.step, hrecv], hl, by simp only [LinkEvent.increase, Nat.add_zero, Option.map_id']⟩
    | cons msg rest =>
      obtain ⟨l', hstep, hl', hbl⟩ := hl.read hrecv
      exact ⟨l', hstep, hl', by simp only [hbl, LinkEvent.increase, Nat.add_zero, Option.map_id']⟩
  | process msg maxTxSize =>
    by_cases hmem : msg ∈ l.processing
    · obtain ⟨l', hstep, hl', hbl⟩ := hl.process hmem he hlim'
      exact ⟨l', hstep, hl', by simp only [hbl, LinkEvent.increase, Nat.add_zero, Option.map_id']⟩
    · exact ⟨l, by simp [PeerLink.step, hmem], hl, by simp only [LinkEvent.increase, Nat.add_zero, Option.map_id']⟩
  | deliver =>
    cases hsend : l.toSender with
    | nil => exact ⟨l, by simp [PeerLink.step, hsend], hl, by simp only [LinkEvent.increase, Nat.add_zero, Option.map_id']⟩
    | cons g rest =>
      obtain ⟨l', hstep, hl', hbl⟩ := hl.deliver hsend hlim'
      exact ⟨l', hstep, hl', by simp only [hbl, LinkEvent.increase, Nat.add_zero, Option.map_id']⟩
  | raiseMaxTxSize increase => exact hl.raise increase

theorem Ok.run (hl : l.Ok cfg) (events : List (LinkEvent S)) (he : ∀ e ∈ events, e.HerderOk)
    (hlim : ∀ n, l.byteLimit = some n → n + (events.map LinkEvent.increase).sum < 2 ^ 32) :
    ∃ l', l.run cfg isNewerNominationOrBallotSt events = .ok l' ∧ l'.Ok cfg ∧
      l'.byteLimit.isSome = l.byteLimit.isSome := by
  induction events generalizing l with
  | nil => exact ⟨l, rfl, hl, rfl⟩
  | cons e events ih =>
    -- the first event takes its increase out of the budget, the rest of the run the others
    have hlim₁ : ∀ n, l.byteLimit = some n → n + e.increase < 2 ^ 32 := by
      intro n hn
      have := hlim n hn
      simp only [List.map_cons, List.sum_cons] at this
      omega
    obtain ⟨l₁, hstep, hl₁, hbl⟩ := hl.step (he e List.mem_cons_self) hlim₁
    have hlim' : ∀ n, l₁.byteLimit = some n → n + (events.map LinkEvent.increase).sum < 2 ^ 32 := by
      intro n hn
      rw [hbl] at hn
      obtain ⟨m, hm, rfl⟩ := Option.map_eq_some_iff.mp hn
      have := hlim m hm
      simp only [List.map_cons, List.sum_cons] at this
      omega
    obtain ⟨l', hrun, hl', hsome⟩ := ih hl₁ (fun e' he' => he e' (List.mem_cons_of_mem e he')) hlim'
    refine ⟨l', ?_, hl', by rw [hsome, hbl, Option.isSome_map]⟩
    rw [PeerLink.run, List.foldlM_cons, hstep]
    exact hrun

end Events
end PeerLink

/-! ## From the start of the connection -/

namespace PeerLink

open FlowControl
open FlowControlCapacity (floodCost)

variable {cfg : Config}

theorem isSome_byteLimit (l : PeerLink S) : l.byteLimit.isSome = l.receiver.bytesOn := by
  simp [byteLimit, FlowControl.bytesOn]

theorem start_ok {maxTxSize : UInt32} {enableFCBytes : Bool} (hmax : 0 < maxTxSize)
    (hbatch : 0 < cfg.FLOW_CONTROL_SEND_MORE_BATCH_SIZE.toNat)
    (hflood : cfg.FLOW_CONTROL_SEND_MORE_BATCH_SIZE ≤ cfg.PEER_FLOOD_READING_CAPACITY)
    (hbytes : enableFCBytes → 0 < (byteBatchSize cfg).toNat ∧
      ∀ c, getFlowControlBytesConfig cfg maxTxSize = .ok c → 0 < c.total.toNat) :
    ∃ l : PeerLink S, start cfg maxTxSize enableFCBytes = .ok l ∧ l.Ok cfg ∧ l.receiver.bytesOn = enableFCBytes ∧
      ∀ n, l.byteLimit = some n → ∃ c, getFlowControlBytesConfig cfg maxTxSize = .ok c ∧ n = c.total.toNat := by
  have hPF : 0 < cfg.PEER_FLOOD_READING_CAPACITY.toNat := by
    have := UInt32.le_iff_toNat_le.mp hflood
    omega
  cases enableFCBytes with
  | false =>
    refine ⟨⟨{ create cfg with started := true }, { create cfg with started := true },
      [.sendMore cfg.PEER_FLOOD_READING_CAPACITY], [], [.sendMore cfg.PEER_FLOOD_READING_CAPACITY]⟩, rfl,
      ⟨rfl, queueCounts_empty false, rfl, ReceiverOk.start hbatch (fun b hb => by cases hb), ?_, (fun h => by cases h),
        ?_, (fun a b ha _ => by cases ha)⟩, rfl, (fun n hn => by cases hn)⟩
    · intro g hg
      rw [List.mem_singleton.mp hg]
      exact ⟨rfl, hPF⟩
    · simp [messageFlow, flow, CreditFlow.Channel.Conserved, CreditFlow.Channel.total, create,
        FlowControlMessageCapacity.create, floodCost, isFloodMessage, HcnetMessage.type, grantOf]
  | true =>
    obtain ⟨hbatchBytes, htotal⟩ := hbytes rfl
    obtain ⟨c, hc⟩ := getFlowControlBytesConfig_ok cfg hmax
    have hpos := htotal c hc
    refine ⟨⟨{ create cfg with started := true, flowControlBytesCapacity := some (FlowControlByteCapacity.create c.total) },
      { create cfg with started := true, flowControlBytesCapacity := some (FlowControlByteCapacity.create c.total) },
      [.sendMoreExtended cfg.PEER_FLOOD_READING_CAPACITY c.total], [],
      [.sendMoreExtended cfg.PEER_FLOOD_READING_CAPACITY c.total]⟩, by simp [start, FlowControl.start, hc],
      ⟨rfl, queueCounts_empty true, rfl, ReceiverOk.start hbatch ?_, ?_, fun _ => hbatchBytes, ?_, ?_⟩, rfl, ?_⟩
    · intro b hb
      cases hb
      exact ⟨rfl, rfl⟩
    · intro g hg
      rw [List.mem_singleton.mp hg]
      exact ⟨rfl, hpos⟩
    · simp [messageFlow, flow, CreditFlow.Channel.Conserved, CreditFlow.Channel.total, create,
        FlowControlMessageCapacity.create, floodCost, isFloodMessage, HcnetMessage.type, grantOf]
    · intro a b ha hb
      cases ha
      cases hb
      simp [byteFlow, flow, CreditFlow.Channel.Conserved, CreditFlow.Channel.total, create, FlowControlByteCapacity.create,
        floodCost, isFloodMessage, HcnetMessage.type, grantOf]
    · intro n hn
      cases hn
      exact ⟨c, hc, rfl⟩

variable [DecidableEq S]

theorem run_start_conserved (cfg : Config) (isNewerNominationOrBallotSt : S → S → Bool) (maxTxSize : UInt32)
    (enableFCBytes : Bool) (events : List (LinkEvent S))
    (hbatch : 0 < cfg.FLOW_CONTROL_SEND_MORE_BATCH_SIZE.toNat)
    (hflood : cfg.FLOW_CONTROL_SEND_MORE_BATCH_SIZE ≤ cfg.PEER_FLOOD_READING_CAPACITY) (hmax : 0 < maxTxSize)
    (hbytes : enableFCBytes → 0 < (byteBatchSize cfg).toNat ∧ ∀ c, getFlowControlBytesConfig cfg maxTxSize = .ok c →
      0 < c.total.toNat ∧ c.total.toNat + (events.map LinkEvent.increase).sum < 2 ^ 32)
    (hevents : ∀ e ∈ events, e.HerderOk) :
    ∃ l₀ l, start cfg maxTxSize enableFCBytes = .ok l₀ ∧ l₀.run cfg isNewerNominationOrBallotSt events = .ok l ∧
      l.sender.bytesOn = enableFCBytes ∧ l.receiver.bytesOn = enableFCBytes ∧ l.messageFlow.Conserved ∧
      ∀ a b, l.sender.flowControlBytesCapacity = some a → l.receiver.flowControlBytesCapacity = some b →
        (l.byteFlow a b).Conserved := by
  obtain ⟨l₀, hstart, hl₀, hon, hlim₀⟩ :=
    start_ok (S := S) hmax hbatch hflood fun h => ⟨(hbytes h).1, fun c hc => ((hbytes h).2 c hc).1⟩
  -- the byte limit at the start is the configuration's, which leaves room for every increase
  have hlim : ∀ n, l₀.byteLimit = some n → n + (events.map LinkEvent.increase).sum < 2 ^ 32 := by
    intro n hn
    obtain ⟨c, hc, rfl⟩ := hlim₀ n hn
    have hon' : enableFCBytes = true := by rw [← hon, ← isSome_byteLimit, hn, Option.isSome_some]
    exact ((hbytes hon').2 c hc).2
  obtain ⟨l, hrun, hl, hsome⟩ := hl₀.run events hevents hlim
  have hrecv : l.receiver.bytesOn = enableFCBytes := by rw [← hon, ← isSome_byteLimit, ← isSome_byteLimit, hsome]
  exact ⟨l₀, l, hstart, hrun, hl.bytesOn.trans hrecv, hrecv, hl.messageFlow, hl.byteFlow⟩

example :
    ∃ l₀ l, start defaultConfig 100000 true = .ok l₀ ∧
      l₀.run defaultConfig (fun (_ _ : ℕ) => false) [.send ⟨0, 100000, 0, 0, 0⟩ (.transaction 100), .read,
        .process (.sendMoreExtended 200 300000) 100000, .deliver, .raiseMaxTxSize 1000] = .ok l ∧
      l.sender.bytesOn = true ∧ l.receiver.bytesOn = true ∧ l.messageFlow.Conserved ∧
      ∀ a b, l.sender.flowControlBytesCapacity = some a → l.receiver.flowControlBytesCapacity = some b →
        (l.byteFlow a b).Conserved := by
  have hconfig : getFlowControlBytesConfig defaultConfig 100000 = .ok ⟨300000, 100000⟩ := rfl
  refine run_start_conserved defaultConfig _ 100000 true _ (by decide) (by decide) (by decide) ?_ ?_
  · intro _
    refine ⟨by decide, ?_⟩
    intro c hc
    rw [hconfig, Except.ok.injEq] at hc
    subst hc
    decide
  · intro e he
    simp only [List.mem_cons, List.not_mem_nil, or_false] at he
    rcases he with rfl | rfl | rfl | rfl | rfl
    all_goals first | trivial | exact (by decide : (0 : UInt32) < 100000)

/-- A byte batch of zero, which `Config` accepts beside a byte capacity, makes the receiver
answer the sender's first `SEND_MORE_EXTENDED` with one of no bytes, and the sender drops it as
invalid. -/
theorem run_start_zero_byte_batch_drops :
    ∃ l₀, start { defaultConfig with PEER_FLOOD_READING_CAPACITY_BYTES := 300000 } 100000 true = .ok l₀ ∧
      l₀.run { defaultConfig with PEER_FLOOD_READING_CAPACITY_BYTES := 300000 } (fun (_ _ : ℕ) => false)
        [.read, .process (.sendMoreExtended 200 300000) 100000, .deliver, .deliver] =
        .error "invalid message SEND_MORE_EXTENDED" :=
  ⟨_, rfl, rfl⟩

end PeerLink

end HcnetCore.Overlay
