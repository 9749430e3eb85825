import HcnetCore.Overlay.FlowControlCapacity

/-! # Flow control of a peer connection

`FlowControl` (overlay/FlowControl.cpp) holds, for one connected peer, the capacity of each
resource (`mFlowControlCapacity` in messages, `mFlowControlBytesCapacity` in bytes when flow
control in bytes is on), the four outbound queues of flood messages waiting for capacity, and
the flood data processed since the last `SEND_MORE`.

The functions return the messages they send to the peer with the new state. What they read of
the rest of the node (the clock, the herder, the ledger manager) is given to them: `QueueEnv`
when a message is queued, the herder's `getMaxTxSize()` where the byte configuration is read.
The timer `mNoOutboundCapacity` and the metrics are not modelled.
-/

namespace HcnetCore.Overlay

set_option autoImplicit false

def UINT64_MAX : ℕ := 2 ^ 64 - 1

/-- The configuration `FlowControl` reads (main/Config.h). -/
structure Config where
  PEER_READING_CAPACITY : UInt32
  PEER_FLOOD_READING_CAPACITY : UInt32
  FLOW_CONTROL_SEND_MORE_BATCH_SIZE : UInt32
  PEER_FLOOD_READING_CAPACITY_BYTES : UInt32
  FLOW_CONTROL_SEND_MORE_BATCH_SIZE_BYTES : UInt32
  OUTBOUND_TX_QUEUE_BYTE_LIMIT : UInt32
deriving DecidableEq, Repr

def defaultConfig : Config where
  PEER_READING_CAPACITY := 200
  PEER_FLOOD_READING_CAPACITY := 200
  FLOW_CONTROL_SEND_MORE_BATCH_SIZE := 40
  PEER_FLOOD_READING_CAPACITY_BYTES := 0
  FLOW_CONTROL_SEND_MORE_BATCH_SIZE_BYTES := 0
  OUTBOUND_TX_QUEUE_BYTE_LIMIT := 1024 * 1024 * 3

structure AdjustedFlowControlConfig where
  total : UInt32
  batchSize : UInt32
deriving DecidableEq, Repr

def INITIAL_PEER_FLOOD_READING_CAPACITY_BYTES : UInt32 := 300000

def INITIAL_FLOW_CONTROL_SEND_MORE_BATCH_SIZE_BYTES : UInt32 := 100000

def getFlowControlBytesConfig (cfg : Config) (maxTxSize : UInt32) : Except String AdjustedFlowControlConfig := do
  releaseAssert (0 < maxTxSize) "maxTxSize > 0"
  if cfg.PEER_FLOOD_READING_CAPACITY_BYTES = 0 ∧ cfg.FLOW_CONTROL_SEND_MORE_BATCH_SIZE_BYTES = 0 then
    if ¬(INITIAL_PEER_FLOOD_READING_CAPACITY_BYTES - INITIAL_FLOW_CONTROL_SEND_MORE_BATCH_SIZE_BYTES ≥ maxTxSize) then
      pure ⟨maxTxSize + INITIAL_FLOW_CONTROL_SEND_MORE_BATCH_SIZE_BYTES, INITIAL_FLOW_CONTROL_SEND_MORE_BATCH_SIZE_BYTES⟩
    else pure ⟨INITIAL_PEER_FLOOD_READING_CAPACITY_BYTES, INITIAL_FLOW_CONTROL_SEND_MORE_BATCH_SIZE_BYTES⟩
  else pure ⟨cfg.PEER_FLOOD_READING_CAPACITY_BYTES, cfg.FLOW_CONTROL_SEND_MORE_BATCH_SIZE_BYTES⟩

def byteBatchSize (cfg : Config) : UInt32 :=
  if cfg.PEER_FLOOD_READING_CAPACITY_BYTES = 0 ∧ cfg.FLOW_CONTROL_SEND_MORE_BATCH_SIZE_BYTES = 0 then
    INITIAL_FLOW_CONTROL_SEND_MORE_BATCH_SIZE_BYTES
  else cfg.FLOW_CONTROL_SEND_MORE_BATCH_SIZE_BYTES

theorem getFlowControlBytesConfig_batchSize {cfg : Config} {maxTxSize : UInt32} {c : AdjustedFlowControlConfig}
    (h : getFlowControlBytesConfig cfg maxTxSize = .ok c) : c.batchSize = byteBatchSize cfg := by
  unfold getFlowControlBytesConfig at h
  unfold byteBatchSize
  obtain ⟨_, -, h⟩ := Except.bind_eq_ok.mp h
  split_ifs at h ⊢ <;> simp only [Except.pure_eq_ok] at h <;> rw [← h]

theorem getFlowControlBytesConfig_ok (cfg : Config) {maxTxSize : UInt32} (h : 0 < maxTxSize) :
    ∃ c, getFlowControlBytesConfig cfg maxTxSize = .ok c := by
  unfold getFlowControlBytesConfig
  rw [releaseAssert_of_true h, pure_bind]
  split_ifs <;> exact ⟨_, rfl⟩

/-- What `addMsgAndMaybeTrimQueue` reads of the rest of the node: the clock, the herder's
`getMaxTxSize()`, `getMinLedgerSeqToRemember()` and `getMostRecentCheckpointSeq()`, and the
ledger manager's `getLastMaxTxSetSizeOps()`. -/
structure QueueEnv where
  now : ℕ
  maxTxSize : UInt32
  minLedgerSeqToRemember : UInt32
  mostRecentCheckpointSeq : UInt32
  lastMaxTxSetSizeOps : UInt32
deriving DecidableEq, Repr

/-- `FlowControl::QueuedOutboundMessage`, with the time point on the node's clock, in
nanoseconds. -/
structure QueuedOutboundMessage (S : Type) where
  message : HcnetMessage S
  timeEmplaced : ℕ
deriving DecidableEq, Repr

def OUTBOUND_QUEUE_TIMEOUT : ℕ := 30 * 1000000000

variable {S : Type}

def dropMessageAfterTimeout (queuedMsg : QueuedOutboundMessage S) (now : ℕ) : Bool :=
  let msg := queuedMsg.message
  let dropType := msg.type == .transaction || msg.type == .floodAdvert || msg.type == .floodDemand
  dropType && decide (now - queuedMsg.timeEmplaced > OUTBOUND_QUEUE_TIMEOUT)

/-- Reading an arm of the union from a message of another arm throws `xdr::xdr_wrong_union`. -/
def xdrWrongUnion : String := "xdr::xdr_wrong_union"

namespace HcnetMessage

def envelopeStatement : HcnetMessage S → Except String (ℕ × S)
  | scpMessage slotIndex statement _ => pure (slotIndex, statement)
  | _ => throw xdrWrongUnion

def floodAdvertTxHashes : HcnetMessage S → Except String ℕ
  | floodAdvert txHashes => pure txHashes
  | _ => throw xdrWrongUnion

def floodDemandTxHashes : HcnetMessage S → Except String ℕ
  | floodDemand txHashes => pure txHashes
  | _ => throw xdrWrongUnion

def txHashCount : HcnetMessage S → ℕ
  | floodAdvert txHashes | floodDemand txHashes => txHashes
  | _ => 0

end HcnetMessage

/-- `mOutboundQueues`: SCP messages, transactions, demands and adverts, in the order
`maybeSendNextBatch` serves them. -/
structure OutboundQueues (S : Type) where
  scp : List (QueuedOutboundMessage S)
  tx : List (QueuedOutboundMessage S)
  demand : List (QueuedOutboundMessage S)
  advert : List (QueuedOutboundMessage S)
deriving DecidableEq, Repr

namespace OutboundQueues

def get (queues : OutboundQueues S) : Fin 4 → List (QueuedOutboundMessage S)
  | ⟨0, _⟩ => queues.scp
  | ⟨1, _⟩ => queues.tx
  | ⟨2, _⟩ => queues.demand
  | ⟨3, _⟩ => queues.advert

def set (queues : OutboundQueues S) : Fin 4 → List (QueuedOutboundMessage S) → OutboundQueues S
  | ⟨0, _⟩, queue => { queues with scp := queue }
  | ⟨1, _⟩, queue => { queues with tx := queue }
  | ⟨2, _⟩, queue => { queues with demand := queue }
  | ⟨3, _⟩, queue => { queues with advert := queue }

def empty : OutboundQueues S := ⟨[], [], [], []⟩

@[simp] theorem set_get_self (queues : OutboundQueues S) (i : Fin 4) : queues.set i (queues.get i) = queues := by
  rcases i with ⟨_ | _ | _ | _ | i, hi⟩
  all_goals first | rfl | omega

@[simp] theorem get_set_self (queues : OutboundQueues S) (i : Fin 4) (queue : List (QueuedOutboundMessage S)) :
    (queues.set i queue).get i = queue := by
  rcases i with ⟨_ | _ | _ | _ | i, hi⟩
  all_goals first | rfl | omega

@[simp] theorem get_set_of_ne (queues : OutboundQueues S) {i j : Fin 4} (queue : List (QueuedOutboundMessage S))
    (h : i ≠ j) : (queues.set i queue).get j = queues.get j := by
  rcases i with ⟨_ | _ | _ | _ | i, hi⟩ <;> rcases j with ⟨_ | _ | _ | _ | j, hj⟩
  all_goals first | rfl | omega

end OutboundQueues

/-- The state of `FlowControl`: the two capacities, the outbound queues with their counts, the
flood data processed since the last `SEND_MORE`, and whether `start` set `mSendCallback`. -/
structure FlowControl (S : Type) where
  flowControlCapacity : FlowControlCapacity .message
  flowControlBytesCapacity : Option (FlowControlCapacity .byte)
  outboundQueues : OutboundQueues S
  advertQueueTxHashCount : ℕ
  demandQueueTxHashCount : ℕ
  txQueueByteCount : ℕ
  floodDataProcessed : ℕ
  floodDataProcessedBytes : ℕ
  started : Bool
deriving DecidableEq, Repr

namespace FlowControl

def create (cfg : Config) : FlowControl S where
  flowControlCapacity := FlowControlMessageCapacity.create cfg.PEER_FLOOD_READING_CAPACITY cfg.PEER_READING_CAPACITY
  flowControlBytesCapacity := none
  outboundQueues := .empty
  advertQueueTxHashCount := 0
  demandQueueTxHashCount := 0
  txQueueByteCount := 0
  floodDataProcessed := 0
  floodDataProcessedBytes := 0
  started := false

def start (cfg : Config) (maxTxSize : UInt32) (enableFCBytes : Bool) (fc : FlowControl S) :
    Except String (FlowControl S × List (HcnetMessage S)) :=
  let fc := { fc with started := true }
  if enableFCBytes then do
    let bytesConfig ← getFlowControlBytesConfig cfg maxTxSize
    pure ({ fc with flowControlBytesCapacity := some (FlowControlByteCapacity.create bytesConfig.total) },
      [.sendMoreExtended cfg.PEER_FLOOD_READING_CAPACITY bytesConfig.total])
  else pure (fc, [.sendMore cfg.PEER_FLOOD_READING_CAPACITY])

def hasOutboundCapacity (fc : FlowControl S) (msg : HcnetMessage S) : Bool :=
  fc.flowControlCapacity.hasOutboundCapacity msg &&
    match fc.flowControlBytesCapacity with
    | none => true
    | some bytesCapacity => bytesCapacity.hasOutboundCapacity msg

def releaseQueuedCount (fc : FlowControl S) (msg : HcnetMessage S) : Except String (FlowControl S) :=
  match msg with
  | .transaction _ =>
    match fc.flowControlBytesCapacity with
    | some _ => do
      let s := FlowControlByteCapacity.getMsgResourceCount msg
      releaseAssert (fc.txQueueByteCount ≥ s) "mTxQueueByteCount >= s"
      pure { fc with txQueueByteCount := fc.txQueueByteCount - s }
    | none => pure fc
  | .scpMessage _ _ _ => pure fc
  | .floodDemand s => do
    releaseAssert (fc.demandQueueTxHashCount ≥ s) "mDemandQueueTxHashCount >= s"
    pure { fc with demandQueueTxHashCount := fc.demandQueueTxHashCount - s }
  | .floodAdvert s => do
    releaseAssert (fc.advertQueueTxHashCount ≥ s) "mAdvertQueueTxHashCount >= s"
    pure { fc with advertQueueTxHashCount := fc.advertQueueTxHashCount - s }
  | _ => throw "abort()"

def lockOutboundCapacity (fc : FlowControl S) (msg : HcnetMessage S) : Except String (FlowControl S) := do
  let flowControlCapacity ← fc.flowControlCapacity.lockOutboundCapacity msg
  let flowControlBytesCapacity ← match fc.flowControlBytesCapacity with
    | none => pure none
    | some bytesCapacity => some <$> bytesCapacity.lockOutboundCapacity msg
  pure { fc with flowControlCapacity, flowControlBytesCapacity }

/-- The inner loop of `maybeSendNextBatch` over one queue: while the front has outbound capacity,
send it, lock its capacity and take it off the queue's count. Returns what is left of the queue
and the messages sent. -/
def sendFromQueue : FlowControl S → List (QueuedOutboundMessage S) →
    Except String (FlowControl S × List (QueuedOutboundMessage S) × List (HcnetMessage S))
  | fc, [] => pure (fc, [], [])
  | fc, front :: rest =>
    if !fc.hasOutboundCapacity front.message then pure (fc, front :: rest, [])
    else do
      let fc ← fc.lockOutboundCapacity front.message
      let fc ← fc.releaseQueuedCount front.message
      let (fc, queue, sent) ← sendFromQueue fc rest
      pure (fc, queue, front.message :: sent)

def maybeSendNextBatch (fc : FlowControl S) : Except String (FlowControl S × List (HcnetMessage S)) :=
  if !fc.started then throw "MaybeSendNextBatch: FLowControl was not started properly"
  else
    (List.finRange 4).foldlM
      (fun (fc, sent) i => do
        let (fc, queue, sent') ← sendFromQueue fc (fc.outboundQueues.get i)
        pure ({ fc with outboundQueues := fc.outboundQueues.set i queue }, sent ++ sent'))
      (fc, [])

/-- The purge loop of `addMsgAndMaybeTrimQueue` for transactions: drops from the front while
the queue holds more than `limit` messages, more bytes than `byteLimit` (with flow control in
bytes), or a front that timed out. Calling `front()` on an empty queue is undefined; the model
returns an error. -/
def trimTxQueue (bytes : Bool) (limit byteLimit now : ℕ) :
    List (QueuedOutboundMessage S) → ℕ → Except String (List (QueuedOutboundMessage S) × ℕ)
  | [], txQueueByteCount =>
    if bytes && decide (txQueueByteCount > byteLimit) then throw "front() of an empty queue"
    else pure ([], txQueueByteCount)
  | front :: rest, txQueueByteCount =>
    if decide (rest.length + 1 > limit) || (bytes && decide (txQueueByteCount > byteLimit)) ||
        dropMessageAfterTimeout front now then do
      let txQueueByteCount ← if bytes then do
          let s := FlowControlByteCapacity.getMsgResourceCount front.message
          releaseAssert (txQueueByteCount ≥ s) "mTxQueueByteCount >= s"
          pure (txQueueByteCount - s)
        else pure txQueueByteCount
      trimTxQueue bytes limit byteLimit now rest txQueueByteCount
    else pure (front :: rest, txQueueByteCount)

/-- The purge loop of `addMsgAndMaybeTrimQueue` for adverts and for demands: drops from the front
while the queue's count of transaction hashes is over `limit` or the front timed out. `txHashes`
reads the count of a message, and `assertion` is the `releaseAssert` on the queue's count. -/
def trimTxHashQueue (txHashes : HcnetMessage S → Except String ℕ) (assertion : String) (limit now : ℕ) :
    List (QueuedOutboundMessage S) → ℕ → Except String (List (QueuedOutboundMessage S) × ℕ)
  | [], count =>
    if count > limit then throw "front() of an empty queue" else pure ([], count)
  | front :: rest, count =>
    if decide (count > limit) || dropMessageAfterTimeout front now then do
      let s ← txHashes front.message
      releaseAssert (count ≥ s) assertion
      trimTxHashQueue txHashes assertion limit now rest (count - s)
    else pure (front :: rest, count)

def trimAdvertQueue (limit now : ℕ) :
    List (QueuedOutboundMessage S) → ℕ → Except String (List (QueuedOutboundMessage S) × ℕ) :=
  trimTxHashQueue HcnetMessage.floodAdvertTxHashes "mAdvertQueueTxHashCount >= s" limit now

def trimDemandQueue (limit now : ℕ) :
    List (QueuedOutboundMessage S) → ℕ → Except String (List (QueuedOutboundMessage S) × ℕ) :=
  trimTxHashQueue HcnetMessage.floodDemandTxHashes "mDemandQueueTxHashCount >= s" limit now

/-- The pass of `addMsgAndMaybeTrimQueue` over the SCP queue, with `kept` the queue before the
iterator and `rest` the queue from it: a message for a slot below `minSlotToRemember`, other
than the checkpoint, is erased; the first message older than the newest one (the back of the
queue) by `isNewerNominationOrBallotSt` is replaced by the newest, which leaves the back. -/
def trimScpQueue (isNewerNominationOrBallotSt : S → S → Bool) (minSlotToRemember checkpointSeq : ℕ) :
    Bool → List (QueuedOutboundMessage S) → List (QueuedOutboundMessage S) →
      Except String (List (QueuedOutboundMessage S))
  | _, kept, [] => pure kept
  | valueReplaced, kept, it :: rest => do
    let (index, statement) ← it.message.envelopeStatement
    if index < minSlotToRemember ∧ index ≠ checkpointSeq then
      trimScpQueue isNewerNominationOrBallotSt minSlotToRemember checkpointSeq valueReplaced kept rest
    else if !valueReplaced then
      match rest.getLast? with
      | some back => do
        let (_, backStatement) ← back.message.envelopeStatement
        if isNewerNominationOrBallotSt statement backStatement then
          trimScpQueue isNewerNominationOrBallotSt minSlotToRemember checkpointSeq true (kept ++ [back]) rest.dropLast
        else trimScpQueue isNewerNominationOrBallotSt minSlotToRemember checkpointSeq valueReplaced (kept ++ [it]) rest
      | none => trimScpQueue isNewerNominationOrBallotSt minSlotToRemember checkpointSeq valueReplaced (kept ++ [it]) rest
    else trimScpQueue isNewerNominationOrBallotSt minSlotToRemember checkpointSeq valueReplaced (kept ++ [it]) rest
termination_by _ _ rest => rest.length
decreasing_by
  all_goals simp only [List.length_cons, List.length_dropLast]
  all_goals omega

/-- `addMsgAndMaybeTrimQueue`: queues a flood message by its type and purges its queue. A
transaction larger than the largest transaction is not queued (with flow control in bytes). -/
def addMsgAndMaybeTrimQueue (cfg : Config) (isNewerNominationOrBallotSt : S → S → Bool) (env : QueueEnv)
    (fc : FlowControl S) (msg : HcnetMessage S) : Except String (FlowControl S) :=
  let queued : QueuedOutboundMessage S := ⟨msg, env.now⟩
  let queues := fc.outboundQueues
  let limit := env.lastMaxTxSetSizeOps.toNat
  match msg with
  | .scpMessage _ _ _ => do
    let scp ← trimScpQueue isNewerNominationOrBallotSt env.minLedgerSeqToRemember.toNat
      env.mostRecentCheckpointSeq.toNat false [] (queues.scp ++ [queued])
    pure { fc with outboundQueues := { queues with scp } }
  | .transaction _ =>
    let bytes := fc.flowControlBytesCapacity.isSome
    if bytes && decide (FlowControlByteCapacity.getMsgResourceCount msg > env.maxTxSize.toNat) then pure fc
    else do
      let txQueueByteCount :=
        if bytes then fc.txQueueByteCount + FlowControlByteCapacity.getMsgResourceCount msg else fc.txQueueByteCount
      let (tx, txQueueByteCount) ← trimTxQueue bytes limit cfg.OUTBOUND_TX_QUEUE_BYTE_LIMIT.toNat env.now
        (queues.tx ++ [queued]) txQueueByteCount
      pure { fc with outboundQueues := { queues with tx }, txQueueByteCount }
  | .floodDemand s => do
    let (demand, demandQueueTxHashCount) ← trimDemandQueue limit env.now (queues.demand ++ [queued])
      (fc.demandQueueTxHashCount + s)
    pure { fc with outboundQueues := { queues with demand }, demandQueueTxHashCount }
  | .floodAdvert s => do
    let (advert, advertQueueTxHashCount) ← trimAdvertQueue limit env.now (queues.advert ++ [queued])
      (fc.advertQueueTxHashCount + s)
    pure { fc with outboundQueues := { queues with advert }, advertQueueTxHashCount }
  | _ => throw "abort()"

def maybeSendMessage (cfg : Config) (isNewerNominationOrBallotSt : S → S → Bool) (env : QueueEnv)
    (fc : FlowControl S) (msg : HcnetMessage S) : Except String (Bool × FlowControl S × List (HcnetMessage S)) :=
  if isFloodMessage msg then do
    let fc ← fc.addMsgAndMaybeTrimQueue cfg isNewerNominationOrBallotSt env msg
    let (fc, sent) ← fc.maybeSendNextBatch
    pure (true, fc, sent)
  else pure (false, fc, [])

def maybeReleaseCapacityAndTriggerSend (fc : FlowControl S) (msg : HcnetMessage S) :
    Except String (FlowControl S × List (HcnetMessage S)) :=
  if msg.type = .sendMore ∨ msg.type = .sendMoreExtended then do
    let flowControlCapacity ← FlowControlMessageCapacity.releaseOutboundCapacity fc.flowControlCapacity msg
    let flowControlBytesCapacity ← match fc.flowControlBytesCapacity with
      | none => pure none
      | some bytesCapacity => some <$> FlowControlByteCapacity.releaseOutboundCapacity bytesCapacity msg
    maybeSendNextBatch { fc with flowControlCapacity, flowControlBytesCapacity }
  else pure (fc, [])

def handleTxSizeIncrease (fc : FlowControl S) (increase : UInt32) :
    Except String (FlowControl S × List (HcnetMessage S)) :=
  match fc.flowControlBytesCapacity with
  | none => pure (fc, [])
  | some bytesCapacity => do
    releaseAssert (increase > 0) "increase > 0"
    pure ({ fc with flowControlBytesCapacity := some (FlowControlByteCapacity.handleTxSizeIncrease bytesCapacity increase) },
      [.sendMoreExtended 0 increase])

def beginMessageProcessing (fc : FlowControl S) (msg : HcnetMessage S) : Except String (Bool × FlowControl S) := do
  let (locked, flowControlCapacity) ← fc.flowControlCapacity.lockLocalCapacity msg
  let fc := { fc with flowControlCapacity }
  if !locked then pure (false, fc)
  else match fc.flowControlBytesCapacity with
    | none => pure (true, fc)
    | some bytesCapacity => do
      let (locked, bytesCapacity) ← bytesCapacity.lockLocalCapacity msg
      pure (locked, { fc with flowControlBytesCapacity := some bytesCapacity })

def endMessageProcessing (cfg : Config) (maxTxSize : UInt32) (fc : FlowControl S) (msg : HcnetMessage S) :
    Except String (FlowControl S × List (HcnetMessage S)) := do
  let (released, flowControlCapacity) ← fc.flowControlCapacity.releaseLocalCapacity msg
  let fc := { fc with flowControlCapacity, floodDataProcessed := fc.floodDataProcessed + released }
  let fc ← match fc.flowControlBytesCapacity with
    | none => pure fc
    | some bytesCapacity => do
      let (releasedBytes, bytesCapacity) ← bytesCapacity.releaseLocalCapacity msg
      pure { fc with
        flowControlBytesCapacity := some bytesCapacity
        floodDataProcessedBytes := fc.floodDataProcessedBytes + releasedBytes }
  releaseAssert (fc.floodDataProcessed ≤ cfg.FLOW_CONTROL_SEND_MORE_BATCH_SIZE.toNat)
    "mFloodDataProcessed <= mApp.getConfig().FLOW_CONTROL_SEND_MORE_BATCH_SIZE"
  let shouldSendMore ← match fc.flowControlBytesCapacity with
    | none => pure (decide (fc.floodDataProcessed = cfg.FLOW_CONTROL_SEND_MORE_BATCH_SIZE.toNat))
    | some _ => do
      let bytesConfig ← getFlowControlBytesConfig cfg maxTxSize
      pure (decide (fc.floodDataProcessed = cfg.FLOW_CONTROL_SEND_MORE_BATCH_SIZE.toNat) ||
        decide (fc.floodDataProcessedBytes ≥ bytesConfig.batchSize.toNat))
  if shouldSendMore then do
    let sent ← match fc.flowControlBytesCapacity with
      | some _ => pure [.sendMoreExtended fc.floodDataProcessed.toUInt32 fc.floodDataProcessedBytes.toUInt32]
      | none => do
        releaseAssert (fc.floodDataProcessedBytes = 0) "mFloodDataProcessedBytes == 0"
        pure [.sendMore fc.floodDataProcessed.toUInt32]
    pure ({ fc with floodDataProcessed := 0, floodDataProcessedBytes := 0 }, sent)
  else pure (fc, [])

def canRead (fc : FlowControl S) : Except String Bool := do
  let canReadBytes ← match fc.flowControlBytesCapacity with
    | none => pure true
    | some bytesCapacity => FlowControlByteCapacity.canRead bytesCapacity
  if canReadBytes then FlowControlMessageCapacity.canRead fc.flowControlCapacity else pure false

def isSendMoreValid (fc : FlowControl S) (msg : HcnetMessage S) : Except String Unit :=
  let name := msg.type.enumName
  match fc.flowControlBytesCapacity, msg with
  | none, .sendMore numMessages =>
    if numMessages = 0 then throw s!"invalid message {name}"
    else if numMessages.toNat > UINT64_MAX - fc.flowControlCapacity.outboundCapacity then
      throw "Peer capacity overflow"
    else pure ()
  | some bytesCapacity, .sendMoreExtended numMessages numBytes =>
    if numBytes = 0 then throw s!"invalid message {name}"
    else if numMessages.toNat > UINT64_MAX - fc.flowControlCapacity.outboundCapacity ∨
        numBytes.toNat > UINT64_MAX - bytesCapacity.outboundCapacity then
      throw "Peer capacity overflow"
    else pure ()
  | _, _ => throw s!"unexpected message type {name}"

end FlowControl

/-! ## The outbound queues and their counts -/

/-- The outbound queues hold messages of their own type, and each count is the count of its
queue: the bytes of the transactions (with flow control in bytes, else none), the hashes of the
demands and of the adverts. -/
structure QueueCounts (bytes : Bool) (queues : OutboundQueues S)
    (txQueueByteCount demandQueueTxHashCount advertQueueTxHashCount : ℕ) : Prop where
  scp : ∀ q ∈ queues.scp, q.message.type = .scpMessage
  tx : ∀ q ∈ queues.tx, q.message.type = .transaction
  demand : ∀ q ∈ queues.demand, q.message.type = .floodDemand
  advert : ∀ q ∈ queues.advert, q.message.type = .floodAdvert
  txBytes : txQueueByteCount = if bytes then (queues.tx.map (msgBodySize ·.message)).sum else 0
  demandHashes : demandQueueTxHashCount = (queues.demand.map (·.message.txHashCount)).sum
  advertHashes : advertQueueTxHashCount = (queues.advert.map (·.message.txHashCount)).sum

namespace FlowControl

def bytesOn (fc : FlowControl S) : Bool := fc.flowControlBytesCapacity.isSome

def CountsOf (fc : FlowControl S) (queues : OutboundQueues S) : Prop :=
  QueueCounts fc.bytesOn queues fc.txQueueByteCount fc.demandQueueTxHashCount fc.advertQueueTxHashCount

def txQueueBytesOf (bytes : Bool) : HcnetMessage S → ℕ
  | .transaction envelopeSize => if bytes then msgBodySize (.transaction envelopeSize : HcnetMessage S) else 0
  | _ => 0

def demandHashesOf : HcnetMessage S → ℕ
  | .floodDemand txHashes => txHashes
  | _ => 0

def advertHashesOf : HcnetMessage S → ℕ
  | .floodAdvert txHashes => txHashes
  | _ => 0

end FlowControl

open FlowControl in
theorem QueueCounts.pop {bytes : Bool} {queues : OutboundQueues S} {i : Fin 4} {front : QueuedOutboundMessage S}
    {rest : List (QueuedOutboundMessage S)} {txQueueByteCount demandQueueTxHashCount advertQueueTxHashCount : ℕ}
    (h : QueueCounts bytes (queues.set i (front :: rest)) txQueueByteCount demandQueueTxHashCount advertQueueTxHashCount) :
    isFloodMessage front.message ∧ txQueueBytesOf bytes front.message ≤ txQueueByteCount ∧
      demandHashesOf front.message ≤ demandQueueTxHashCount ∧ advertHashesOf front.message ≤ advertQueueTxHashCount ∧
      QueueCounts bytes (queues.set i rest) (txQueueByteCount - txQueueBytesOf bytes front.message)
        (demandQueueTxHashCount - demandHashesOf front.message) (advertQueueTxHashCount - advertHashesOf front.message) := by
  obtain ⟨hscp, htx, hdemand, hadvert, htxBytes, hdemandHashes, hadvertHashes⟩ := h
  rcases i with ⟨_ | _ | _ | _ | i, hi⟩
  · -- an SCP message counts for nothing
    simp only [OutboundQueues.set] at *
    obtain ⟨slotIndex, statement, envelopeSize, hm⟩ : ∃ slotIndex statement envelopeSize,
        front.message = .scpMessage slotIndex statement envelopeSize := by
      have := hscp front List.mem_cons_self
      cases hm : front.message <;> simp_all [HcnetMessage.type]
    simp only [hm, txQueueBytesOf, demandHashesOf, advertHashesOf, Nat.sub_zero]
    exact ⟨rfl, Nat.zero_le _, Nat.zero_le _, Nat.zero_le _, fun q hq => hscp q (List.mem_cons_of_mem _ hq),
      htx, hdemand, hadvert, htxBytes, hdemandHashes, hadvertHashes⟩
  · -- a transaction counts for its bytes, with flow control in bytes
    simp only [OutboundQueues.set] at *
    obtain ⟨envelopeSize, hm⟩ : ∃ envelopeSize, front.message = .transaction envelopeSize := by
      have := htx front List.mem_cons_self
      cases hm : front.message <;> simp_all [HcnetMessage.type]
    simp only [List.map_cons, List.sum_cons, hm] at htxBytes
    simp only [hm, txQueueBytesOf, demandHashesOf, advertHashesOf, Nat.sub_zero]
    refine ⟨rfl, ?_, Nat.zero_le _, Nat.zero_le _, hscp, fun q hq => htx q (List.mem_cons_of_mem _ hq),
      hdemand, hadvert, ?_, hdemandHashes, hadvertHashes⟩
    · split_ifs at htxBytes ⊢ <;> omega
    · dsimp only
      split_ifs at htxBytes ⊢ <;> omega
  · -- a demand counts for its hashes
    simp only [OutboundQueues.set] at *
    obtain ⟨txHashes, hm⟩ : ∃ txHashes, front.message = .floodDemand txHashes := by
      have := hdemand front List.mem_cons_self
      cases hm : front.message <;> simp_all [HcnetMessage.type]
    simp only [List.map_cons, List.sum_cons, hm, HcnetMessage.txHashCount] at hdemandHashes
    simp only [hm, txQueueBytesOf, demandHashesOf, advertHashesOf, Nat.sub_zero]
    refine ⟨rfl, Nat.zero_le _, by omega, Nat.zero_le _, hscp, htx,
      fun q hq => hdemand q (List.mem_cons_of_mem _ hq), hadvert, htxBytes, ?_, hadvertHashes⟩
    simp only [HcnetMessage.txHashCount] at hdemandHashes ⊢
    omega
  · -- an advert counts for its hashes
    simp only [OutboundQueues.set] at *
    obtain ⟨txHashes, hm⟩ : ∃ txHashes, front.message = .floodAdvert txHashes := by
      have := hadvert front List.mem_cons_self
      cases hm : front.message <;> simp_all [HcnetMessage.type]
    simp only [List.map_cons, List.sum_cons, hm, HcnetMessage.txHashCount] at hadvertHashes
    simp only [hm, txQueueBytesOf, demandHashesOf, advertHashesOf, Nat.sub_zero]
    refine ⟨rfl, Nat.zero_le _, Nat.zero_le _, by omega, hscp, htx, hdemand,
      fun q hq => hadvert q (List.mem_cons_of_mem _ hq), htxBytes, hdemandHashes, ?_⟩
    simp only [HcnetMessage.txHashCount] at hadvertHashes ⊢
    omega
  · omega

namespace FlowControl

theorem releaseQueuedCount_eq {fc : FlowControl S} {msg : HcnetMessage S} (hf : isFloodMessage msg)
    (htx : txQueueBytesOf fc.bytesOn msg ≤ fc.txQueueByteCount) (hdemand : demandHashesOf msg ≤ fc.demandQueueTxHashCount)
    (hadvert : advertHashesOf msg ≤ fc.advertQueueTxHashCount) :
    fc.releaseQueuedCount msg = .ok { fc with
      txQueueByteCount := fc.txQueueByteCount - txQueueBytesOf fc.bytesOn msg
      demandQueueTxHashCount := fc.demandQueueTxHashCount - demandHashesOf msg
      advertQueueTxHashCount := fc.advertQueueTxHashCount - advertHashesOf msg } := by
  cases msg with
  | transaction envelopeSize =>
    obtain ⟨flowControlCapacity, flowControlBytesCapacity, outboundQueues, advertQueueTxHashCount,
      demandQueueTxHashCount, txQueueByteCount, floodDataProcessed, floodDataProcessedBytes, started⟩ := fc
    cases flowControlBytesCapacity with
    | none => simp [releaseQueuedCount, txQueueBytesOf, demandHashesOf, advertHashesOf, bytesOn]
    | some bytesCapacity =>
      simp only [txQueueBytesOf, bytesOn, Option.isSome_some, if_true] at htx
      simp [releaseQueuedCount, releaseAssert_of_true htx, FlowControlByteCapacity.getMsgResourceCount,
        txQueueBytesOf, demandHashesOf, advertHashesOf, bytesOn]
  | scpMessage slotIndex statement envelopeSize =>
    simp [releaseQueuedCount, txQueueBytesOf, demandHashesOf, advertHashesOf]
  | floodDemand txHashes =>
    simp only [demandHashesOf] at hdemand
    simp [releaseQueuedCount, releaseAssert_of_true hdemand, txQueueBytesOf, demandHashesOf, advertHashesOf]
  | floodAdvert txHashes =>
    simp only [advertHashesOf] at hadvert
    simp [releaseQueuedCount, releaseAssert_of_true hadvert, txQueueBytesOf, demandHashesOf, advertHashesOf]
  | sendMore _ | sendMoreExtended _ _ => simp [isFloodMessage, HcnetMessage.type] at hf

/-! ## Serving the queues -/

/-- `fc'` is `fc` having sent the flood messages `sent` against its outbound capacity: each
capacity lost their resources, and nothing else of the flow changed. -/
structure Sends (fc fc' : FlowControl S) (sent : List (HcnetMessage S)) : Prop where
  flood : ∀ m ∈ sent, isFloodMessage m
  message_le : (sent.map (getMsgResourceCount .message)).sum ≤ fc.flowControlCapacity.outboundCapacity
  message : fc'.flowControlCapacity = { fc.flowControlCapacity with
    outboundCapacity := fc.flowControlCapacity.outboundCapacity - (sent.map (getMsgResourceCount .message)).sum }
  bytes_le : ∀ b, fc.flowControlBytesCapacity = some b →
    (sent.map (getMsgResourceCount .byte)).sum ≤ b.outboundCapacity
  bytes : fc'.flowControlBytesCapacity = fc.flowControlBytesCapacity.map fun b =>
    { b with outboundCapacity := b.outboundCapacity - (sent.map (getMsgResourceCount .byte)).sum }
  floodDataProcessed : fc'.floodDataProcessed = fc.floodDataProcessed
  floodDataProcessedBytes : fc'.floodDataProcessedBytes = fc.floodDataProcessedBytes
  started : fc'.started = fc.started

namespace Sends

variable {fc fc' fc₁ fc₂ : FlowControl S} {sent sent₁ sent₂ : List (HcnetMessage S)}

theorem refl (fc : FlowControl S) : Sends fc fc [] :=
  ⟨by simp, by simp, by simp, by simp, by cases fc.flowControlBytesCapacity <;> simp, rfl, rfl, rfl⟩

theorem trans (h₁ : Sends fc fc₁ sent₁) (h₂ : Sends fc₁ fc₂ sent₂) : Sends fc fc₂ (sent₁ ++ sent₂) := by
  have hle₂ := h₂.message_le
  rw [h₁.message] at hle₂
  refine ⟨fun m hm => (List.mem_append.mp hm).elim (h₁.flood m) (h₂.flood m), ?_, ?_, ?_, ?_, ?_, ?_, ?_⟩
  · have := h₁.message_le
    simp only [List.map_append, List.sum_append] at hle₂ ⊢
    omega
  · rw [h₂.message, h₁.message]
    simp only [List.map_append, List.sum_append, Nat.sub_sub]
  · intro b hb
    have hb₁ : fc₁.flowControlBytesCapacity = some { b with
        outboundCapacity := b.outboundCapacity - (sent₁.map (getMsgResourceCount .byte)).sum } := by
      rw [h₁.bytes, hb]
      rfl
    have := h₂.bytes_le _ hb₁
    have := h₁.bytes_le b hb
    simp only [List.map_append, List.sum_append] at *
    omega
  · rw [h₂.bytes, h₁.bytes, Option.map_map]
    congr 1
    funext b
    simp only [Function.comp_apply, List.map_append, List.sum_append, Nat.sub_sub]
  · rw [h₂.floodDataProcessed, h₁.floodDataProcessed]
  · rw [h₂.floodDataProcessedBytes, h₁.floodDataProcessedBytes]
  · rw [h₂.started, h₁.started]

theorem queues (h : Sends fc fc' sent) (outboundQueues : OutboundQueues S)
    (txQueueByteCount demandQueueTxHashCount advertQueueTxHashCount : ℕ) :
    Sends fc { fc' with outboundQueues, txQueueByteCount, demandQueueTxHashCount, advertQueueTxHashCount } sent :=
  ⟨h.flood, h.message_le, h.message, h.bytes_le, h.bytes, h.floodDataProcessed, h.floodDataProcessedBytes, h.started⟩

end Sends

theorem lockOutboundCapacity_eq {fc : FlowControl S} {msg : HcnetMessage S} (hcap : fc.hasOutboundCapacity msg) :
    fc.lockOutboundCapacity msg = .ok { fc with
      flowControlCapacity := { fc.flowControlCapacity with
        outboundCapacity := fc.flowControlCapacity.outboundCapacity - FlowControlCapacity.floodCost .message msg }
      flowControlBytesCapacity := fc.flowControlBytesCapacity.map fun b =>
        { b with outboundCapacity := b.outboundCapacity - FlowControlCapacity.floodCost .byte msg } } := by
  simp only [hasOutboundCapacity, Bool.and_eq_true] at hcap
  obtain ⟨hmsg, hbytes⟩ := hcap
  have hmsg' := FlowControlCapacity.lockOutboundCapacity_eq (c := fc.flowControlCapacity)
    (fun _ => of_decide_eq_true hmsg)
  obtain ⟨flowControlCapacity, flowControlBytesCapacity, outboundQueues, advertQueueTxHashCount,
    demandQueueTxHashCount, txQueueByteCount, floodDataProcessed, floodDataProcessedBytes, started⟩ := fc
  cases flowControlBytesCapacity with
  | none => simp [lockOutboundCapacity, hmsg']
  | some bytesCapacity =>
    have hbytes' := FlowControlCapacity.lockOutboundCapacity_eq (c := bytesCapacity)
      (fun _ => of_decide_eq_true hbytes)
    simp [lockOutboundCapacity, hmsg', hbytes']

theorem sends_lockOutboundCapacity {fc : FlowControl S} {msg : HcnetMessage S} (hf : isFloodMessage msg)
    (hcap : fc.hasOutboundCapacity msg) :
    Sends fc { fc with
      flowControlCapacity := { fc.flowControlCapacity with
        outboundCapacity := fc.flowControlCapacity.outboundCapacity - FlowControlCapacity.floodCost .message msg }
      flowControlBytesCapacity := fc.flowControlBytesCapacity.map fun b =>
        { b with outboundCapacity := b.outboundCapacity - FlowControlCapacity.floodCost .byte msg } } [msg] := by
  simp only [hasOutboundCapacity, Bool.and_eq_true] at hcap
  obtain ⟨hmsg, hbytes⟩ := hcap
  have hcost : ∀ k, FlowControlCapacity.floodCost k msg = getMsgResourceCount k msg := fun k => by
    simp [FlowControlCapacity.floodCost, hf]
  refine ⟨by simpa using hf, ?_, by simp [hcost], fun b hb => ?_, by simp [hcost], rfl, rfl, rfl⟩
  · simpa [FlowControlCapacity.hasOutboundCapacity] using hmsg
  · rw [hb] at hbytes
    simpa [FlowControlCapacity.hasOutboundCapacity] using hbytes

theorem sendFromQueue_spec {queues : OutboundQueues S} {i : Fin 4} (l : List (QueuedOutboundMessage S)) :
    ∀ fc : FlowControl S, fc.CountsOf (queues.set i l) →
      ∃ fc' rest sent, fc.sendFromQueue l = .ok (fc', rest, sent) ∧ fc'.CountsOf (queues.set i rest) ∧
        Sends fc fc' sent ∧ fc'.outboundQueues = fc.outboundQueues ∧ fc'.bytesOn = fc.bytesOn := by
  induction l with
  | nil => exact fun fc h => ⟨fc, [], [], rfl, h, Sends.refl fc, rfl, rfl⟩
  | cons front rest ih =>
    intro fc h
    obtain ⟨hf, htx, hdemand, hadvert, hrest⟩ := h.pop
    by_cases hcap : fc.hasOutboundCapacity front.message
    · -- the front is sent: its capacity is locked and its count released
      have hlock := lockOutboundCapacity_eq hcap
      have hsend := sends_lockOutboundCapacity hf hcap
      set fc₁ : FlowControl S := { fc with
        flowControlCapacity := { fc.flowControlCapacity with
          outboundCapacity := fc.flowControlCapacity.outboundCapacity - FlowControlCapacity.floodCost .message front.message }
        flowControlBytesCapacity := fc.flowControlBytesCapacity.map fun b =>
          { b with outboundCapacity := b.outboundCapacity - FlowControlCapacity.floodCost .byte front.message } }
      have hbytesOn : fc₁.bytesOn = fc.bytesOn := by simp [fc₁, bytesOn]
      have hrelease := @releaseQueuedCount_eq _ fc₁ _ hf (by rw [hbytesOn]; exact htx) hdemand hadvert
      rw [hbytesOn] at hrelease
      set fc₂ : FlowControl S := { fc₁ with
        txQueueByteCount := fc₁.txQueueByteCount - txQueueBytesOf fc.bytesOn front.message
        demandQueueTxHashCount := fc₁.demandQueueTxHashCount - demandHashesOf front.message
        advertQueueTxHashCount := fc₁.advertQueueTxHashCount - advertHashesOf front.message }
      have hbytes₂ : fc₂.bytesOn = fc.bytesOn := hbytesOn
      have hcounts₂ : fc₂.CountsOf (queues.set i rest) := by
        unfold CountsOf
        rw [hbytes₂]
        exact hrest
      obtain ⟨fc', rest', sent, hloop, hcounts, hsends, hqueues, hbytes⟩ := ih fc₂ hcounts₂
      refine ⟨fc', rest', front.message :: sent, ?_, hcounts, ?_, by rw [hqueues], by rw [hbytes, hbytes₂]⟩
      · simp only [sendFromQueue, hcap, Bool.not_true, Bool.false_eq_true, if_false]
        rw [hlock, Except.ok_bind, hrelease, Except.ok_bind, hloop]
        rfl
      · exact (hsend.queues _ _ _ _).trans hsends
    · exact ⟨fc, front :: rest, [], by simp [sendFromQueue, hcap], h, Sends.refl fc, rfl, rfl⟩

theorem maybeSendNextBatch_spec {fc : FlowControl S} (hstarted : fc.started) (h : fc.CountsOf fc.outboundQueues) :
    ∃ fc' sent, fc.maybeSendNextBatch = .ok (fc', sent) ∧ fc'.CountsOf fc'.outboundQueues ∧ Sends fc fc' sent ∧
      fc'.bytesOn = fc.bytesOn := by
  have hloop := Except.foldlM_of_step
    (fun (state : FlowControl S × List (HcnetMessage S)) =>
      state.1.CountsOf state.1.outboundQueues ∧ Sends fc state.1 state.2 ∧ state.1.bytesOn = fc.bytesOn)
    (fun (fc, sent) i => do
      let (fc, queue, sent') ← sendFromQueue fc (fc.outboundQueues.get i)
      pure ({ fc with outboundQueues := fc.outboundQueues.set i queue }, sent ++ sent'))
    (by
      rintro ⟨fc₁, sent₁⟩ i ⟨hcounts₁, hsends₁, hbytes₁⟩
      obtain ⟨fc', rest, sent', hqueue, hcounts', hsends', hqueues', hbytes'⟩ :=
        @sendFromQueue_spec _ fc₁.outboundQueues i _ fc₁ (by rwa [OutboundQueues.set_get_self])
      refine ⟨_, by simp only; rw [hqueue]; rfl, ?_, hsends₁.trans (hsends'.queues _ _ _ _), ?_⟩
      · rw [hqueues']
        exact hcounts'
      · simp only [bytesOn] at hbytes' hbytes₁ ⊢
        rw [hbytes', hbytes₁])
    (List.finRange 4) (fc, []) ⟨h, Sends.refl fc, rfl⟩
  obtain ⟨⟨fc', sent⟩, hfold, hcounts, hsends, hbytes⟩ := hloop
  refine ⟨fc', sent, ?_, hcounts, hsends, hbytes⟩
  simp only [maybeSendNextBatch, hstarted, Bool.not_true, Bool.false_eq_true, if_false]
  exact hfold

end FlowControl

namespace HcnetMessage

theorem envelopeStatement_of_type {msg : HcnetMessage S} (h : msg.type = .scpMessage) :
    ∃ slotIndex statement, msg.envelopeStatement = .ok (slotIndex, statement) := by
  cases msg with
  | scpMessage slotIndex statement _ => exact ⟨slotIndex, statement, rfl⟩
  | _ => simp [type] at h

theorem floodDemandTxHashes_of_type {msg : HcnetMessage S} (h : msg.type = .floodDemand) :
    msg.floodDemandTxHashes = .ok msg.txHashCount := by
  cases msg with
  | floodDemand txHashes => rfl
  | _ => simp [type] at h

theorem floodAdvertTxHashes_of_type {msg : HcnetMessage S} (h : msg.type = .floodAdvert) :
    msg.floodAdvertTxHashes = .ok msg.txHashCount := by
  cases msg with
  | floodAdvert txHashes => rfl
  | _ => simp [type] at h

end HcnetMessage

namespace FlowControl

/-! ## Queuing a flood message -/

theorem trimTxQueue_spec (bytes : Bool) (limit byteLimit now : ℕ) :
    ∀ (queue : List (QueuedOutboundMessage S)) (count : ℕ),
      count = (if bytes then (queue.map (msgBodySize ·.message)).sum else 0) →
      ∃ queue' count', trimTxQueue bytes limit byteLimit now queue count = .ok (queue', count') ∧
        queue' <:+ queue ∧ count' = (if bytes then (queue'.map (msgBodySize ·.message)).sum else 0)
  | [], count, hcount => by
    have hzero : count = 0 := by simpa using hcount
    subst hzero
    refine ⟨[], 0, ?_, List.suffix_refl _, by simp⟩
    simp [trimTxQueue]
  | front :: rest, count, hcount => by
    by_cases hdrop : (decide (rest.length + 1 > limit) || (bytes && decide (count > byteLimit)) ||
        dropMessageAfterTimeout front now) = true
    · -- the front is dropped, and its bytes leave the count
      have hrest : count - (if bytes then msgBodySize front.message else 0) =
          (if bytes then (rest.map (msgBodySize ·.message)).sum else 0) := by
        cases bytes <;> simp_all
      obtain ⟨queue', count', htrim, hsuffix, hcount'⟩ :=
        trimTxQueue_spec bytes limit byteLimit now rest _ hrest
      refine ⟨queue', count', ?_, hsuffix.trans (List.suffix_cons front rest), hcount'⟩
      rw [trimTxQueue, if_pos hdrop]
      cases bytes with
      | true =>
        have hle : msgBodySize front.message ≤ count := by
          simp only [if_true, List.map_cons, List.sum_cons] at hcount
          omega
        simpa [FlowControlByteCapacity.getMsgResourceCount, releaseAssert_of_true hle] using htrim
      | false => simpa using htrim
    · refine ⟨front :: rest, count, ?_, List.suffix_refl _, hcount⟩
      rw [trimTxQueue, if_neg hdrop]
      rfl

theorem trimTxHashQueue_spec (txHashes : HcnetMessage S → Except String ℕ) (assertion : String) (limit now : ℕ) :
    ∀ (queue : List (QueuedOutboundMessage S)) (count : ℕ),
      (∀ q ∈ queue, txHashes q.message = .ok q.message.txHashCount) →
      count = (queue.map (·.message.txHashCount)).sum →
      ∃ queue' count', trimTxHashQueue txHashes assertion limit now queue count = .ok (queue', count') ∧
        queue' <:+ queue ∧ count' = (queue'.map (·.message.txHashCount)).sum
  | [], count, _, hcount => by
    have hzero : count = 0 := by simpa using hcount
    subst hzero
    exact ⟨[], 0, by simp [trimTxHashQueue], List.suffix_refl _, rfl⟩
  | front :: rest, count, htx, hcount => by
    have hfront := htx front List.mem_cons_self
    simp only [List.map_cons, List.sum_cons] at hcount
    by_cases hdrop : (decide (count > limit) || dropMessageAfterTimeout front now) = true
    · obtain ⟨queue', count', htrim, hsuffix, hcount'⟩ :=
        trimTxHashQueue_spec txHashes assertion limit now rest (count - front.message.txHashCount)
          (fun q hq => htx q (List.mem_cons_of_mem _ hq)) (by omega)
      refine ⟨queue', count', ?_, hsuffix.trans (List.suffix_cons front rest), hcount'⟩
      rw [trimTxHashQueue, if_pos hdrop, hfront, Except.ok_bind, releaseAssert_of_true (by omega)]
      exact htrim
    · refine ⟨front :: rest, count, ?_, List.suffix_refl _, by simp [hcount]⟩
      rw [trimTxHashQueue, if_neg hdrop]
      rfl

theorem trimScpQueue_spec (isNewerNominationOrBallotSt : S → S → Bool) (minSlotToRemember checkpointSeq : ℕ)
    (valueReplaced : Bool) (kept rest : List (QueuedOutboundMessage S)) (hscp : ∀ q ∈ rest, q.message.type = .scpMessage) :
    ∃ queue, trimScpQueue isNewerNominationOrBallotSt minSlotToRemember checkpointSeq valueReplaced kept rest =
      .ok queue ∧ ∀ q ∈ queue, q ∈ kept ∨ q ∈ rest := by
  -- strong induction on the part of the queue the pass has not reached
  induction hn : rest.length using Nat.strong_induction_on generalizing valueReplaced kept rest with
  | _ n ih =>
  cases rest with
  | nil => exact ⟨kept, by rw [trimScpQueue]; rfl, fun _ hq => .inl hq⟩
  | cons it rest =>
    have hrest : ∀ q ∈ rest, q.message.type = .scpMessage := fun q hq => hscp q (List.mem_cons_of_mem _ hq)
    -- what a pass that goes on within `rest` keeps was kept, or is in the queue
    have hnext : ∀ (valueReplaced : Bool) (kept' rest' : List (QueuedOutboundMessage S)),
        rest'.length < n → (∀ q ∈ kept', q ∈ kept ∨ q ∈ it :: rest) → (∀ q ∈ rest', q ∈ rest) →
        ∃ queue, trimScpQueue isNewerNominationOrBallotSt minSlotToRemember checkpointSeq valueReplaced kept' rest' =
          .ok queue ∧ ∀ q ∈ queue, q ∈ kept ∨ q ∈ it :: rest := by
      intro valueReplaced kept' rest' hlt hkept hsub
      obtain ⟨queue, h, hmem⟩ := ih _ hlt valueReplaced kept' rest' (fun q hq => hrest q (hsub q hq)) rfl
      refine ⟨queue, h, fun q hq => ?_⟩
      rcases hmem q hq with hq | hq
      · exact hkept q hq
      · exact .inr (List.mem_cons_of_mem _ (hsub q hq))
    have hkeepIt : ∀ q ∈ kept ++ [it], q ∈ kept ∨ q ∈ it :: rest := by
      intro q hq
      rcases List.mem_append.mp hq with hq | hq
      · exact .inl hq
      · exact .inr (List.mem_singleton.mp hq ▸ List.mem_cons_self)
    have hlt : rest.length < n := by simp [← hn]
    obtain ⟨index, statement, hit⟩ := HcnetMessage.envelopeStatement_of_type (hscp it List.mem_cons_self)
    rw [trimScpQueue, hit, Except.ok_bind]
    dsimp only
    split_ifs with hold hrep
    · exact hnext valueReplaced kept rest hlt (fun q hq => .inl hq) (fun _ hq => hq)
    · cases hback : rest.getLast? with
      | none => exact hnext valueReplaced (kept ++ [it]) rest hlt hkeepIt (fun _ hq => hq)
      | some back =>
        have hbackMem : back ∈ rest := List.mem_of_getLast? hback
        obtain ⟨backIndex, backStatement, hb⟩ := HcnetMessage.envelopeStatement_of_type (hrest back hbackMem)
        simp only [hb, Except.ok_bind]
        split
        · refine hnext true (kept ++ [back]) rest.dropLast (by simp; omega) ?_ (fun q hq => List.mem_of_mem_dropLast hq)
          intro q hq
          rcases List.mem_append.mp hq with hq | hq
          · exact .inl hq
          · exact .inr (List.mem_cons_of_mem _ (List.mem_singleton.mp hq ▸ hbackMem))
        · exact hnext valueReplaced (kept ++ [it]) rest hlt hkeepIt (fun _ hq => hq)
    · exact hnext valueReplaced (kept ++ [it]) rest hlt hkeepIt (fun _ hq => hq)

theorem addMsgAndMaybeTrimQueue_spec (cfg : Config) (isNewerNominationOrBallotSt : S → S → Bool) (env : QueueEnv)
    {fc : FlowControl S} {msg : HcnetMessage S} (h : fc.CountsOf fc.outboundQueues) (hf : isFloodMessage msg) :
    ∃ queues tx demand advert, fc.addMsgAndMaybeTrimQueue cfg isNewerNominationOrBallotSt env msg =
        .ok { fc with
          outboundQueues := queues
          txQueueByteCount := tx
          demandQueueTxHashCount := demand
          advertQueueTxHashCount := advert } ∧
      QueueCounts fc.bytesOn queues tx demand advert := by
  obtain ⟨hscp, htx, hdemand, hadvert, htxBytes, hdemandHashes, hadvertHashes⟩ := h
  cases msg with
  | scpMessage slotIndex statement envelopeSize =>
    obtain ⟨scp, hrun, hmem⟩ := trimScpQueue_spec isNewerNominationOrBallotSt env.minLedgerSeqToRemember.toNat
      env.mostRecentCheckpointSeq.toNat false [] (fc.outboundQueues.scp ++ [⟨.scpMessage slotIndex statement envelopeSize, env.now⟩])
      (List.forall_mem_append.mpr ⟨hscp, List.forall_mem_singleton.mpr rfl⟩)
    refine ⟨{ fc.outboundQueues with scp }, fc.txQueueByteCount, fc.demandQueueTxHashCount, fc.advertQueueTxHashCount,
      by simp only [addMsgAndMaybeTrimQueue, hrun]; rfl, ?_⟩
    refine ⟨fun q hq => ?_, htx, hdemand, hadvert, htxBytes, hdemandHashes, hadvertHashes⟩
    rcases hmem q hq with hq | hq
    · simp at hq
    · exact List.forall_mem_append.mpr ⟨hscp, List.forall_mem_singleton.mpr rfl⟩ q hq
  | transaction envelopeSize =>
    by_cases hbig : (fc.flowControlBytesCapacity.isSome &&
        decide (FlowControlByteCapacity.getMsgResourceCount (.transaction envelopeSize : HcnetMessage S) >
          env.maxTxSize.toNat)) = true
    · -- a transaction larger than the largest one is not queued
      refine ⟨fc.outboundQueues, fc.txQueueByteCount, fc.demandQueueTxHashCount, fc.advertQueueTxHashCount, ?_, hscp, htx, hdemand, hadvert, htxBytes, hdemandHashes, hadvertHashes⟩
      simp only [addMsgAndMaybeTrimQueue, if_pos hbig]
      rfl
    · have hcount : (if fc.bytesOn then fc.txQueueByteCount + FlowControlByteCapacity.getMsgResourceCount
            (.transaction envelopeSize : HcnetMessage S) else fc.txQueueByteCount) =
          (if fc.bytesOn then ((fc.outboundQueues.tx ++ [(⟨.transaction envelopeSize, env.now⟩ : QueuedOutboundMessage S)]).map
            (msgBodySize ·.message)).sum else 0) := by
        cases hb : fc.bytesOn <;> simp_all [FlowControlByteCapacity.getMsgResourceCount]
      obtain ⟨tx, count, hrun, hsuffix, hcount'⟩ := trimTxQueue_spec fc.bytesOn env.lastMaxTxSetSizeOps.toNat
        cfg.OUTBOUND_TX_QUEUE_BYTE_LIMIT.toNat env.now _ _ hcount
      refine ⟨{ fc.outboundQueues with tx }, count, fc.demandQueueTxHashCount, fc.advertQueueTxHashCount, ?_, ?_⟩
      · simp only [addMsgAndMaybeTrimQueue, if_neg hbig]
        rw [show fc.flowControlBytesCapacity.isSome = fc.bytesOn from rfl, hrun]
        rfl
      · refine ⟨hscp, fun q hq => ?_, hdemand, hadvert, hcount', hdemandHashes, hadvertHashes⟩
        exact List.forall_mem_append.mpr ⟨htx, List.forall_mem_singleton.mpr rfl⟩ q (hsuffix.subset hq)
  | floodDemand txHashes =>
    have hmsgs : ∀ q ∈ fc.outboundQueues.demand ++ [(⟨.floodDemand txHashes, env.now⟩ : QueuedOutboundMessage S)], q.message.type = .floodDemand :=
      List.forall_mem_append.mpr ⟨hdemand, List.forall_mem_singleton.mpr rfl⟩
    obtain ⟨demand, count, hrun, hsuffix, hcount'⟩ := trimTxHashQueue_spec HcnetMessage.floodDemandTxHashes
      "mDemandQueueTxHashCount >= s" env.lastMaxTxSetSizeOps.toNat env.now _ (fc.demandQueueTxHashCount + txHashes)
      (fun q hq => HcnetMessage.floodDemandTxHashes_of_type (hmsgs q hq))
      (by simp [hdemandHashes, HcnetMessage.txHashCount])
    refine ⟨{ fc.outboundQueues with demand }, fc.txQueueByteCount, count, fc.advertQueueTxHashCount, ?_, ?_⟩
    · simp only [addMsgAndMaybeTrimQueue, trimDemandQueue]
      rw [hrun]
      rfl
    · exact ⟨hscp, htx, fun q hq => hmsgs q (hsuffix.subset hq), hadvert, htxBytes, hcount', hadvertHashes⟩
  | floodAdvert txHashes =>
    have hmsgs : ∀ q ∈ fc.outboundQueues.advert ++ [(⟨.floodAdvert txHashes, env.now⟩ : QueuedOutboundMessage S)], q.message.type = .floodAdvert :=
      List.forall_mem_append.mpr ⟨hadvert, List.forall_mem_singleton.mpr rfl⟩
    obtain ⟨advert, count, hrun, hsuffix, hcount'⟩ := trimTxHashQueue_spec HcnetMessage.floodAdvertTxHashes
      "mAdvertQueueTxHashCount >= s" env.lastMaxTxSetSizeOps.toNat env.now _ (fc.advertQueueTxHashCount + txHashes)
      (fun q hq => HcnetMessage.floodAdvertTxHashes_of_type (hmsgs q hq))
      (by simp [hadvertHashes, HcnetMessage.txHashCount])
    refine ⟨{ fc.outboundQueues with advert }, fc.txQueueByteCount, fc.demandQueueTxHashCount, count, ?_, ?_⟩
    · simp only [addMsgAndMaybeTrimQueue, trimAdvertQueue]
      rw [hrun]
      rfl
    · exact ⟨hscp, htx, hdemand, fun q hq => hmsgs q (hsuffix.subset hq), htxBytes, hdemandHashes, hcount'⟩
  | sendMore _ | sendMoreExtended _ _ => simp [isFloodMessage, HcnetMessage.type] at hf

theorem maybeSendMessage_spec (cfg : Config) (isNewerNominationOrBallotSt : S → S → Bool) (env : QueueEnv)
    {fc : FlowControl S} {msg : HcnetMessage S} (hstarted : fc.started) (h : fc.CountsOf fc.outboundQueues)
    (hf : isFloodMessage msg) :
    ∃ fc' sent, fc.maybeSendMessage cfg isNewerNominationOrBallotSt env msg = .ok (true, fc', sent) ∧
      fc'.CountsOf fc'.outboundQueues ∧ Sends fc fc' sent ∧ fc'.bytesOn = fc.bytesOn := by
  obtain ⟨queues, tx, demand, advert, hadd, hcounts⟩ := addMsgAndMaybeTrimQueue_spec cfg isNewerNominationOrBallotSt env h hf
  have hstarted' : ({ fc with
      outboundQueues := queues
      txQueueByteCount := tx
      demandQueueTxHashCount := demand
      advertQueueTxHashCount := advert } : FlowControl S).started := hstarted
  obtain ⟨fc', sent, hbatch, hcounts', hsends, hbytes⟩ := maybeSendNextBatch_spec hstarted' hcounts
  refine ⟨fc', sent, ?_, hcounts', ?_, hbytes⟩
  · simp only [maybeSendMessage, hf, if_true, hadd, Except.ok_bind, hbatch]
    rfl
  · simpa using ((Sends.refl fc).queues queues tx demand advert).trans hsends

theorem maybeReleaseCapacityAndTriggerSend_spec {fc : FlowControl S} {msg : HcnetMessage S} (hstarted : fc.started)
    (h : fc.CountsOf fc.outboundQueues) (hmsg : msg.type = .sendMore ∨ msg.type = .sendMoreExtended)
    (hbytesMsg : fc.bytesOn → msg.type = .sendMoreExtended) :
    ∃ fc' sent, fc.maybeReleaseCapacityAndTriggerSend msg = .ok (fc', sent) ∧ fc'.CountsOf fc'.outboundQueues ∧
      Sends { fc with
        flowControlCapacity := { fc.flowControlCapacity with
          outboundCapacity := fc.flowControlCapacity.outboundCapacity + grantOf .message msg }
        flowControlBytesCapacity := fc.flowControlBytesCapacity.map fun b =>
          { b with outboundCapacity := b.outboundCapacity + grantOf .byte msg } } fc' sent ∧
      fc'.bytesOn = fc.bytesOn := by
  have hbytes : ∀ b, fc.flowControlBytesCapacity = some b →
      FlowControlByteCapacity.releaseOutboundCapacity b msg = .ok { b with outboundCapacity := b.outboundCapacity + grantOf .byte msg } :=
    fun b hb => FlowControlByteCapacity.releaseOutboundCapacity_eq (hbytesMsg (by simp [bytesOn, hb]))
  have hstarted' : ({ fc with
      flowControlCapacity := { fc.flowControlCapacity with
        outboundCapacity := fc.flowControlCapacity.outboundCapacity + grantOf .message msg }
      flowControlBytesCapacity := fc.flowControlBytesCapacity.map fun b =>
        { b with outboundCapacity := b.outboundCapacity + grantOf .byte msg } } : FlowControl S).started := hstarted
  obtain ⟨fc', sent, hbatch, hcounts', hsends, hbytesOn⟩ := maybeSendNextBatch_spec hstarted'
    (by simpa only [CountsOf, bytesOn, Option.isSome_map] using h)
  refine ⟨fc', sent, ?_, hcounts', hsends, ?_⟩
  · rw [← hbatch]
    simp only [maybeReleaseCapacityAndTriggerSend, if_pos hmsg, FlowControlMessageCapacity.releaseOutboundCapacity_eq hmsg,
      Except.ok_bind]
    cases hb : fc.flowControlBytesCapacity with
    | none => rfl
    | some b => simp [hbytes b hb]
  · rw [hbytesOn]
    simp [bytesOn]

end FlowControl

end HcnetCore.Overlay
