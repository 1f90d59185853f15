import PapQuic.Server.Token

/-! # Transmitting

`ch_tx` of `ssl/quic/quic_channel.c`: packets are generated until there is nothing to send, and the
datagrams that are queued are handed to the network (`ossl_qtx_flush_net`). When datagrams remain in
the queue, `ch_tx` stores through the pointer that it was given (`chTx_stores_iff`). -/

namespace PapQuic.Client.Transmit

open Wire.Packet Server.Token Wire.Header

/-! ### The channel -/

/-- `BIO_ADDR`: the address and the port, or a family that is not compared. -/
inductive Addr
  | inet (addr port : ℕ)
  | inet6 (addr port : ℕ)
  | unspec
  deriving DecidableEq, Repr

/-- `QUIC_CHANNEL_STATE_*`. -/
inductive ChState
  | idle | active | closing | draining | terminated
  deriving DecidableEq, Repr

/-- `QUIC_CHANNEL`, what the functions here read and write, with the fields of its packetiser and of
its record layer. -/
structure Channel where
  isServer : Bool
  state : ChState
  protocolError : Bool
  netError : Bool
  haveSentAnyPkt : Bool
  connCloseQueued : Bool
  doingRetry : Bool
  haveReceivedEncPkt : Bool
  haveProcessedAnyPkt : Bool
  initDcid : ConnId
  initScid : ConnId
  retryScid : ConnId
  curPeerAddr : Addr
  elDiscarded : EncLevel → Bool
  /-- `txp->args.cur_dcid`. -/
  curDcid : ConnId
  initialToken : Option Bytes
  mdpl : ℕ
  /-- `qtx->pending_count`. -/
  pendingCount : ℕ

/-- The channel has been given up, or is about to be. -/
def Channel.Over (ch : Channel) : Prop := ch.state ≠ .idle ∧ ch.state ≠ .active

/-- After a protocol error the channel has been given up. -/
def Channel.Wf (ch : Channel) : Prop := ch.protocolError = true → ch.Over

/-- `ossl_quic_channel_notify_flush_done`. -/
def notifyFlushDone (remote : Bool) (ch : Channel) : Channel :=
  if remote then { ch with state := .draining }
  else { ch with state := .closing, connCloseQueued := true }

/-- `ch_start_terminating`. -/
def chStartTerminating (remote forceImmediate : Bool) (ch : Channel) : Channel :=
  let forceImmediate := forceImmediate || !ch.haveSentAnyPkt
  match ch.state with
  | .idle => { ch with state := .terminated }
  | .active =>
    if forceImmediate then { ch with state := .terminated } else notifyFlushDone remote ch
  | .closing =>
    if forceImmediate then { ch with state := .terminated }
    else if remote then { ch with state := .draining }
    else ch
  | .draining => if forceImmediate then { ch with state := .terminated } else ch
  | .terminated => ch

/-- `ossl_quic_channel_raise_protocol_error`. -/
def raiseProtocolError (ch : Channel) : Channel :=
  if ch.protocolError then ch else chStartTerminating false false { ch with protocolError := true }

/-- `ossl_quic_channel_raise_net_error`. -/
def raiseNetError (ch : Channel) : Channel :=
  if ch.netError then ch else chStartTerminating false true { ch with netError := true }

/-- `ch_discard_el`. -/
def chDiscardEl (encLevel : EncLevel) (ch : Channel) : Channel :=
  if encLevel = .oneRtt then ch
  else { ch with elDiscarded := Function.update ch.elDiscarded encLevel true }

/-! ### Flushing -/

/-- What `BIO_sendmmsg` comes to: it takes messages, at most this many, or fails. -/
inductive Send
  | taken (wr : ℕ)
  | transient
  | permanent
  deriving DecidableEq, Repr

/-- `QTX_FLUSH_NET_RES_*`. -/
inductive FlushNetRes
  | ok | transientFail | permanentFail
  deriving DecidableEq, Repr

/-- `MAX_MSGS_PER_SEND`. -/
def maxMsgsPerSend : ℕ := 32

/-- What `ossl_qtx_flush_net` returns after the loop. -/
def flushed (totalWritten : ℕ) : FlushNetRes := if totalWritten > 0 then .ok else .transientFail

/-- The loop of `ossl_qtx_flush_net`: the datagrams that remain. After these answers the network
takes nothing more. -/
def flushLoop : List Send → ℕ → ℕ → ℕ × FlushNetRes
  | [], pending, totalWritten => (pending, flushed totalWritten)
  | answer :: sends, pending, totalWritten =>
    let i := min pending maxMsgsPerSend
    if i = 0 then (pending, flushed totalWritten)
    else
      match answer with
      | .taken wr =>
        if min wr i = 0 then (pending, flushed totalWritten)
        else flushLoop sends (pending - min wr i) (totalWritten + min wr i)
      | .transient => (pending, flushed totalWritten)
      | .permanent => (pending, .permanentFail)

/-- What a call of `ossl_quic_tx_packetiser_generate` comes to. -/
structure Generated where
  /-- It does not fail. -/
  res : Bool
  sentPkt : ℕ
  sentHandshake : Bool
  /-- The datagrams it puts into the queue. -/
  datagrams : ℕ

/-- What `ch_tx` meets: the packetiser, which generates nothing after these calls, and the
network. -/
structure Tx where
  generated : List Generated
  /-- There is a network BIO. -/
  bio : Bool
  sends : List Send
  /-- `ossl_quic_port_is_running`. -/
  portRunning : Bool

/-- `ossl_qtx_flush_net`. -/
def qtxFlushNet (tx : Tx) (pending : ℕ) : ℕ × FlushNetRes :=
  if pending = 0 then (pending, .ok)
  else if tx.bio = false then (pending, .permanentFail)
  else flushLoop tx.sends pending 0

/-- What is done after a call that sent packets. -/
def onSentPkt (sentHandshake : Bool) (ch : Channel) : Channel :=
  let ch := { ch with haveSentAnyPkt := true }
  if ch.isServer = false ∧ sentHandshake = true then chDiscardEl .initial ch else ch

/-- The loop of `ch_tx`. -/
def txLoop : List Generated → Channel → Channel
  | [], ch => ch
  | status :: generated, ch =>
    let ch := { ch with pendingCount := ch.pendingCount + status.datagrams }
    let ch := if status.sentPkt > 0 then onSentPkt status.sentHandshake ch else ch
    if status.res = false then raiseProtocolError ch
    else if status.sentPkt > 0 then txLoop generated ch
    else ch

/-- `ch_tx` after the packets have been generated. The flag tells whether it stores through its
pointer. -/
def flushAndNotify (tx : Tx) (ch : Channel) : Channel × Bool :=
  let (pending, res) := qtxFlushNet tx ch.pendingCount
  let ch := { ch with pendingCount := pending }
  let ch := if res = .permanentFail ∧ tx.portRunning = true then raiseNetError ch else ch
  (ch, decide (ch.pendingCount > 0))

/-- `ch_tx`. -/
def chTx (tx : Tx) (ch : Channel) : Channel × Bool :=
  if ch.state = .draining then (ch, false)
  else if ch.state = .closing then
    if ch.connCloseQueued = false then (ch, false)
    else flushAndNotify tx (txLoop tx.generated { ch with connCloseQueued := false })
  else flushAndNotify tx (txLoop tx.generated ch)

/-! ### What the functions keep -/

/-- **No flag is taken back**: what the functions of a channel may have done between two states. -/
structure Later (ch ch' : Channel) : Prop where
  doingRetry : ch.doingRetry = true → ch'.doingRetry = true
  haveReceivedEncPkt : ch.haveReceivedEncPkt = true → ch'.haveReceivedEncPkt = true
  ended : ch.Over → ch'.Over
  wf : ch.Wf → ch'.Wf

theorem Later.refl (ch : Channel) : Later ch ch := ⟨id, id, id, id⟩

theorem Later.trans {a b c : Channel} (h1 : Later a b) (h2 : Later b c) : Later a c :=
  ⟨h2.doingRetry ∘ h1.doingRetry, h2.haveReceivedEncPkt ∘ h1.haveReceivedEncPkt,
    h2.ended ∘ h1.ended, h2.wf ∘ h1.wf⟩

theorem Later.ite {p : Prop} [Decidable p] {ch a b : Channel} (h1 : Later ch a) (h2 : Later ch b) :
    Later ch (if p then a else b) := by
  split_ifs
  · exact h1
  · exact h2

section Keep

variable (ch : Channel)

theorem over_chStartTerminating (remote forceImmediate : Bool) :
    (chStartTerminating remote forceImmediate ch).Over := by
  unfold chStartTerminating notifyFlushDone Channel.Over
  cases hs : ch.state <;> cases forceImmediate || !ch.haveSentAnyPkt <;> cases remote <;> simp [hs]

/-- The fields that giving up a channel leaves as they are. -/
theorem chStartTerminating_fields (remote forceImmediate : Bool) :
    (chStartTerminating remote forceImmediate ch).doingRetry = ch.doingRetry ∧
      (chStartTerminating remote forceImmediate ch).haveReceivedEncPkt = ch.haveReceivedEncPkt ∧
      (chStartTerminating remote forceImmediate ch).pendingCount = ch.pendingCount := by
  unfold chStartTerminating notifyFlushDone
  cases ch.state <;> cases forceImmediate || !ch.haveSentAnyPkt <;> cases remote <;>
    exact ⟨rfl, rfl, rfl⟩

theorem later_chStartTerminating (remote forceImmediate : Bool) :
    Later ch (chStartTerminating remote forceImmediate ch) where
  doingRetry h := (chStartTerminating_fields ch remote forceImmediate).1.trans h
  haveReceivedEncPkt h := (chStartTerminating_fields ch remote forceImmediate).2.1.trans h
  ended _ := over_chStartTerminating ch remote forceImmediate
  wf _ _ := over_chStartTerminating ch remote forceImmediate

theorem over_raiseProtocolError (h : ch.Wf) : (raiseProtocolError ch).Over := by
  unfold raiseProtocolError
  split_ifs with he
  · exact h he
  · exact over_chStartTerminating _ false false

theorem later_raiseProtocolError : Later ch (raiseProtocolError ch) := by
  unfold raiseProtocolError
  split_ifs
  · exact .refl ch
  · have h := later_chStartTerminating { ch with protocolError := true } false false
    exact ⟨h.doingRetry, h.haveReceivedEncPkt, h.ended,
      fun _ _ => over_chStartTerminating _ false false⟩

theorem later_raiseNetError : Later ch (raiseNetError ch) := by
  unfold raiseNetError
  split_ifs
  · exact .refl ch
  · have h := later_chStartTerminating { ch with netError := true } false true
    exact ⟨h.doingRetry, h.haveReceivedEncPkt, h.ended, h.wf⟩

theorem later_chDiscardEl (encLevel : EncLevel) : Later ch (chDiscardEl encLevel ch) := by
  exact .ite (.refl ch) ⟨id, id, id, id⟩

theorem later_onSentPkt (sentHandshake : Bool) : Later ch (onSentPkt sentHandshake ch) := by
  have hs : Later ch { ch with haveSentAnyPkt := true } := ⟨id, id, id, id⟩
  exact .ite (hs.trans (later_chDiscardEl _ .initial)) hs

end Keep

theorem later_txLoop : ∀ (generated : List Generated) (ch : Channel), Later ch (txLoop generated ch)
  | [], ch => .refl ch
  | status :: generated, ch => by
    have hq : Later ch { ch with pendingCount := ch.pendingCount + status.datagrams } :=
      ⟨id, id, id, id⟩
    rw [txLoop]
    split_ifs
    · exact (hq.trans (later_onSentPkt _ _)).trans (later_raiseProtocolError _)
    · exact hq.trans (later_raiseProtocolError _)
    · exact (hq.trans (later_onSentPkt _ _)).trans (later_txLoop generated _)
    · exact hq

theorem later_flushAndNotify (tx : Tx) (ch : Channel) : Later ch (flushAndNotify tx ch).1 := by
  have hq : ∀ pending, Later ch { ch with pendingCount := pending } := fun _ => ⟨id, id, id, id⟩
  exact .ite ((hq _).trans (later_raiseNetError _)) (hq _)

theorem later_chTx (tx : Tx) (ch : Channel) : Later ch (chTx tx ch).1 := by
  unfold chTx
  split_ifs
  · exact .refl ch
  · exact .refl ch
  · have hq : Later ch { ch with connCloseQueued := false } := ⟨id, id, id, id⟩
    exact (hq.trans (later_txLoop _ _)).trans (later_flushAndNotify tx _)
  · exact (later_txLoop _ _).trans (later_flushAndNotify tx _)

/-! ### What remains in the queue -/

/-- The messages that the network takes before it first takes none. -/
def accepted : List Send → ℕ
  | .taken wr :: sends => if wr = 0 then 0 else min wr maxMsgsPerSend + accepted sends
  | _ => 0

/-- The datagrams that the calls of the packetiser put into the queue. -/
def datagrams : List Generated → ℕ
  | [] => 0
  | status :: generated =>
    status.datagrams + if status.res = true ∧ status.sentPkt > 0 then datagrams generated else 0

/-- The messages that a network BIO takes; without one, none. -/
def Tx.accepted (tx : Tx) : ℕ := if tx.bio then Transmit.accepted tx.sends else 0

theorem flushLoop_fst : ∀ (sends : List Send) (pending totalWritten : ℕ),
    (flushLoop sends pending totalWritten).1 = pending - accepted sends
  | [], _, _ => rfl
  | answer :: sends, pending, totalWritten => by
    unfold flushLoop
    dsimp only
    by_cases hi : min pending maxMsgsPerSend = 0
    · rw [if_pos hi]
      have hp : pending = 0 := by
        rw [maxMsgsPerSend] at hi
        omega
      simp [hp]
    · rw [if_neg hi]
      rcases answer with wr | _ | _
      · by_cases hw : wr = 0
        · simp [hw, accepted]
        · have hmin : min wr (min pending maxMsgsPerSend) ≠ 0 := by omega
          simp only [if_neg hmin, accepted, if_neg hw]
          rw [flushLoop_fst]
          omega
      · rfl
      · rfl

theorem qtxFlushNet_fst (tx : Tx) (pending : ℕ) :
    (qtxFlushNet tx pending).1 = pending - tx.accepted := by
  unfold qtxFlushNet Tx.accepted
  by_cases h0 : pending = 0
  · simp [h0]
  · cases tx.bio
    · simp [h0]
    · simp [h0, flushLoop_fst]

section Pending

variable (ch : Channel)

theorem pendingCount_raiseProtocolError :
    (raiseProtocolError ch).pendingCount = ch.pendingCount := by
  unfold raiseProtocolError
  split_ifs
  · rfl
  · exact (chStartTerminating_fields _ false false).2.2

theorem pendingCount_raiseNetError : (raiseNetError ch).pendingCount = ch.pendingCount := by
  unfold raiseNetError
  split_ifs
  · rfl
  · exact (chStartTerminating_fields _ false true).2.2

theorem pendingCount_onSentPkt (sentHandshake : Bool) :
    (onSentPkt sentHandshake ch).pendingCount = ch.pendingCount := by
  unfold onSentPkt chDiscardEl
  dsimp only
  split_ifs <;> rfl

end Pending

theorem pendingCount_txLoop : ∀ (generated : List Generated) (ch : Channel),
    (txLoop generated ch).pendingCount = ch.pendingCount + datagrams generated
  | [], _ => rfl
  | status :: generated, ch => by
    rw [txLoop, datagrams]
    cases hr : status.res <;> by_cases hs : status.sentPkt > 0
    · simp [hs, pendingCount_raiseProtocolError, pendingCount_onSentPkt]
    · simp [hs, pendingCount_raiseProtocolError]
    · simp [hs, pendingCount_txLoop, pendingCount_onSentPkt, Nat.add_assoc]
    · simp [hs]

theorem flushAndNotify_stores_iff (tx : Tx) (ch : Channel) :
    (flushAndNotify tx ch).2 = true ↔ tx.accepted < ch.pendingCount := by
  unfold flushAndNotify
  dsimp only
  rw [decide_eq_true_iff]
  split_ifs
  · rw [pendingCount_raiseNetError]
    dsimp only
    rw [qtxFlushNet_fst]
    omega
  · dsimp only
    rw [qtxFlushNet_fst]
    omega

/-- **An active channel stores through the pointer** exactly when the network does not take
everything. -/
theorem chTx_stores_iff (tx : Tx) {ch : Channel} (h : ch.state = .active) :
    (chTx tx ch).2 = true ↔ tx.accepted < ch.pendingCount + datagrams tx.generated := by
  unfold chTx
  rw [if_neg (by simp [h]), if_neg (by simp [h]), flushAndNotify_stores_iff, pendingCount_txLoop]

end PapQuic.Client.Transmit
