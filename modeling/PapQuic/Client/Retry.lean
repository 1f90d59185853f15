import PapQuic.Client.Transmit
import PapQuic.Lib.Latch
import PapQuic.Log.Lines

/-! # Retry packets at the client

`ch_rx_handle_packet` and `ch_retry` of `ssl/quic/quic_channel.c`. A client acts on at most one
Retry packet, and on none after an encrypted packet. When it accepts one, it transmits at once, and
calls `ch_tx` with a null pointer; `ch_tx` stores through it when the network does not take all
datagrams. A run is free of such stores exactly when the network takes everything at each of these
calls (`retry_iff`). -/

namespace PapQuic.Client.Retry

open Wire.Packet Wire.Header Server.Token Log.Lines Client.Transmit Lib.Run Lib.Latch

/-! ### Packets -/

/-- A packet from the record layer. -/
structure Packet where
  type : PktType
  srcConnId : ConnId
  version : ℕ
  reserved : ℕ
  tokenLen : ℕ
  data : Bytes
  peer : Option Addr
  /-- `ossl_quic_validate_retry_integrity_tag`, for a connection id that the client first sent
  to. -/
  tagValid : ConnId → Bool

/-- What else happens to a channel: frames and the handshake layer, timers, and the application. -/
inductive Effect
  | protocolError
  | remoteConnClose
  | localClose
  | timeout
  | discardEl (encLevel : EncLevel)
  | newConnId (cid : ConnId)

/-- What functions come to that a packet does not tell. -/
structure Env where
  /-- A packet was protected with old keys, after a key update. -/
  oldKeys : Bool
  /-- `OPENSSL_memdup`. -/
  memdup : Bool
  /-- `ossl_ackm_mark_packet_pseudo_lost`, for a packet number. -/
  pseudoLost : ℕ → Bool
  /-- `ossl_quic_provide_initial_secret`. -/
  initialSecret : Bool
  /-- What `ossl_quic_handle_frames` and `ch_tick_tls` do. -/
  effects : List Effect
  tx : Tx

/-- `ossl_quic_pkt_type_is_encrypted`. -/
def isEncrypted : PktType → Bool
  | .retry | .versionNeg => false
  | _ => true

/-- `ossl_quic_pkt_type_to_enc_level`. -/
def encLevel : PktType → Option EncLevel
  | .initial => some .initial
  | .handshake => some .handshake
  | .zeroRtt => some .zeroRtt
  | .oneRtt => some .oneRtt
  | _ => none

/-- `ossl_quic_pkt_type_has_scid`. -/
def hasScid (type : PktType) : Bool := type ≠ .oneRtt

/-- `ossl_quic_pkt_type_has_version`. -/
def hasVersion (type : PktType) : Bool := type ≠ .oneRtt ∧ type ≠ .versionNeg

/-- `bio_addr_eq`. -/
def bioAddrEq : Addr → Addr → Bool
  | .inet a p, .inet b q => a = b ∧ p = q
  | .inet6 a p, .inet6 b q => a = b ∧ p = q
  | _, _ => false

/-- `QUIC_VERSION_1`. -/
def quicVersion1 : ℕ := 1

/-- `QUIC_RETRY_INTEGRITY_TAG_LEN`. -/
def quicRetryIntegrityTagLen : ℕ := 16

/-- `TXP_REQUIRED_TOKEN_MARGIN`. -/
def txpRequiredTokenMargin : ℕ := 160

/-- `txp_check_token_len`. -/
def txpCheckTokenLen (tokenLen mdpl : ℕ) : Bool :=
  if tokenLen = 0 then true
  else if tokenLen ≥ mdpl then false
  else if txpRequiredTokenMargin ≥ mdpl then false
  else if tokenLen > mdpl - txpRequiredTokenMargin then false
  else true

/-! ### Handling packets -/

/-- What a run shows: an encrypted packet has been taken in, `ch_retry` has acted on a packet,
`ch_tx` has stored through a null pointer. -/
inductive Event
  | encrypted
  | acted
  | nullStore
  deriving DecidableEq, Repr

def Effect.apply (ch : Channel) : Effect → Channel
  | .protocolError => raiseProtocolError ch
  | .remoteConnClose => if ch.state = .active then chStartTerminating true false ch else ch
  | .localClose =>
    if ch.state = .idle ∨ ch.state = .active then chStartTerminating false false ch else ch
  | .timeout => { ch with state := .terminated }
  | .discardEl encLevel => chDiscardEl encLevel ch
  | .newConnId cid => { ch with curDcid := cid }

/-- `ch_retry` takes the token. -/
def takeToken (retryToken : Bytes) (retryScid : ConnId) (ch : Channel) : Channel :=
  { ch with initialToken := some retryToken, retryScid := retryScid, doingRetry := true }

/-- The packet number of the Initial packet that the server did not take: the second one, if there
was a version negotiation before. -/
def lostPn (dropLaterPn : Bool) : ℕ := if dropLaterPn then 1 else 0

/-- `ch_retry`, which tells whether it failed. -/
def chRetry (env : Env) (retryToken : Bytes) (retryScid : ConnId) (dropLaterPn : Bool)
    (ch : Channel) : Channel × Bool :=
  if ch.initDcid = retryScid then (ch, true)
  else
    let ch := { ch with curDcid := retryScid }
    if env.memdup = false then (ch, false)
    else if txpCheckTokenLen retryToken.length ch.mdpl = false then (raiseProtocolError ch, false)
    else
      let ch := takeToken retryToken retryScid ch
      if env.pseudoLost (lostPn dropLaterPn) = false then (ch, false)
      else (ch, env.initialSecret)

/-- The first of the versions that a Version Negotiation packet lists, up to version 1. -/
inductive Versions
  | unsupported | supported | malformed
  deriving DecidableEq, Repr

/-- The loop over the versions of a Version Negotiation packet. -/
def findVersion : Bytes → Versions
  | [] => .unsupported
  | a :: b :: c :: d :: vpkt =>
    if netOrder [a, b, c, d] = quicVersion1 then .supported else findVersion vpkt
  | _ => .malformed

/-- Version Negotiation packets. -/
def onVersionNeg (pkt : Packet) (env : Env) (ch : Channel) : Channel :=
  if pkt.version ≠ 0 ∨ ch.haveProcessedAnyPkt = true then ch
  else
    let ch := { ch with haveProcessedAnyPkt := true }
    match packetBufInit pkt.data with
    | none => ch
    | some vpkt =>
      match findVersion vpkt with
      | .malformed => ch
      -- `ch_restart`
      | .supported => if env.pseudoLost 0 = false then raiseProtocolError ch else ch
      | .unsupported => raiseProtocolError ch

/-- The token of a Retry packet. -/
def Packet.retryToken (pkt : Packet) : Bytes :=
  pkt.data.take (pkt.data.length - quicRetryIntegrityTagLen)

/-- Retry packets. -/
def onRetry (oldHaveProcessedAnyPkt : Bool) (pkt : Packet) (env : Env) (ch : Channel) :
    Channel × List Event :=
  if ch.doingRetry = true ∨ ch.isServer = true then (ch, [])
  else if ch.haveReceivedEncPkt = true then (ch, [])
  else if pkt.data.length ≤ quicRetryIntegrityTagLen then (ch, [])
  else if pkt.tagValid ch.initDcid = false then (ch, [])
  else
    let acted := if ch.initDcid = pkt.srcConnId then [] else [Event.acted]
    match chRetry env pkt.retryToken pkt.srcConnId oldHaveProcessedAnyPkt ch with
    | (ch, false) => (raiseProtocolError ch, acted)
    | (ch, true) => ((chTx env.tx ch).1, acted ++ if (chTx env.tx ch).2 then [.nullStore] else [])

/-- Initial, Handshake and 1-RTT packets. -/
def onFrames (pkt : Packet) (env : Env) (ch : Channel) : Channel :=
  let ch := if ch.isServer = true ∧ pkt.type = .handshake then chDiscardEl .initial ch else ch
  if env.oldKeys = true ∧ pkt.type = .oneRtt then raiseProtocolError ch
  else if ch.isServer = false ∧ pkt.type = .initial ∧ pkt.tokenLen > 0 then raiseProtocolError ch
  else env.effects.foldl Effect.apply ch

/-- The first encrypted packet gives the connection id of the peer. -/
def noteEncrypted (pkt : Packet) (ch : Channel) : Channel :=
  if ch.haveReceivedEncPkt then ch
  else { ch with initScid := pkt.srcConnId, curDcid := pkt.srcConnId, haveReceivedEncPkt := true }

/-- The packet is not from the address that the client talks to. -/
def otherPeer (pkt : Packet) (ch : Channel) : Bool :=
  match pkt.peer, ch.curPeerAddr with
  | none, _ | _, .unspec => false
  | some peer, addr => !ch.isServer && !bioAddrEq peer addr

/-- The packet is discarded. -/
def discards (pkt : Packet) (ch : Channel) : Bool :=
  (encLevel pkt.type).any ch.elDiscarded || otherPeer pkt ch ||
    (!ch.isServer && ch.haveReceivedEncPkt && hasScid pkt.type && pkt.srcConnId ≠ ch.initScid) ||
    (hasVersion pkt.type && pkt.version ≠ quicVersion1)

/-- `ch_rx_handle_packet` after an encrypted packet has been noted. -/
def handleNoted (pkt : Packet) (env : Env) (ch : Channel) : Channel × List Event :=
  if discards pkt ch then (ch, [])
  else if pkt.type = .versionNeg then (onVersionNeg pkt env ch, [])
  else
    let old := ch.haveProcessedAnyPkt
    let ch := { ch with haveProcessedAnyPkt := true }
    if isEncrypted pkt.type = true ∧ pkt.reserved ≠ 0 then (raiseProtocolError ch, [])
    else
      match pkt.type with
      | .retry => onRetry old pkt env ch
      | .initial | .handshake | .oneRtt => (onFrames pkt env ch, [])
      -- 0-RTT packets are not processed, neither by a client nor by a server.
      | .zeroRtt | .versionNeg | .other => (ch, [])

/-- `ch_rx_handle_packet`. -/
def chRxHandlePacket (pkt : Packet) (env : Env) (ch : Channel) : Channel × List Event :=
  if ch.state ≠ .active then (ch, [])
  else if isEncrypted pkt.type then
    let (ch, events) := handleNoted pkt env (noteEncrypted pkt ch)
    (ch, .encrypted :: events)
  else handleNoted pkt env ch

/-! ### Runs -/

def handled (ch : Channel) (p : Packet × Env) : Channel := (chRxHandlePacket p.1 p.2 ch).1

def shown (ch : Channel) (p : Packet × Env) : List Event := (chRxHandlePacket p.1 p.2 ch).2

/-- A client that has not sent anything does not look for packets. -/
def looksForPackets (ch : Channel) : Prop := ch.isServer = true ∨ ch.haveSentAnyPkt = true

instance (ch : Channel) : Decidable (looksForPackets ch) := inferInstanceAs (Decidable (_ ∨ _))

/-- `ch_rx`. -/
def chRx (pkts : List (Packet × Env)) (ch : Channel) : Channel × List Event :=
  if looksForPackets ch then
    let ch' := run handled ch pkts
    (if pkts ≠ [] ∧ ch.state = .closing then { ch' with connCloseQueued := true } else ch',
      outputs handled shown ch pkts)
  else (ch, [])

/-- `ossl_quic_channel_start`; its parts before the change of state may fail. -/
def channelStart (succeeds : Bool) (ch : Channel) : Channel :=
  if ch.isServer = false ∧ ch.state = .idle ∧ succeeds = true
    then { ch with state := .active } else ch

/-- The parts of a tick, and what else happens, in any order. -/
inductive Step
  | start (succeeds : Bool)
  | rx (pkts : List (Packet × Env))
  /-- `ch_tx` as a tick calls it, with a pointer to a variable. -/
  | tx (tx : Tx)
  | effect (effect : Effect)

def step (ch : Channel) : Step → Channel
  | .start succeeds => channelStart succeeds ch
  | .rx pkts => (chRx pkts ch).1
  | .tx tx => (chTx tx ch).1
  | .effect effect => effect.apply ch

def events (ch : Channel) : Step → List Event
  | .rx pkts => (chRx pkts ch).2
  | _ => []

/-! ### At most one Retry packet -/

/-- The client will not act on a Retry packet any more. -/
def Closed (ch : Channel) : Prop := ch.doingRetry = true ∨ ch.haveReceivedEncPkt = true ∨ ch.Over

theorem Closed.later {ch ch' : Channel} (hc : Closed ch) (h : Later ch ch') : Closed ch' := by
  rcases hc with hc | hc | hc
  · exact .inl (h.doingRetry hc)
  · exact .inr (.inl (h.haveReceivedEncPkt hc))
  · exact .inr (.inr (h.ended hc))

/-- A Retry packet that is acted on is the first one, and an encrypted packet ends the time for
them. -/
abbrev RetryLatch (ch : Channel) (events : List Event) (ch' : Channel) : Prop :=
  Latched Closed (· = .acted) (fun e => e = .acted ∨ e = .encrypted) ch events ch'

theorem latch_of_later {ch ch' : Channel} (h : Later ch ch') : RetryLatch ch [] ch' :=
  .nil fun hc => hc.later h

theorem later_effect (ch : Channel) : ∀ effect : Effect, Later ch (effect.apply ch)
  | .protocolError => later_raiseProtocolError ch
  | .remoteConnClose => .ite (later_chStartTerminating ch true false) (.refl ch)
  | .localClose => .ite (later_chStartTerminating ch false false) (.refl ch)
  | .timeout =>
    have hover : Channel.Over { ch with state := .terminated } := ⟨by simp, by simp⟩
    ⟨id, id, fun _ => hover, fun _ _ => hover⟩
  | .discardEl encLevel => later_chDiscardEl ch encLevel
  | .newConnId _ => ⟨id, id, id, id⟩

theorem later_effects : ∀ (effects : List Effect) (ch : Channel),
    Later ch (effects.foldl Effect.apply ch)
  | [], ch => .refl ch
  | effect :: effects, ch => (later_effect ch effect).trans (later_effects effects _)

theorem later_onVersionNeg (pkt : Packet) (env : Env) (ch : Channel) :
    Later ch (onVersionNeg pkt env ch) := by
  have hp : Later ch { ch with haveProcessedAnyPkt := true } := ⟨id, id, id, id⟩
  refine .ite (.refl ch) ?_
  rcases packetBufInit pkt.data with _ | vpkt
  · exact hp
  · rcases hv : findVersion vpkt with _ | _ | _
    · simpa only [hv] using hp.trans (later_raiseProtocolError _)
    · simp only [hv]
      exact .ite (hp.trans (later_raiseProtocolError _)) hp
    · simpa only [hv] using hp

theorem later_onFrames (pkt : Packet) (env : Env) (ch : Channel) :
    Later ch (onFrames pkt env ch) := by
  have hd : Later ch
      (if ch.isServer = true ∧ pkt.type = .handshake then chDiscardEl .initial ch else ch) :=
    .ite (later_chDiscardEl ch .initial) (.refl ch)
  exact .ite (hd.trans (later_raiseProtocolError _))
    (.ite (hd.trans (later_raiseProtocolError _)) (hd.trans (later_effects env.effects _)))

/-- Everything that `ch_retry` does succeeds. -/
def retries (env : Env) (retryToken : Bytes) (dropLaterPn : Bool) (mdpl : ℕ) : Bool :=
  env.memdup && txpCheckTokenLen retryToken.length mdpl && env.pseudoLost (lostPn dropLaterPn) &&
    env.initialSecret

/-- What `ch_retry` does, but for a packet with the connection id that the client first sent to. -/
theorem chRetry_of_ne {env : Env} {retryToken : Bytes} {retryScid : ConnId} {dropLaterPn : Bool}
    {ch : Channel} (hne : ch.initDcid ≠ retryScid) :
    if retries env retryToken dropLaterPn ch.mdpl then
      chRetry env retryToken retryScid dropLaterPn ch =
        (takeToken retryToken retryScid { ch with curDcid := retryScid }, true)
    else
      (chRetry env retryToken retryScid dropLaterPn ch).2 = false ∧
        Later ch (chRetry env retryToken retryScid dropLaterPn ch).1 := by
  have hs : Later ch { ch with curDcid := retryScid } := ⟨id, id, id, id⟩
  have ht : Later ch (takeToken retryToken retryScid { ch with curDcid := retryScid }) :=
    ⟨fun _ => rfl, id, id, id⟩
  unfold chRetry retries
  rw [if_neg hne]
  dsimp only
  cases env.memdup
  · exact ⟨rfl, hs⟩
  · cases txpCheckTokenLen retryToken.length ch.mdpl
    · exact ⟨rfl, hs.trans (later_raiseProtocolError _)⟩
    · cases env.pseudoLost (lostPn dropLaterPn)
      · exact ⟨rfl, ht⟩
      · cases env.initialSecret
        · exact ⟨rfl, ht⟩
        · rfl

theorem later_chRetry (env : Env) (retryToken : Bytes) (retryScid : ConnId) (dropLaterPn : Bool)
    (ch : Channel) : Later ch (chRetry env retryToken retryScid dropLaterPn ch).1 := by
  by_cases hscid : ch.initDcid = retryScid
  · rw [show chRetry env retryToken retryScid dropLaterPn ch = (ch, true) from if_pos hscid]
    exact .refl ch
  · have hr := @chRetry_of_ne env retryToken retryScid dropLaterPn ch hscid
    split_ifs at hr
    · rw [hr]
      exact ⟨fun _ => rfl, id, id, id⟩
    · exact hr.2

/-- The packet is a Retry packet for `ch_retry`. -/
structure Accepts (pkt : Packet) (ch : Channel) : Prop where
  first : ch.doingRetry = false
  client : ch.isServer = false
  noEncrypted : ch.haveReceivedEncPkt = false
  token : quicRetryIntegrityTagLen < pkt.data.length
  tag : pkt.tagValid ch.initDcid = true

theorem onRetry_of_not_accepts {old : Bool} {pkt : Packet} {env : Env} {ch : Channel}
    (h : ¬Accepts pkt ch) : onRetry old pkt env ch = (ch, []) := by
  unfold onRetry
  by_cases hdoing : ch.doingRetry = true ∨ ch.isServer = true
  · rw [if_pos hdoing]
  by_cases henc : ch.haveReceivedEncPkt = true
  · rw [if_neg hdoing, if_pos henc]
  by_cases hlen : pkt.data.length ≤ quicRetryIntegrityTagLen
  · rw [if_neg hdoing, if_neg henc, if_pos hlen]
  by_cases htag : pkt.tagValid ch.initDcid = false
  · rw [if_neg hdoing, if_neg henc, if_neg hlen, if_pos htag]
  · simp only [not_or, Bool.not_eq_true, not_le, Bool.not_eq_false] at hdoing henc hlen htag
    exact absurd ⟨hdoing.1, hdoing.2, henc, hlen, htag⟩ h

/-- What a Retry packet leads to when `ch_retry` is called. -/
theorem onRetry_of_accepts {old : Bool} {pkt : Packet} {env : Env} {ch : Channel}
    (h : Accepts pkt ch) : onRetry old pkt env ch =
      let acted := if ch.initDcid = pkt.srcConnId then [] else [Event.acted]
      match chRetry env pkt.retryToken pkt.srcConnId old ch with
      | (ch, false) => (raiseProtocolError ch, acted)
      | (ch, true) =>
        ((chTx env.tx ch).1, acted ++ if (chTx env.tx ch).2 then [.nullStore] else []) := by
  unfold onRetry
  rw [if_neg (by simp [h.first, h.client]), if_neg (by simp [h.noEncrypted]),
    if_neg (Nat.not_le.mpr h.token), if_neg (by simp [h.tag])]

/-- The event of a store through a null pointer. -/
theorem latch_stored (ch : Channel) (tx : Tx) :
    RetryLatch ch (if (chTx tx ch).2 then [.nullStore] else []) (chTx tx ch).1 := by
  have hl : Closed ch → Closed (chTx tx ch).1 := fun hc => hc.later (later_chTx tx ch)
  split_ifs
  · exact ⟨hl, by simp, by simp, by simp⟩
  · exact .nil hl

/-- **A Retry packet that is acted on closes the latch**: either the client is doing a retry now, or
the channel is given up. -/
theorem latch_onRetry (old : Bool) (pkt : Packet) (env : Env) {ch : Channel} (hwf : ch.Wf)
    (hstate : ch.state = .active) :
    RetryLatch ch (onRetry old pkt env ch).2 (onRetry old pkt env ch).1 := by
  by_cases ha : Accepts pkt ch
  · have hopen : ¬Closed ch := by
      simp [Closed, ha.first, ha.noEncrypted, Channel.Over, hstate]
    have hacted : ∀ {ch'}, Closed ch' → RetryLatch ch [.acted] ch' := fun hc =>
      ⟨fun h => absurd h hopen, fun h => absurd h hopen, fun _ _ _ => hc, by simp⟩
    rw [onRetry_of_accepts ha]
    by_cases hscid : ch.initDcid = pkt.srcConnId
    · have hr : chRetry env pkt.retryToken pkt.srcConnId old ch = (ch, true) := if_pos hscid
      rw [hr, if_pos hscid]
      exact latch_stored ch env.tx
    · have hr := @chRetry_of_ne env pkt.retryToken pkt.srcConnId old ch hscid
      rw [if_neg hscid]
      split_ifs at hr with hok
      · rw [hr]
        exact (hacted (.inl rfl)).append (latch_stored _ env.tx)
      · obtain ⟨hfail, hlater⟩ := hr
        rcases hc : chRetry env pkt.retryToken pkt.srcConnId old ch with ⟨ch', ok⟩
        rw [hc] at hfail hlater
        obtain rfl : ok = false := hfail
        exact hacted (.inr (.inr (over_raiseProtocolError ch' (hlater.wf hwf))))
  · rw [onRetry_of_not_accepts ha]
    exact .nil id

theorem wf_onRetry (old : Bool) (pkt : Packet) (env : Env) {ch : Channel} (hwf : ch.Wf) :
    (onRetry old pkt env ch).1.Wf := by
  by_cases ha : Accepts pkt ch
  · have hretry := (later_chRetry env pkt.retryToken pkt.srcConnId old ch).wf hwf
    rw [onRetry_of_accepts ha]
    rcases hc : chRetry env pkt.retryToken pkt.srcConnId old ch with ⟨ch', _ | _⟩
    · rw [hc] at hretry
      exact (later_raiseProtocolError ch').wf hretry
    · rw [hc] at hretry
      exact (later_chTx env.tx ch').wf hretry
  · rwa [onRetry_of_not_accepts ha]

/-- The packets of `ch_rx_handle_packet` that are not Retry packets for `ch_retry`. -/
theorem handleNoted_of_ne {pkt : Packet} {env : Env} {ch : Channel}
    (h : ¬(discards pkt ch = false ∧ pkt.type = .retry)) :
    (handleNoted pkt env ch).2 = [] ∧ Later ch (handleNoted pkt env ch).1 := by
  have hp : Later ch { ch with haveProcessedAnyPkt := true } := ⟨id, id, id, id⟩
  unfold handleNoted
  by_cases hd : discards pkt ch = true
  · rw [if_pos hd]
    exact ⟨rfl, .refl ch⟩
  rw [if_neg hd]
  by_cases hv : pkt.type = .versionNeg
  · rw [if_pos hv]
    exact ⟨rfl, later_onVersionNeg pkt env ch⟩
  rw [if_neg hv]
  by_cases hr : isEncrypted pkt.type = true ∧ pkt.reserved ≠ 0
  · rw [if_pos hr]
    exact ⟨rfl, hp.trans (later_raiseProtocolError _)⟩
  rw [if_neg hr]
  rcases ht : pkt.type with _ | _ | _ | _ | _ | _ | _
  case retry => exact absurd ⟨by simpa using hd, ht⟩ h
  case initial | handshake | oneRtt => exact ⟨rfl, hp.trans (later_onFrames pkt env _)⟩
  all_goals exact ⟨rfl, hp⟩

theorem handleNoted_of_retry {pkt : Packet} {env : Env} {ch : Channel}
    (hd : discards pkt ch = false) (ht : pkt.type = .retry) :
    handleNoted pkt env ch =
      onRetry ch.haveProcessedAnyPkt pkt env { ch with haveProcessedAnyPkt := true } := by
  unfold handleNoted
  rw [if_neg (by simp [hd]), if_neg (by simp [ht]), if_neg (by simp [ht, isEncrypted])]
  simp [ht]

theorem latch_handleNoted (pkt : Packet) (env : Env) {ch : Channel} (hwf : ch.Wf)
    (hstate : ch.state = .active) :
    RetryLatch ch (handleNoted pkt env ch).2 (handleNoted pkt env ch).1 ∧
      (handleNoted pkt env ch).1.Wf := by
  by_cases h : discards pkt ch = false ∧ pkt.type = .retry
  · have hp : Later ch { ch with haveProcessedAnyPkt := true } := ⟨id, id, id, id⟩
    rw [handleNoted_of_retry h.1 h.2]
    exact ⟨(latch_of_later hp).append (latch_onRetry _ pkt env (hp.wf hwf) hstate),
      wf_onRetry _ pkt env (hp.wf hwf)⟩
  · obtain ⟨hnil, hlater⟩ := @handleNoted_of_ne pkt env ch h
    rw [hnil]
    exact ⟨latch_of_later hlater, hlater.wf hwf⟩

theorem later_noteEncrypted (pkt : Packet) (ch : Channel) : Later ch (noteEncrypted pkt ch) :=
  .ite (.refl ch) ⟨id, fun _ => rfl, id, id⟩

theorem noteEncrypted_fields (pkt : Packet) (ch : Channel) :
    (noteEncrypted pkt ch).haveReceivedEncPkt = true ∧ (noteEncrypted pkt ch).state = ch.state := by
  unfold noteEncrypted
  split_ifs with h
  · exact ⟨h, rfl⟩
  · exact ⟨rfl, rfl⟩

/-- **One packet.** -/
theorem latch_handled {ch : Channel} (hwf : ch.Wf) (p : Packet × Env) :
    RetryLatch ch (shown ch p) (handled ch p) ∧ (handled ch p).Wf := by
  obtain ⟨pkt, env⟩ := p
  unfold shown handled chRxHandlePacket
  by_cases hs : ch.state ≠ .active
  · rw [if_pos hs]
    exact ⟨.nil id, hwf⟩
  rw [if_neg hs]
  rw [not_not] at hs
  by_cases he : isEncrypted pkt.type = true
  · rw [if_pos he]
    have hnote := later_noteEncrypted pkt ch
    obtain ⟨henc, hstate⟩ := noteEncrypted_fields pkt ch
    have hfirst : RetryLatch ch [.encrypted] (noteEncrypted pkt ch) :=
      ⟨fun hc => hc.later hnote, by simp, fun _ _ _ => .inr (.inl henc), by simp⟩
    obtain ⟨hrest, hwf'⟩ := latch_handleNoted pkt env (hnote.wf hwf) (hstate.trans hs)
    exact ⟨hfirst.append hrest, hwf'⟩
  · rw [if_neg he]
    exact latch_handleNoted pkt env hwf hs

theorem later_channelStart (succeeds : Bool) (ch : Channel) :
    Later ch (channelStart succeeds ch) := by
  unfold channelStart
  split_ifs with h
  · have hopen : ¬ch.Over := fun hover => hover.1 h.2.1
    exact ⟨id, id, fun hover => absurd hover hopen, fun hwf herr => absurd (hwf herr) hopen⟩
  · exact .refl ch

/-- The packets of a call of `ch_rx`. -/
theorem latch_chRx (pkts : List (Packet × Env)) {ch : Channel} (hwf : ch.Wf) :
    RetryLatch ch (chRx pkts ch).2 (chRx pkts ch).1 ∧ (chRx pkts ch).1.Wf := by
  unfold chRx
  by_cases hlook : looksForPackets ch
  · have hkeep : ∀ ch p, Channel.Wf ch → (handled ch p).Wf := fun _ p h => (latch_handled h p).2
    have hwf' : (run handled ch pkts).Wf := run_invariant Channel.Wf hkeep pkts hwf
    have hrun : RetryLatch ch (outputs handled shown ch pkts) (run handled ch pkts) :=
      latched_outputs hkeep (fun _ p h => (latch_handled h p).1) pkts hwf
    have hq : Later (run handled ch pkts) (if pkts ≠ [] ∧ ch.state = .closing then
        { run handled ch pkts with connCloseQueued := true } else run handled ch pkts) :=
      .ite ⟨id, id, id, id⟩ (.refl _)
    rw [if_pos hlook]
    exact ⟨by simpa using hrun.append (latch_of_later hq), hq.wf hwf'⟩
  · rw [if_neg hlook]
    exact ⟨.nil id, hwf⟩

/-- **One step.** -/
theorem latch_step {ch : Channel} (hwf : ch.Wf) : ∀ a : Step,
    RetryLatch ch (events ch a) (step ch a) ∧ (step ch a).Wf
  | .start succeeds =>
    ⟨latch_of_later (later_channelStart succeeds ch), (later_channelStart succeeds ch).wf hwf⟩
  | .rx pkts => latch_chRx pkts hwf
  | .tx tx => ⟨latch_of_later (later_chTx tx ch), (later_chTx tx ch).wf hwf⟩
  | .effect effect => ⟨latch_of_later (later_effect ch effect), (later_effect ch effect).wf hwf⟩

/-! ### Stores through the null pointer -/

/-- The client takes a Retry packet and transmits at once. -/
structure TransmitsAtOnce (p : Packet × Env) (ch : Channel) : Prop where
  active : ch.state = .active
  retry : p.1.type = .retry
  kept : discards p.1 ch = false
  accepts : Accepts p.1 ch
  retried : ch.initDcid = p.1.srcConnId ∨
    retries p.2 p.1.retryToken ch.haveProcessedAnyPkt ch.mdpl = true

/-- **The network takes everything** when the client transmits at once: what was in the queue, and
what is generated. -/
def Taken (ch : Channel) (p : Packet × Env) : Prop :=
  TransmitsAtOnce p ch → ch.pendingCount + datagrams p.2.tx.generated ≤ p.2.tx.accepted

/-- In a step. -/
def StepTaken (ch : Channel) : Step → Prop
  | .rx pkts => looksForPackets ch → AllMeet handled Taken ch pkts
  | _ => True

theorem nullStore_mem_onRetry {pkt : Packet} {env : Env} {ch : Channel} {old : Bool}
    (hs : ch.state = .active) :
    .nullStore ∈ (onRetry old pkt env ch).2 ↔
      (Accepts pkt ch ∧ (ch.initDcid = pkt.srcConnId ∨
        retries env pkt.retryToken old ch.mdpl = true)) ∧
        env.tx.accepted < ch.pendingCount + datagrams env.tx.generated := by
  have hite : ∀ {q : Prop} [Decidable q],
      Event.nullStore ∈ (if q then [Event.nullStore] else []) ↔ q := by
    intro q _
    by_cases hq : q <;> simp [hq]
  by_cases ha : Accepts pkt ch
  · rw [onRetry_of_accepts ha, and_iff_right ha]
    by_cases hscid : ch.initDcid = pkt.srcConnId
    · rw [show chRetry env pkt.retryToken pkt.srcConnId old ch = (ch, true) from if_pos hscid,
        if_pos hscid]
      simp only [List.nil_append, hite, chTx_stores_iff env.tx hs, true_or, true_and, hscid]
    · have hr := @chRetry_of_ne env pkt.retryToken pkt.srcConnId old ch hscid
      rw [if_neg hscid]
      split_ifs at hr with hok
      · have hactive : (takeToken pkt.retryToken pkt.srcConnId
            { ch with curDcid := pkt.srcConnId }).state = .active := hs
        rw [hr]
        simp only [List.mem_append, hite, chTx_stores_iff env.tx hactive]
        simp [hok, takeToken]
      · rcases hc : chRetry env pkt.retryToken pkt.srcConnId old ch with ⟨ch', ok⟩
        obtain rfl : ok = false := by rw [hc] at hr; exact hr.1
        simp [hscid, hok]
  · rw [onRetry_of_not_accepts ha]
    simp [ha]

/-- **One packet.** -/
theorem nullStore_mem_shown {ch : Channel} {p : Packet × Env} :
    .nullStore ∉ shown ch p ↔ Taken ch p := by
  obtain ⟨pkt, env⟩ := p
  unfold shown chRxHandlePacket
  by_cases hs : ch.state = .active
  · by_cases ht : pkt.type = .retry
    · rw [if_neg (not_not.mpr hs), if_neg (by simp [ht, isEncrypted])]
      by_cases hd : discards pkt ch = false
      · let noted : Channel := { ch with haveProcessedAnyPkt := true }
        have haccepts : Accepts pkt noted ↔ Accepts pkt ch :=
          ⟨fun ⟨h1, h2, h3, h4, h5⟩ => ⟨h1, h2, h3, h4, h5⟩,
            fun ⟨h1, h2, h3, h4, h5⟩ => ⟨h1, h2, h3, h4, h5⟩⟩
        have hmem := @nullStore_mem_onRetry pkt env noted ch.haveProcessedAnyPkt hs
        rw [handleNoted_of_retry hd ht, hmem, haccepts, not_and, not_lt]
        exact ⟨fun h ⟨_, _, _, ha, hr⟩ => h ⟨ha, hr⟩, fun h ⟨ha, hr⟩ => h ⟨hs, ht, hd, ha, hr⟩⟩
      · rw [(handleNoted_of_ne fun h => hd h.1).1]
        exact iff_of_true (by simp) fun h => absurd h.kept hd
    · have hn : ∀ ch', (handleNoted pkt env ch').2 = [] := fun ch' =>
        (handleNoted_of_ne fun h => ht h.2).1
      refine iff_of_true ?_ fun h => absurd h.retry ht
      rw [if_neg (not_not.mpr hs)]
      split_ifs
      · simp [hn]
      · simp [hn]
  · rw [if_pos hs]
    exact iff_of_true (by simp) fun h => absurd h.active hs

/-- **One step.** -/
theorem nullStore_mem_events {ch : Channel} {a : Step} :
    .nullStore ∉ events ch a ↔ StepTaken ch a := by
  rcases a with succeeds | pkts | tx | effect
  case rx =>
    change .nullStore ∉ (chRx pkts ch).2 ↔ (looksForPackets ch → AllMeet handled Taken ch pkts)
    unfold chRx
    by_cases hlook : looksForPackets ch
    · rw [if_pos hlook, not_mem_outputs_iff, forall_prop_of_true hlook]
      exact allMeet_congr (fun _ _ => nullStore_mem_shown) pkts
    · rw [if_neg hlook]
      exact iff_of_true List.not_mem_nil fun h => absurd h hlook
  all_goals exact iff_of_true List.not_mem_nil trivial

/-! ### Whole runs -/

/-- **Retry packets at the client.** No Retry packet is acted on after another one that was, or
after an encrypted packet; and a run stores nothing through the null pointer exactly when the
network takes all datagrams whenever the client transmits at once. -/
theorem retry_iff (ch : Channel) (hwf : ch.Wf) (steps : List Step) :
    ((outputs step events ch steps).Pairwise fun a b =>
        (a = .acted ∨ a = .encrypted) → b ≠ .acted) ∧
      (.nullStore ∉ outputs step events ch steps ↔ AllMeet step StepTaken ch steps) := by
  have hkeep : ∀ ch a, Channel.Wf ch → (step ch a).Wf := fun _ a h => (latch_step h a).2
  have hrun : RetryLatch ch (outputs step events ch steps) (run step ch steps) :=
    latched_outputs hkeep (fun _ a h => (latch_step h a).1) steps hwf
  refine ⟨hrun.ordered, ?_⟩
  rw [not_mem_outputs_iff]
  exact allMeet_congr (fun _ _ => nullStore_mem_events) steps

/-- A client that has sent its first Initial packet. -/
def waiting : Channel where
  isServer := false
  state := .active
  protocolError := false
  netError := false
  haveSentAnyPkt := true
  connCloseQueued := false
  doingRetry := false
  haveReceivedEncPkt := false
  haveProcessedAnyPkt := false
  initDcid := ⟨[1, 2, 3, 4, 5, 6, 7, 8], by decide⟩
  initScid := ConnId.empty
  retryScid := ConnId.empty
  curPeerAddr := .inet 0x7f000001 4433
  elDiscarded := fun _ => false
  curDcid := ⟨[1, 2, 3, 4, 5, 6, 7, 8], by decide⟩
  initialToken := none
  mdpl := 1200
  pendingCount := 0

/-- A valid Retry packet with a token of four bytes. -/
def validRetry : Packet where
  type := .retry
  srcConnId := ⟨[9, 9, 9, 9], by decide⟩
  version := 1
  reserved := 0
  tokenLen := 0
  data := List.replicate 20 0
  peer := some (.inet 0x7f000001 4433)
  tagValid := fun _ => true

/-- One Initial packet is generated, and the network answers like this. -/
def resend (answer : Send) : Env where
  oldKeys := false
  memdup := true
  pseudoLost := fun _ => true
  initialSecret := true
  effects := []
  tx := ⟨[⟨true, 1, false, 1⟩], true, [answer], true⟩

/-- A second Retry packet is not acted on; nothing is stored, as the network takes the one
datagram. -/
theorem retry_iff_taken :
    outputs step events waiting
        [.rx [(validRetry, resend (.taken 1)), (validRetry, resend .transient)]] =
        [.acted] ∧
      AllMeet step StepTaken waiting
        [.rx [(validRetry, resend (.taken 1)), (validRetry, resend .transient)]] := by
  have hout : outputs step events waiting
      [.rx [(validRetry, resend (.taken 1)), (validRetry, resend .transient)]] = [.acted] := by
    decide +kernel
  have hwf : waiting.Wf := fun h => by cases h
  exact ⟨hout, (retry_iff waiting hwf _).2.mp (by rw [hout]; decide)⟩

/-- A transient failure leaves the datagram in the queue, and `ch_tx` stores through the null
pointer. -/
theorem retry_transient :
    .nullStore ∈ outputs step events waiting [.rx [(validRetry, resend .transient)]] := by
  decide +kernel

end PapQuic.Client.Retry
