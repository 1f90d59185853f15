import PapQuic.Lib.Run
import PapQuic.Server.Token
import PapQuic.Txp.Generate

/-! # Address validation by Retry

`port_default_packet_handler` of `ssl/quic/quic_port.c`, on a server port without a test server's
channel: what happens to a datagram for no known connection. A port that validates addresses answers
an Initial packet without a valid token with a Retry packet, and makes a channel only from one with
a valid token. That the address was validated is then taken from the length of the original
connection id. A client may choose an empty id for its first Initial packet; its token is accepted,
but the channel is not marked as validated. In every run without such ids a channel starts validated
(`channel_validated`). -/

namespace PapQuic.Server.Retry

open Wire.Packet Lib.Run Log.Clock Txp.Credit Server.Token
open PapQuic.Wire.Header (quicMaxConnIdLen)
open PapQuic.Txp.Generate (quicMinInitialDgramLen)

/-! ### The port -/

/-- The configuration of a port. Every caller that asks for address validation makes a port for
several connections. -/
structure Port where
  allowIncoming : Bool
  isMultiConn : Bool
  validateAddr : Bool
  unlimitedAmplification : Bool
  cipher : Cipher
  multi : validateAddr = true → isMultiConn = true

/-- The length of the port's own connection ids (`INIT_DCID_LEN`). -/
def Port.lcidLen (port : Port) : ℕ := if port.isMultiConn then 8 else 0

/-- `ossl_quic_lcidm_get_unused_cid`: random bytes, or `none` when no unused id was found. -/
def lcidmGetUnusedCid (port : Port) (random : Option (Vector UInt8 8)) : Option ConnId :=
  random.map fun r => ⟨r.toList.take port.lcidLen, by
    rw [List.length_take, Vector.length_toList, quicMaxConnIdLen]
    omega⟩

/-- What `ossl_quic_wire_decode_pkt_hdr` makes of the first packet of a datagram. -/
inductive Decoded
  | failed
  /-- It fails because of the version. -/
  | badVersion
  | hdr (hdr : PktHdr)

/-- A datagram, with what the functions that the handler calls come to. -/
structure Datagram where
  /-- `ossl_quic_port_is_running`. -/
  running : Bool
  /-- `port_try_handle_stateless_reset`. -/
  statelessReset : Bool
  /-- The destination connection id is that of a channel. -/
  known : Bool
  dataLen : ℕ
  decoded : Decoded
  /-- `ossl_qrx_new` and `ossl_quic_provide_initial_secret`. -/
  qrx : Bool
  /-- `ossl_qrx_validate_initial_packet`. -/
  valid : Bool
  now : OsslTime
  /-- The address it comes from. -/
  peer : Option Bytes
  /-- Random bytes for a valid token, for a Retry packet and for a NEW_TOKEN frame. -/
  tokenRandom : Option (Vector UInt8 8)
  retryRandom : Option (Vector UInt8 8)
  newTokenRandom : Option (Vector UInt8 8)
  /-- `port_make_channel`. -/
  makeChannel : Bool
  /-- `ossl_quic_provide_initial_secret` for a channel that makes its own record layer. -/
  channelSecret : Bool
  /-- `ossl_quic_bind_channel` or `ossl_quic_channel_on_new_conn`. -/
  bind : Bool

/-- A channel, as it is added to `incoming_channel_list`. -/
structure Channel where
  unvalidatedCredit : ℕ
  initDcid : ConnId
  curRemoteDcid : ConnId
  odcid : ConnId
  deriving DecidableEq

/-- What the handler does. -/
inductive Action
  | inject
  | sendVersionNegotiation
  /-- `port_send_retry`, with the plaintext of the token when one is encrypted. -/
  | sendRetry (token : Option Bytes)
  /-- The channel is added to the list. -/
  | addChannel (ch : Channel)
  /-- `generate_new_token`, with the plaintext of the token when one is encrypted. -/
  | generateNewToken (token : Option Bytes)
  deriving DecidableEq

/-! ### The handler -/

/-- `port_send_retry`. -/
def portSendRetry (port : Port) (e : Datagram) (clientHdr : PktHdr) : Action :=
  .sendRetry ((lcidmGetUnusedCid port e.retryRandom).bind fun srcConnId =>
    newToken e.now e.peer clientHdr.dstConnId srcConnId true)

/-- `generate_new_token`. -/
def generateNewToken (e : Datagram) (ch : Channel) : Action :=
  .generateNewToken (e.newTokenRandom.bind fun r =>
    newToken e.now e.peer ch.initDcid
      ⟨r.toList, by rw [Vector.length_toList, quicMaxConnIdLen]; omega⟩ false)

/-- `port_bind_channel`; `qrx` says whether a record layer is handed over. The credit of a new
channel is 0. -/
def portBindChannel (port : Port) (e : Datagram) (scid dcid odcid : ConnId) (qrx : Bool) :
    Option Channel :=
  if e.makeChannel = false then none
  else
    let credit := if port.unlimitedAmplification then setValidated 0 else 0
    if qrx = false ∧ e.channelSecret = false then none
    else if odcid.idLen ≠ 0 then
      if e.bind then some ⟨setValidated credit, dcid, scid, odcid⟩ else none
    else if e.bind then some ⟨credit, dcid, scid, ConnId.empty⟩ else none

/-- The end of the handler: a channel, and a token for a later NEW_TOKEN frame. -/
def bindAndToken (port : Port) (e : Datagram) (hdr : PktHdr) (scid odcid : ConnId) (qrx : Bool)
    (genNewToken : Bool) : List Action :=
  match portBindChannel port e scid hdr.dstConnId odcid qrx with
  | none => []
  | some ch => .addChannel ch :: if genNewToken then [generateNewToken e ch] else []

/-- `port_validate_token` for a datagram. -/
def tokenOf (port : Port) (e : Datagram) (hdr : PktHdr) : Option Validated :=
  hdr.token.bind (portValidateToken port.cipher e.now e.peer
    (lcidmGetUnusedCid port e.tokenRandom) hdr)

/-- The handler, once the Initial packet has been validated. The source connection id that
`port_bind_channel` gets without a valid token is not initialised; it is taken to be `garbage`. -/
def onInitial (port : Port) (garbage : ConnId) (e : Datagram) (hdr : PktHdr) : List Action :=
  if port.validateAddr && hdr.token.isNone then [portSendRetry port e hdr]
  else
    match hdr.token, tokenOf port e hdr with
    | some _, none =>
      if port.validateAddr then [portSendRetry port e hdr]
      else bindAndToken port e hdr garbage ConnId.empty false false
    | _, some v => bindAndToken port e hdr v.scid v.odcid port.validateAddr v.genNewToken
    | none, none => bindAndToken port e hdr garbage ConnId.empty port.validateAddr false

/-- `port_default_packet_handler`. -/
def portDefaultPacketHandler (port : Port) (garbage : ConnId) (e : Datagram) : List Action :=
  if e.running = false ∨ e.statelessReset then []
  else if e.known then [.inject]
  else if port.allowIncoming = false then []
  else if e.dataLen < quicMinInitialDgramLen ∨ e.dataLen > sizeMax / 2 then []
  else
    match e.decoded with
    | .failed => []
    | .badVersion => [.sendVersionNegotiation]
    | .hdr hdr =>
      if hdr.version ≠ 1 then [.sendVersionNegotiation]
      else if hdr.isInitial = false ∨ e.qrx = false ∨ e.valid = false then []
      else onInitial port garbage e hdr

/-! ### Runs -/

/-- The plaintext that is encrypted as a token. -/
def Action.token : Action → Option Bytes
  | .sendRetry token | .generateNewToken token => token
  | _ => none

def Action.isRetry : Action → Bool
  | .sendRetry _ => true
  | _ => false

/-- The tokens that the port has encrypted. -/
def step (port : Port) (garbage : ConnId) (issued : List Bytes) (e : Datagram) : List Bytes :=
  issued ++ (portDefaultPacketHandler port garbage e).filterMap Action.token

/-- The plaintext of the token of a datagram. -/
def openedToken (port : Port) (e : Datagram) : Option Bytes :=
  match e.decoded with
  | .hdr hdr => hdr.token.bind (decryptValidationToken port.cipher)
  | _ => none

/-- Nobody can make a token but the port: what can be decrypted was encrypted by it. -/
def Unforged (port : Port) (issued : List Bytes) (e : Datagram) : Prop :=
  ∀ pt ∈ openedToken port e, pt ∈ issued

/-- The destination connection id of an Initial packet is not empty. -/
def Datagram.named (e : Datagram) : Bool :=
  match e.decoded with
  | .hdr hdr => !hdr.isInitial || hdr.dstConnId.idLen ≠ 0
  | _ => true

/-- An Initial packet for an unknown connection that passes the validation of the packet. -/
structure Unknown (port : Port) (e : Datagram) (hdr : PktHdr) : Prop where
  running : e.running = true
  notReset : e.statelessReset = false
  notKnown : e.known = false
  allowed : port.allowIncoming = true
  size : ¬ (e.dataLen < quicMinInitialDgramLen ∨ e.dataLen > sizeMax / 2)
  decoded : e.decoded = .hdr hdr
  version : hdr.version = 1
  initial : hdr.isInitial = true
  qrx : e.qrx = true
  valid : e.valid = true

/-- What Retry is for: a channel comes from an Initial packet with a valid token and starts without
a limit, and one without a valid token gets exactly one Retry packet and no channel. -/
def Retries (port : Port) (garbage : ConnId) (e : Datagram) : Prop :=
  (∀ ch, .addChannel ch ∈ portDefaultPacketHandler port garbage e →
    (∃ hdr, Unknown port e hdr ∧ (tokenOf port e hdr).isSome = true) ∧
      ch.unvalidatedCredit = sizeMax) ∧
  ∀ hdr, Unknown port e hdr → tokenOf port e hdr = none →
    ((portDefaultPacketHandler port garbage e).filter Action.isRetry).length = 1 ∧
      ∀ ch, .addChannel ch ∉ portDefaultPacketHandler port garbage e

section Handler

variable {port : Port} {garbage : ConnId} {e : Datagram} {hdr : PktHdr}

theorem handler_of_unknown (h : Unknown port e hdr) :
    portDefaultPacketHandler port garbage e = onInitial port garbage e hdr := by
  unfold portDefaultPacketHandler
  rw [if_neg (by simp [h.running, h.notReset]), if_neg (by simp [h.notKnown]),
    if_neg (by simp [h.allowed]), if_neg h.size, h.decoded]
  simp [h.version, h.initial, h.qrx, h.valid]

/-- Without a validated Initial packet there is neither a channel nor a token. -/
theorem unknown_or_idle (port : Port) (garbage : ConnId) (e : Datagram) :
    (∃ hdr, Unknown port e hdr) ∨ ∀ a ∈ portDefaultPacketHandler port garbage e,
      a = .inject ∨ a = .sendVersionNegotiation := by
  unfold portDefaultPacketHandler
  split_ifs with h1 h2 h3 h4
  · exact .inr (by simp)
  · exact .inr (by simp)
  · exact .inr (by simp)
  · exact .inr (by simp)
  · rcases hd : e.decoded with _ | _ | hdr
    · exact .inr (by simp)
    · exact .inr (by simp)
    · dsimp only
      split_ifs with h5 h6
      · exact .inr (by simp)
      · exact .inr (by simp)
      · simp only [not_or, Bool.not_eq_false, Bool.not_eq_true] at h1 h2 h3 h6
        exact .inl ⟨hdr, h1.1, h1.2, h2, h3, h4, hd, not_not.mp h5, h6.1, h6.2.1, h6.2.2⟩

/-- A port that validates addresses does one of two things with an Initial packet. -/
theorem onInitial_eq (hv : port.validateAddr = true) :
    onInitial port garbage e hdr = match tokenOf port e hdr with
      | none => [portSendRetry port e hdr]
      | some v => bindAndToken port e hdr v.scid v.odcid true v.genNewToken := by
  unfold onInitial
  rcases ht : hdr.token with _ | token
  · have hn : tokenOf port e hdr = none := by rw [tokenOf, ht]; rfl
    simp [hv, hn]
  · rcases hw : tokenOf port e hdr with _ | v <;> simp [hv]

theorem mem_bindAndToken {scid odcid : ConnId} {genNewToken : Bool} {a : Action}
    (h : a ∈ bindAndToken port e hdr scid odcid true genNewToken) :
    ∃ ch, portBindChannel port e scid hdr.dstConnId odcid true = some ch ∧
      (a = .addChannel ch ∨ a = generateNewToken e ch) := by
  unfold bindAndToken at h
  split at h
  · cases h
  · next ch hch =>
    refine ⟨ch, hch, ?_⟩
    rcases List.mem_cons.mp h with rfl | h
    · exact .inl rfl
    · split_ifs at h
      · exact .inr (List.mem_singleton.mp h)
      · cases h

theorem credit_portBindChannel {scid dcid odcid : ConnId} {ch : Channel}
    (h : portBindChannel port e scid dcid odcid true = some ch)
    (ho : odcid.idLen ≠ 0 ∨ port.unlimitedAmplification = true) :
    ch.unvalidatedCredit = sizeMax := by
  unfold portBindChannel at h
  dsimp only at h
  split_ifs at h
  all_goals cases h
  all_goals first | rfl | simp_all

theorem idLen_lcidmGetUnusedCid (hv : port.validateAddr = true) {random : Option (Vector UInt8 8)}
    {cid : ConnId} (h : lcidmGetUnusedCid port random = some cid) : cid.idLen ≠ 0 := by
  obtain ⟨r, -, rfl⟩ := Option.map_eq_some_iff.mp h
  simp [ConnId.idLen, Port.lcidLen, port.multi hv]

/-! ### Tokens along a run -/

/-- The tokens for Retry packets name a connection id, or it does not matter. -/
def Named (port : Port) (issued : List Bytes) : Prop :=
  ∀ pt ∈ issued, ∀ token, parseValidationToken pt = some token → token.isRetry = true →
    token.odcid.idLen ≠ 0 ∨ port.unlimitedAmplification = true

/-- What is encrypted is a token for a Retry packet that names the id of the packet, or one for a
NEW_TOKEN frame. -/
theorem token_onInitial (hv : port.validateAddr = true) {a : Action} {pt : Bytes}
    (ha : a ∈ onInitial port garbage e hdr) (ht : a.token = some pt) :
    ∃ token, parseValidationToken pt = some token ∧
      (token.isRetry = true → token.odcid = hdr.dstConnId) := by
  rw [onInitial_eq hv] at ha
  split at ha
  · rw [List.mem_singleton.mp ha] at ht
    obtain ⟨cid, -, hnew⟩ := Option.bind_eq_some_iff.mp ht
    obtain ⟨token, hp, -, ho⟩ := parse_newToken hnew
    exact ⟨token, hp, fun _ => ho rfl⟩
  · obtain ⟨ch, -, rfl | rfl⟩ := mem_bindAndToken ha
    · cases ht
    · obtain ⟨r, -, hnew⟩ := Option.bind_eq_some_iff.mp ht
      obtain ⟨token, hp, hr, -⟩ := parse_newToken hnew
      exact ⟨token, hp, fun h => absurd (hr.symm.trans h) (by decide)⟩

/-- A step leaves only tokens with a connection id. -/
theorem named_step (hv : port.validateAddr = true) {issued : List Bytes} (h : Named port issued)
    (he : e.named = true ∨ port.unlimitedAmplification = true) :
    Named port (step port garbage issued e) := by
  intro pt hpt token hp hr
  rcases List.mem_append.mp hpt with hpt | hpt
  · exact h pt hpt token hp hr
  · obtain ⟨a, ha, ht⟩ := List.mem_filterMap.mp hpt
    rcases unknown_or_idle port garbage e with ⟨hdr, hu⟩ | hidle
    · rw [handler_of_unknown hu] at ha
      obtain ⟨token', hp', ho⟩ := token_onInitial hv ha ht
      obtain rfl := Option.some.inj (hp.symm.trans hp')
      refine he.imp_left fun hn => ?_
      rw [ho hr]
      simpa [Datagram.named, hu.decoded, hu.initial] using hn
    · rcases hidle a ha with rfl | rfl <;> cases ht

/-- With such tokens a channel starts validated. -/
theorem retries_of_named (hv : port.validateAddr = true) {issued : List Bytes}
    (h : Named port issued) (hu : Unforged port issued e) : Retries port garbage e := by
  refine ⟨fun ch hch => ?_, fun hdr hk ht => ?_⟩
  · rcases unknown_or_idle port garbage e with ⟨hdr, hk⟩ | hidle
    · rw [handler_of_unknown hk, onInitial_eq hv] at hch
      split at hch
      · cases List.mem_singleton.mp hch
      · next v hv' =>
        refine ⟨⟨hdr, hk, by rw [hv']; rfl⟩, ?_⟩
        obtain ⟨tokenBytes, htb, hvalid⟩ := Option.bind_eq_some_iff.mp hv'
        obtain ⟨pt, token, hdec, hparse, hod⟩ := odcid_portValidateToken hvalid
        have hpt : pt ∈ issued := hu pt (by simp [openedToken, hk.decoded, htb, hdec])
        obtain ⟨ch', hbind, hc | hc⟩ := mem_bindAndToken hch
        · cases hc
          refine credit_portBindChannel hbind ?_
          rcases hod with ⟨hr, ho⟩ | hcid
          · rw [ho]
            exact h pt hpt token hparse hr
          · exact .inl (idLen_lcidmGetUnusedCid hv hcid)
        · cases hc
    · rcases hidle _ hch with hc | hc <;> cases hc
  · rw [handler_of_unknown hk, onInitial_eq hv, ht]
    exact ⟨rfl, fun ch hc => by cases List.mem_singleton.mp hc⟩

end Handler

/-- **Retry.** On a port that validates addresses, in every run in which nobody forges a token and
no Initial packet has an empty destination connection id, or with unlimited amplification: a channel
comes only from a packet with a valid token and starts validated, and an Initial packet without one
gets exactly one Retry packet and no channel. -/
theorem channel_validated {port : Port} (hv : port.validateAddr = true) (garbage : ConnId)
    {datagrams : List Datagram}
    (h : AllMeet (step port garbage) (fun issued e => Unforged port issued e ∧
      (e.named = true ∨ port.unlimitedAmplification = true)) [] datagrams) :
    AllMeet (step port garbage) (fun _ e => Retries port garbage e) [] datagrams :=
  AllMeet.strengthen (fun _ _ hn hc => named_step hv hn hc.2)
    (fun _ _ hn hc => retries_of_named hv hn hc.1) (fun _ hpt => by cases hpt) h

/-- A port that validates addresses, with a cipher that only adds a nonce and a tag. -/
def plainPort : Port where
  allowIncoming := true
  isMultiConn := true
  validateAddr := true
  unlimitedAmplification := false
  cipher := fun _ data _ => some data
  multi := fun _ => rfl

/-- An Initial packet from an address, at a time in seconds. -/
def initialFrom (now : ℕ) (dcid : ConnId) (token : Option Bytes) : Datagram where
  running := true
  statelessReset := false
  known := false
  dataLen := 1200
  decoded := .hdr ⟨1, true, token, dcid, ConnId.empty⟩
  qrx := true
  valid := true
  now := Fin.ofNat _ (now * 1000000000)
  peer := some [127, 0, 0, 1]
  tokenRandom := some (Vector.replicate 8 7)
  retryRandom := some (Vector.replicate 8 7)
  newTokenRandom := some (Vector.replicate 8 7)
  makeChannel := true
  channelSecret := true
  bind := true

/-- The id that the port chooses for the client. -/
def retryCid : ConnId := ⟨List.replicate 8 7, by decide⟩

/-- A client that follows the Retry packet: its Initial packet without a token, and a second later
the one with the token. -/
def retryRun (dcid : ConnId) : List Datagram :=
  [initialFrom 5 dcid none,
   initialFrom 6 retryCid ((newToken (Fin.ofNat _ 5000000000) (some [127, 0, 0, 1]) dcid retryCid
      true).map fun pt => List.replicate 12 0 ++ pt ++ List.replicate 16 0)]

instance (port : Port) (issued : List Bytes) (e : Datagram) : Decidable (Unforged port issued e) :=
  inferInstanceAs (Decidable (∀ pt ∈ openedToken port e, pt ∈ issued))

/-- With an id of eight bytes the channel starts without a limit. -/
theorem channel_validated_retryRun :
    AllMeet (step plainPort ConnId.empty) (fun _ e => Retries plainPort ConnId.empty e) []
      (retryRun ⟨List.replicate 8 1, by decide⟩) :=
  channel_validated rfl ConnId.empty
    ⟨⟨by decide +kernel, .inl (by decide)⟩, ⟨by decide +kernel, .inl (by decide)⟩, trivial⟩

/-- With an empty id the token is accepted, and the channel starts with a credit of 0. -/
theorem channel_not_validated :
    AllMeet (step plainPort ConnId.empty) (Unforged plainPort) [] (retryRun ConnId.empty) ∧
      ∃ e ∈ retryRun ConnId.empty,
        ∃ ch ∈ (portDefaultPacketHandler plainPort ConnId.empty e).filterMap
        (fun a => match a with | .addChannel ch => some ch | _ => none), ch.unvalidatedCredit = 0 :=
  ⟨⟨by decide +kernel, by decide +kernel, trivial⟩, by decide +kernel⟩

end PapQuic.Server.Retry
