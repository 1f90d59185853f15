import PapQuic.Log.Connection
import PapQuic.Log.Listing
import PapQuic.Txp.Datagram

/-! # The two lines of a packet

A client and a server, each with its log, and a network between them: `txp_pkt_commit` logs a packet
with the `num_bytes` of its ACKM record, `ossl_quic_handle_frames` logs it with the length of the
datagram that `qrx_process_datagram` of `ssl/quic/quic_record_rx.c` found it in. The network
corrupts nothing, but it may lose, delay, reorder and repeat datagrams.

* `run_sound`: in every run, what is in the network and what has been delivered is what was sent.
* `agree_iff`: the two lines of a packet show the same datagram size, packet number, packet type and
  frames with sizes if and only if the packet is alone in its datagram, with a length field of two
  bytes if it has a long header. All but the size agree always. -/

namespace PapQuic.Log.Agreement

open Lib.Run Wire.Packet Wire.Header Txp Txp.Credit Txp.Generate Txp.Datagram
open Log.Metadata Log.Clock Log.FrameList Log.Lines Log.Listing Log.Timing Log.Output Log.Connection

/-! ### Packet numbers -/

/-- `ossl_quic_wire_decode_pkt_hdr_pn`, given the bytes as a number. -/
def decodePktHdrPn (encPnLen truncatedPn largestPn : ℕ) : Option ℕ :=
  if encPnLen = 0 ∨ 4 < encPnLen then none
  else
    let expectedPn := largestPn + 1
    let pnWin := 2 ^ (encPnLen * 8)
    let pnHwin := pnWin / 2
    let candidatePn := expectedPn / pnWin * pnWin + truncatedPn
    if candidatePn + pnHwin ≤ expectedPn ∧ candidatePn < 2 ^ 62 - pnWin then
      some (candidatePn + pnWin)
    else if candidatePn > expectedPn + pnHwin ∧ candidatePn ≥ pnWin then
      some (candidatePn - pnWin)
    else some candidatePn

/-! ### The network -/

/-- A datagram on its way, with the packets that were logged in the call that sent it. -/
structure Flight where
  fromServer : Bool
  path : Path
  commits : List Commit
  tx : EncLevel → TxPacket
  dgram : Dgram

/-- A packet that the record layer passes on, as it was sent and as it was read. -/
structure Arrived where
  pkt : TxpPkt
  pn : ℕ
  datagramLen : ℕ
  payload : Bytes
  inp : LogInput

/-- How `qrx_process_pkt` ends. -/
inductive RxOutcome
  /-- There is no memory for the packet, and it is tried again. -/
  | noRxe
  /-- The header cannot be read, and the rest of the datagram is skipped. -/
  | unreadable
  /-- It is dropped, or kept until there are keys. -/
  | skipped
  /-- It is passed on, unless decryption fails. -/
  | opened (largestPn : ℕ) (inp : LogInput)

/-- `QUIC_MIN_VALID_PKT_LEN`. -/
def quicMinValidPktLen : ℕ := 7

/-- `QUIC_MAX_PKT_PER_URXE`. -/
def quicMaxPktPerUrxe : ℕ := 64

/-- `qrx_process_datagram`, from the packet `quicMaxPktPerUrxe - n` on. The packet number is part of
the nonce, so that a packet is decrypted only under its own; a packet with a short header takes all
that is left. -/
def qrxProcessDatagram (f : Flight) (outcome : ℕ → RxOutcome) : ℕ → ℕ → List TxpPkt → List Arrived
  | 0, _, _ => []
  | _, _, [] => []
  | n + 1, remaining, pkt :: pkts =>
    if remaining < quicMinValidPktLen then []
    else
      let tx := f.tx pkt.encLevel
      let rest :=
        if pkt.encLevel = .oneRtt then []
        else qrxProcessDatagram f outcome n (remaining - (pktLen f.path pkt).getD 0) pkts
      match outcome (quicMaxPktPerUrxe - (n + 1)) with
      | .noRxe => qrxProcessDatagram f outcome n remaining (pkt :: pkts)
      | .unreadable => []
      | .skipped => rest
      | .opened largestPn inp =>
        let pn := decodePktHdrPn txpDeterminePnLen (tx.pn % 2 ^ (txpDeterminePnLen * 8)) largestPn
        if pn = some tx.pn ∧ (pkt.encLevel = .oneRtt → pkts = []) then
          ⟨pkt, tx.pn, f.dgram.dataLen, tx.payload, inp⟩ :: rest
        else rest

/-! ### The endpoints -/

/-- The event of a packet of either side. -/
def packetEvent (isServer isSend : Bool) (encLevel : EncLevel) (pn datagramSize : ℕ)
    (payload : Bytes) (before after : ℕ) : PacketLogEvent :=
  { serverEvent isSend encLevel pn datagramSize payload before after with
    isServer := isServer
    haveCreditBefore := isServer
    haveCreditAfter := isServer
    clientCreditKnown := !isServer
    haveCreditDelta := isServer
    creditDelta := if isServer then Connection.creditDelta before after else 0 }

/-- What `txp_pkt_commit` logs. -/
def sentEvent (isServer : Bool) (tx : EncLevel → TxPacket) (c : Commit) : PacketLogEvent :=
  packetEvent isServer true c.pkt.encLevel (tx c.pkt.encLevel).pn c.pkt.numBytes
    (tx c.pkt.encLevel).payload c.creditBefore c.creditAfter

structure Endpoint extends Session where
  credit : ℕ

/-- An endpoint whose channel has been created. Clients have no amplification limit. -/
def Endpoint.new (isServer : Bool) : Endpoint :=
  ⟨.new, if isServer then 0 else Credit.setValidated 0⟩

/-- A packet that was delivered, and what it was logged with. -/
structure Delivery where
  flight : Flight
  arrived : Arrived
  event : PacketLogEvent

/-- The server is the endpoint `true`. -/
structure System where
  endpoint : Bool → Endpoint
  network : List Flight
  deliveries : List Delivery

def System.new : System := ⟨Endpoint.new, [], []⟩

/-! ### Steps -/

inductive Step
  | generate (isServer : Bool) (allocLen : ℕ) (input : GenerateInput) (tx : EncLevel → TxPacket)
  /-- The datagram `i` of all that were ever sent is received. -/
  | receive (i : ℕ) (outcome : ℕ → RxOutcome)
  | setValidated (isServer : Bool)
  | timing (isServer : Bool) (call : TimingCall) (now lineNow : OsslTime)

def logSent (lib : X509Lib) (isServer : Bool) (tx : EncLevel → TxPacket) (s : Session)
    (c : Commit) : Session :=
  s.step lib (.packet (tx c.pkt.encLevel).inp (sentEvent isServer tx c))

/-- What an endpoint does, unless its log is hung. -/
def System.act (s : System) (isServer : Bool) (f : Endpoint → Endpoint) : System :=
  if (s.endpoint isServer).hung then s
  else { s with endpoint := Function.update s.endpoint isServer (f (s.endpoint isServer)) }

/-- `ossl_quic_tx_packetiser_generate`: the packets that are in a datagram are logged. The credit of
the one that cannot be written is taken all the same. -/
def generate (lib : X509Lib) (s : System) (isServer : Bool) (allocLen : ℕ) (input : GenerateInput)
    (tx : EncLevel → TxPacket) : System :=
  let e := s.endpoint isServer
  let r := Generate.generate e.credit input
  let out := emit input.path allocLen .empty r.1
  let logged := r.1.take out.1.length
  let session := logged.foldl (logSent lib isServer tx) e.toSession
  let s := s.act isServer fun _ =>
    ⟨session, (r.1[out.1.length]?.map Commit.creditAfter).getD r.2⟩
  if session.hung then s
  else { s with network := s.network ++ out.2.map (Flight.mk isServer input.path logged tx) }

/-- `ossl_quic_handle_frames`. -/
def handleFrames (lib : X509Lib) (f : Flight) (s : System) (a : Arrived) : System :=
  let isServer := !f.fromServer
  let e := s.endpoint isServer
  let after :=
    if a.pkt.encLevel = .handshake then Credit.setValidated e.credit
    else addUnvalidatedCredit e.credit a.datagramLen
  let event := packetEvent isServer false a.pkt.encLevel a.pn a.datagramLen a.payload e.credit after
  let s := s.act isServer fun e => ⟨e.toSession.step lib (.packet a.inp event), after⟩
  if e.hung then s else { s with deliveries := s.deliveries ++ [⟨f, a, event⟩] }

def step (lib : X509Lib) (s : System) : Step → System
  | .generate isServer allocLen input tx => generate lib s isServer allocLen input tx
  | .receive i outcome =>
    match s.network[i]? with
    | none => s
    | some f =>
      (qrxProcessDatagram f outcome quicMaxPktPerUrxe f.dgram.dataLen f.dgram.pkts).foldl
        (handleFrames lib f) s
  | .setValidated isServer =>
    s.act isServer fun e => ⟨e.toSession, Credit.setValidated e.credit⟩
  | .timing isServer call now lineNow =>
    s.act isServer fun e => ⟨e.toSession.step lib (.timing isServer call now lineNow), e.credit⟩

/-! ### Lines -/

/-- A line is as the log formats the packet of its event, in some state. -/
def Formatted (lib : X509Lib) (l : PacketLine) : Prop :=
  ∃ hsAlloc log r, packetLogAppendFrames lib l.event.toEventKey hsAlloc l.event.payload.length
    ⟨0, log⟩ l.event.payload = some r ∧ l.specs = r.specs ∧ l.haveFrames = r.ok

/-- What a line shows of the frames, and whether there is `UNKNOWN` after them. -/
def frameNames (l : PacketLine) : List (String × ℕ) × Bool :=
  (l.specs.map fun spec => (spec.name, spec.size), l.haveFrames)

/-- **Names and sizes depend on the payload only**, not on who logs it and when. -/
theorem frameNames_eq {lib : X509Lib} {l l' : PacketLine} (h : Formatted lib l)
    (h' : Formatted lib l') (hp : l.event.payload = l'.event.payload) :
    frameNames l = frameNames l' := by
  obtain ⟨alloc, log, r, hr, hs, ho⟩ := h
  obtain ⟨alloc', log', r', hr', hs', ho'⟩ := h'
  rw [appendFrames_eq_logFrames, Option.map_eq_some_iff] at hr hr'
  obtain ⟨o, hframes, rfl⟩ := hr
  obtain ⟨o', hframes', rfl⟩ := hr'
  rw [hp, hframes', Option.some.injEq] at hframes
  subst hframes
  rw [frameNames, frameNames, hs, hs', ho, ho', logFrames_listed, logFrames_listed]

/-- The lines of two endpoints for a packet agree on all but the role, the direction, the time, the
credit and what the frames are annotated with. -/
structure SameShown (l l' : PacketLine) : Prop where
  datagramSize : l.event.datagramSize = l'.event.datagramSize
  packetNumber : l.event.packetNumber = l'.event.packetNumber
  packetType : l.event.packetType = l'.event.packetType
  frames : frameNames l = frameNames l'

/-- What holds of a line of the log, if it is that of a packet. -/
def IsFormatted (lib : X509Lib) : Line → Prop
  | .packet l => Formatted lib l
  | .internal _ => True

/-- All lines of a log are formatted, the held ones too. -/
abbrev AllFormatted (lib : X509Lib) : Session → Prop := Prints (fun _ => True) (IsFormatted lib)

theorem allFormatted_new (lib : X509Lib) : AllFormatted lib .new :=
  ⟨by simp [Session.new, Session.start], by simp [Session.new, Session.start, HandshakeTiming.init],
    trivial⟩

theorem allFormatted_packet {lib : X509Lib} {s : Session} (h : AllFormatted lib s) (inp : LogInput)
    (event : PacketLogEvent) : AllFormatted lib (s.step lib (.packet inp event)) := by
  rcases step_packet lib s inp event with ⟨-, he⟩ | he
    | ⟨-, r, out, timing, hr, hlogs, he⟩ <;> rw [he]
  · exact h
  · exact ⟨h.lines, h.held, trivial⟩
  · have hline : IsFormatted lib (.packet ⟨inp.now, event, r.specs, r.ok⟩) :=
      ⟨inp.hsAlloc, s.log, r, hr, rfl, rfl⟩
    obtain ⟨hl, hheld⟩ := hlogs.forall (fun _ => trivial) hline h.held
    exact ⟨List.forall_mem_append.mpr ⟨h.lines, hl⟩, hheld, trivial⟩

/-! ### What is delivered is what was sent -/

/-- A datagram holds packets of its call, and nothing else. -/
structure Flight.Good (f : Flight) : Prop where
  filled : Filled f.path f.dgram
  pkts : ∀ p ∈ f.dgram.pkts, Planned f.path p ∧ ∃ c ∈ f.commits, c.pkt = p

/-- A packet is read as it was sent, but with the length of the datagram. -/
structure Arrived.Of (f : Flight) (a : Arrived) : Prop where
  mem : a.pkt ∈ f.dgram.pkts
  pn : a.pn = (f.tx a.pkt.encLevel).pn
  payload : a.payload = (f.tx a.pkt.encLevel).payload
  datagramLen : a.datagramLen = f.dgram.dataLen

theorem arrived_of_mem {f : Flight} {outcome : ℕ → RxOutcome} : ∀ {n remaining : ℕ}
    {pkts : List TxpPkt}, (∀ p ∈ pkts, p ∈ f.dgram.pkts) →
      ∀ a ∈ qrxProcessDatagram f outcome n remaining pkts, a.Of f
  | 0, _, _, _, a, ha => by simp [qrxProcessDatagram] at ha
  | _ + 1, _, [], _, a, ha => by simp [qrxProcessDatagram] at ha
  | n + 1, remaining, pkt :: pkts, hsub, a, ha => by
    have hpkts : ∀ p ∈ pkts, p ∈ f.dgram.pkts := fun p hp => hsub p (List.mem_cons_of_mem _ hp)
    have hrest : ∀ a ∈ (if pkt.encLevel = .oneRtt then []
        else qrxProcessDatagram f outcome n (remaining - (pktLen f.path pkt).getD 0) pkts),
          a.Of f := by
      intro a ha
      split_ifs at ha
      · cases ha
      · exact arrived_of_mem hpkts a ha
    unfold qrxProcessDatagram at ha
    by_cases hmin : remaining < quicMinValidPktLen
    · rw [if_pos hmin] at ha
      cases ha
    rw [if_neg hmin] at ha
    dsimp only at ha
    generalize (if pkt.encLevel = .oneRtt then []
      else qrxProcessDatagram f outcome n (remaining - (pktLen f.path pkt).getD 0) pkts) = rest
      at ha hrest
    split at ha
    · exact arrived_of_mem hsub a ha
    · cases ha
    · exact hrest a ha
    · split_ifs at ha
      · rcases List.mem_cons.mp ha with rfl | ha
        · exact ⟨hsub pkt List.mem_cons_self, rfl, rfl, rfl⟩
        · exact hrest a ha
      · exact hrest a ha

/-- The event of a delivery. -/
structure Delivery.Good (d : Delivery) : Prop where
  flight : d.flight.Good
  arrived : d.arrived.Of d.flight
  event : ∃ before after, d.event = packetEvent (!d.flight.fromServer) false d.arrived.pkt.encLevel
    d.arrived.pn d.arrived.datagramLen d.arrived.payload before after

structure Sound (lib : X509Lib) (s : System) : Prop where
  network : ∀ f ∈ s.network, f.Good
  deliveries : ∀ d ∈ s.deliveries, d.Good
  logs : ∀ isServer, AllFormatted lib (s.endpoint isServer).toSession

section

variable {lib : X509Lib} {s : System}

theorem sound_new (lib : X509Lib) : Sound lib .new :=
  ⟨by simp [System.new], by simp [System.new], fun _ => allFormatted_new lib⟩

theorem Sound.act (h : Sound lib s) {isServer : Bool} {f : Endpoint → Endpoint}
    (hf : AllFormatted lib (f (s.endpoint isServer)).toSession) : Sound lib (s.act isServer f) := by
  unfold System.act
  split_ifs
  · exact h
  · refine ⟨h.network, h.deliveries, fun side => ?_⟩
    by_cases he : side = isServer
    · subst he
      simpa using hf
    · simpa [he] using h.logs side

theorem allFormatted_logSent {isServer : Bool} {tx : EncLevel → TxPacket} {session : Session}
    (h : AllFormatted lib session) (commits : List Commit) :
    AllFormatted lib (commits.foldl (logSent lib isServer tx) session) :=
  run_invariant (AllFormatted lib) (fun _ _ h => allFormatted_packet h _ _) commits h

/-- The datagrams of a call are good. -/
theorem good_emit {isServer : Bool} {allocLen credit : ℕ} {input : GenerateInput}
    {tx : EncLevel → TxPacket} {d : Dgram} {commits : List Commit}
    (hcommits : commits = (Generate.generate credit input).1)
    (hd : d ∈ (emit input.path allocLen .empty commits).2) :
    (Flight.mk isServer input.path
      (commits.take (emit input.path allocLen .empty commits).1.length) tx d).Good := by
  obtain ⟨hfill, hpkts⟩ := filled_emit (filled_empty input.path) d hd
  refine ⟨hfill, fun p hp => ?_⟩
  have hsent : p ∈ (emit input.path allocLen .empty commits).1 :=
    (hpkts p hp).resolve_left (by simp [Dgram.empty])
  rw [← emit_fst, List.mem_map] at hsent
  obtain ⟨c, hc, rfl⟩ := hsent
  subst hcommits
  exact ⟨planned_stagedPackets input _ (commitLoop_mem _ _ _ c (List.mem_of_mem_take hc)),
    c, hc, rfl⟩

theorem Sound.generate (h : Sound lib s) (isServer : Bool) (allocLen : ℕ) (input : GenerateInput)
    (tx : EncLevel → TxPacket) : Sound lib (generate lib s isServer allocLen input tx) := by
  unfold Agreement.generate
  extract_lets e r out logged session s'
  have hs : Sound lib s' := h.act (allFormatted_logSent (h.logs isServer) logged)
  split_ifs
  · exact hs
  · refine ⟨List.forall_mem_append.mpr ⟨hs.network, fun f hf => ?_⟩, hs.deliveries, hs.logs⟩
    obtain ⟨d, hd, rfl⟩ := List.mem_map.mp hf
    exact good_emit rfl hd

theorem Sound.handleFrames (h : Sound lib s) {f : Flight} (hf : f.Good) {a : Arrived}
    (ha : a.Of f) : Sound lib (handleFrames lib f s a) := by
  unfold Agreement.handleFrames
  extract_lets isServer e after event s'
  have hs : Sound lib s' := h.act (allFormatted_packet (h.logs isServer) a.inp event)
  split_ifs
  · exact hs
  · refine ⟨hs.network, List.forall_mem_append.mpr ⟨hs.deliveries, fun d hd => ?_⟩, hs.logs⟩
    rw [List.mem_singleton.mp hd]
    exact ⟨hf, ha, e.credit, after, rfl⟩

theorem Sound.receive (h : Sound lib s) {f : Flight} (hf : f.Good) {arrivals : List Arrived}
    (ha : ∀ a ∈ arrivals, a.Of f) : Sound lib (arrivals.foldl (Agreement.handleFrames lib f) s) :=
  List.foldlRecOn arrivals _ h fun _ hs a hm => hs.handleFrames hf (ha a hm)

theorem Sound.step (h : Sound lib s) (x : Step) : Sound lib (step lib s x) := by
  unfold Agreement.step
  cases x with
  | generate isServer allocLen input tx => exact h.generate isServer allocLen input tx
  | receive i outcome =>
    dsimp only
    split
    · exact h
    · next f hi =>
      exact h.receive (h.network f (List.mem_of_getElem? hi)) (arrived_of_mem fun _ hp => hp)
  | setValidated isServer =>
    refine Sound.act h ?_
    exact h.logs isServer
  | timing isServer call now lineNow =>
    have hl : AllFormatted lib
        ((s.endpoint isServer).toSession.step lib (.timing isServer call now lineNow)) :=
      (h.logs isServer).timing (fun _ => trivial) isServer call now lineNow
    refine Sound.act h ?_
    exact hl

end

/-- **In every run**, what is in the network and what has been delivered is what was sent, and the
lines of both logs are formatted from their events. -/
theorem run_sound (lib : X509Lib) (steps : List Step) : Sound lib (run (step lib) .new steps) :=
  run_invariant (Sound lib) (fun _ x h => h.step x) steps (sound_new lib)

/-! ### Agreement -/

/-- The packet lines of a log. -/
def packetLines (lines : List Line) : List PacketLine :=
  lines.filterMap fun
    | .packet l => some l
    | .internal _ => none

theorem mem_packetLines {lines : List Line} {l : PacketLine} (h : l ∈ packetLines lines) :
    .packet l ∈ lines := by
  obtain ⟨line, hline, he⟩ := List.mem_filterMap.mp h
  cases line with
  | packet l' =>
    cases he
    exact hline
  | internal l' => cases he

/-- The lines of the packet that was delivered: that of the call that sent it, and that of the
delivery. -/
def LinesFor (d : Delivery) (sent received : PacketLine) : Prop :=
  (∃ c ∈ d.flight.commits, c.pkt = d.arrived.pkt ∧
    sent.event = sentEvent d.flight.fromServer d.flight.tx c) ∧ received.event = d.event

instance (d : Delivery) (sent received : PacketLine) : Decidable (LinesFor d sent received) :=
  inferInstanceAs (Decidable (_ ∧ _))

/-- A packet alone in its datagram, without a length field or with one of two bytes. -/
def Alone (f : Flight) (pkt : TxpPkt) : Prop :=
  f.dgram.pkts = [pkt] ∧ (pkt.encLevel = .oneRtt ∨ lengthFieldLen f.path pkt = 2)

instance (f : Flight) (pkt : TxpPkt) : Decidable (Alone f pkt) :=
  inferInstanceAs (Decidable (_ ∧ _))

section

variable {lib : X509Lib} {s : System} {d : Delivery} {sent received : PacketLine}

/-- **All but the size agrees**, always. -/
theorem same_but_size (hs : Sound lib s) (hd : d ∈ s.deliveries) (h : LinesFor d sent received)
    (hsent : sent ∈ packetLines (s.endpoint d.flight.fromServer).lines)
    (hreceived : received ∈ packetLines (s.endpoint (!d.flight.fromServer)).lines) :
    sent.event.packetNumber = received.event.packetNumber ∧
      sent.event.packetType = received.event.packetType ∧
      frameNames sent = frameNames received := by
  obtain ⟨⟨c, -, hpkt, hse⟩, hre⟩ := h
  obtain ⟨-, harrived, before, after, hevent⟩ := hs.deliveries d hd
  have hpayload : sent.event.payload = received.event.payload := by
    rw [hse, hre, hevent, sentEvent, hpkt]
    exact harrived.payload.symm
  refine ⟨?_, ?_, frameNames_eq ((hs.logs _).lines _ (mem_packetLines hsent))
    ((hs.logs _).lines _ (mem_packetLines hreceived)) hpayload⟩
  all_goals rw [hse, hre, hevent, sentEvent, hpkt]
  · exact harrived.pn.symm
  · rfl

theorem size_eq_iff (hs : Sound lib s) (hd : d ∈ s.deliveries) (h : LinesFor d sent received) :
    sent.event.datagramSize = received.event.datagramSize ↔ Alone d.flight d.arrived.pkt := by
  obtain ⟨⟨c, -, hpkt, hse⟩, hre⟩ := h
  obtain ⟨hflight, harrived, before, after, hevent⟩ := hs.deliveries d hd
  rw [Alone, ← numBytes_eq_dataLen_iff hflight.filled harrived.mem (hflight.pkts _ harrived.mem).1,
    ← harrived.datagramLen, ← hpkt, hse, hre, hevent]
  rfl

end

/-- **The two lines of a packet.** Every packet that is delivered was logged by the call that sent
it, and the two lines show the same exactly when it is alone in its datagram. -/
theorem agree_iff (lib : X509Lib) (steps : List Step) :
    let s := run (step lib) .new steps
    ∀ d ∈ s.deliveries, (∃ c ∈ d.flight.commits, c.pkt = d.arrived.pkt) ∧
      ∀ sent ∈ packetLines (s.endpoint d.flight.fromServer).lines,
      ∀ received ∈ packetLines (s.endpoint (!d.flight.fromServer)).lines,
        LinesFor d sent received → (SameShown sent received ↔ Alone d.flight d.arrived.pkt) := by
  intro s d hd
  have hs : Sound lib s := run_sound lib steps
  have hgood := hs.deliveries d hd
  refine ⟨(hgood.flight.pkts _ hgood.arrived.mem).2, fun sent hsent received hreceived hlines => ?_⟩
  obtain ⟨hpn, htype, hframes⟩ := same_but_size hs hd hlines hsent hreceived
  rw [← size_eq_iff hs hd hlines]
  exact ⟨SameShown.datagramSize, fun hsize => ⟨hsize, hpn, htype, hframes⟩⟩

/-- A call that stages a packet at each level for which a number of bytes is given, with padding in
a datagram that has an Initial packet. -/
def flightOf (bytes : EncLevel → Option ℕ) : GenerateInput where
  path := ⟨1200, 8, 8, 0, fun _ => some 16⟩
  archetype := .normal
  el := fun l =>
    { shouldTryStaging := (bytes l).isSome
      forceAckEliciting := false
      initAlloc := true
      generateForEl := fun maxPpl => (bytes l).bind fun n =>
        if h : n ≤ maxPpl then some ⟨⟨n, l = .initial, false⟩, h⟩ else none
      expandAlloc := true
      paddingAlloc := true
      commitOutcome := .written }

/-- The first packets of both sides: an Initial packet of the client, with a `PING` and padding, and
an Initial and a Handshake packet of the server, of which the first is padded. -/
def firstFlights : List Step :=
  let inp : LogInput := ⟨0, fun _ => true, true, true, none⟩
  let ping (n : ℕ) : TxPacket := ⟨0, 1 :: List.replicate (n - 1) 0, inp⟩
  [.generate false 1200 (flightOf fun l => if l = .initial then some 100 else none)
    fun _ => ping 1154, .receive 0 fun _ => .opened 0 inp,
    .generate true 1200
      (flightOf fun
        | .initial => some 100
        | .handshake => some 500
        | _ => none)
      fun l => ping (if l = .initial then 609 else 500),
    .receive 1 fun _ => .opened 0 inp]

/-- The client's Initial packet is alone in its datagram. -/
theorem agree_iff_initial :
    let s := run (step noX509) .new firstFlights
    ∃ d ∈ s.deliveries, ∃ sent ∈ packetLines (s.endpoint d.flight.fromServer).lines,
      ∃ received ∈ packetLines (s.endpoint (!d.flight.fromServer)).lines,
        LinesFor d sent received ∧ SameShown sent received := by
  have hagree := agree_iff noX509 firstFlights
  have halone :
      let s := run (step noX509) .new firstFlights
      ∃ d ∈ s.deliveries, ∃ sent ∈ packetLines (s.endpoint d.flight.fromServer).lines,
        ∃ received ∈ packetLines (s.endpoint (!d.flight.fromServer)).lines,
          LinesFor d sent received ∧ Alone d.flight d.arrived.pkt := by
    decide +kernel
  generalize run (step noX509) .new firstFlights = s at hagree halone ⊢
  obtain ⟨d, hd, sent, hsent, received, hreceived, hlines, ha⟩ := halone
  exact ⟨d, hd, sent, hsent, received, hreceived, hlines,
    ((hagree d hd).2 sent hsent received hreceived hlines).mpr ha⟩

/-- The server prints 545 bytes for its Handshake packet, and the client 1200. -/
theorem agree_coalesced :
    let s := run (step noX509) .new firstFlights
    ∃ d ∈ s.deliveries, ∃ sent ∈ packetLines (s.endpoint d.flight.fromServer).lines,
      ∃ received ∈ packetLines (s.endpoint (!d.flight.fromServer)).lines,
        LinesFor d sent received ∧ sent.event.encLevel = .handshake ∧
          sent.event.datagramSize = 545 ∧ received.event.datagramSize = 1200 := by
  decide +kernel

end PapQuic.Log.Agreement
