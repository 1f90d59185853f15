import PapQuic.Log.Stages

/-! # HANDSHAKE DONE of a client

The TLS 1.3 client of `ssl/statem/statem_clnt.c` next to the log. The check of a CertificateVerify
arms the line `[HANDSHAKE DONE]`, which comes with the next packet, sent or received; the value it
shows is there once the Finished has been read. So the line is early when a packet is logged in
between, and only then (`handshakeDone_iff`). -/

namespace PapQuic.Tls.Handshake

open Lib.Run Log.Metadata Log.Clock Log.FrameList Log.Lines Log.Timing Log.Output
open Log.Conservation Log.Stages

/-! ### The client -/

/-- `OSSL_HANDSHAKE_STATE` of a QUIC client. `crSrvrHello` says whether the message was a
HelloRetryRequest; `cwFlight` are the states in which the client writes its last flight. -/
inductive HandState
  | before | cwClntHello | crSrvrHello (hrr : Bool) | crEncryptedExtensions | crCertReq | crCert
  | crCompCert | crCertVrfy | crFinished | cwFlight | ok
  deriving DecidableEq, Repr

/-- `SSL3_MT_*`, as far as a client reads them. -/
inductive Message
  | serverHello (hrr : Bool) | encryptedExtensions | certificateRequest | certificate
  | compressedCertificate | certificateVerify | finished | newsessionTicket | other
  deriving DecidableEq, Repr

/-- `ossl_statem_client13_read_transition`, and the transition of
`ossl_statem_client_read_transition` out of `TLS_ST_CW_CLNT_HELLO`; post-handshake authentication is
left out. A session ticket is read and leaves the client where it was. -/
def readTransition (hit compressCertificateSent : Bool) : HandState → Message → Option HandState
  | .cwClntHello, .serverHello hrr => some (.crSrvrHello hrr)
  | .crSrvrHello false, .encryptedExtensions => some .crEncryptedExtensions
  | .crEncryptedExtensions, .finished => if hit then some .crFinished else none
  | .crEncryptedExtensions, .certificateRequest => if hit then none else some .crCertReq
  | .crEncryptedExtensions, .certificate => if hit then none else some .crCert
  | .crEncryptedExtensions, .compressedCertificate =>
    if hit || !compressCertificateSent then none else some .crCompCert
  | .crCertReq, .certificate => some .crCert
  | .crCertReq, .compressedCertificate => if compressCertificateSent then some .crCompCert else none
  | .crCert, .certificateVerify => some .crCertVrfy
  | .crCompCert, .certificateVerify => some .crCertVrfy
  | .crCertVrfy, .finished => some .crFinished
  | .ok, .newsessionTicket => some .ok
  | _, _ => none

/-- A client: its log, the state machine with `MSG_FLOW_ERROR`, and `ts_msg_write` and
`ts_msg_read`. -/
structure Client where
  session : Session
  handState : HandState
  error : Bool
  tsMsgWrite : ℕ
  tsMsgRead : ℕ

def Client.new : Client := ⟨.new, .before, false, 0, 0⟩

/-- `SSL_get_handshake_rtt`, which returns 1 with a value. -/
def Client.getHandshakeRtt (c : Client) : Option ℕ :=
  if c.tsMsgWrite = 0 ∨ c.tsMsgRead = 0 then none
  else if c.tsMsgRead < c.tsMsgWrite then none
  else some ((c.tsMsgRead - c.tsMsgWrite) / 1000)

inductive ClientStep
  /-- A packet is logged. -/
  | packet (now : OsslTime) (hsAlloc : ℕ → Bool) (lineAlloc storeAlloc : Bool)
    (event : PacketLogEvent)
  /-- A TLS callback. -/
  | timing (call : TimingCall) (now lineNow : OsslTime)
  /-- A ClientHello has been written. -/
  | writeClientHello (now : OsslTime)
  /-- A message is read. It is processed without an error where `processed` says so. -/
  | read (message : Message) (hit compressCertificateSent processed : Bool)
    (now lineNow readNow : OsslTime)
  /-- The last flight has been written. -/
  | writeFlight

/-- The log of a packet. -/
def Client.logInput (c : Client) (now : OsslTime) (hsAlloc : ℕ → Bool)
    (lineAlloc storeAlloc : Bool) : LogInput :=
  ⟨now, hsAlloc, lineAlloc, storeAlloc, c.getHandshakeRtt⟩

/-- The calls of `tls_process_cert_verify`: what it measures ends or is aborted. -/
def certVerifyCheck (lib : X509Lib) (processed : Bool) (now lineNow : OsslTime) (s : Session) :
    Session :=
  let s := s.step lib (.timing false (.begin .clientCvCheck) now now)
  if processed then s.step lib (.timing false (.complete .clientCvCheck) lineNow lineNow)
  else s.step lib (.timing false (.abort .clientCvCheck) lineNow lineNow)

/-- A message that the state machine admits is processed. After a Finished comes the write
transition that takes the time. -/
def Client.process (lib : X509Lib) (c : Client) (message : Message) (next : HandState)
    (processed : Bool) (now lineNow readNow : OsslTime) : Client :=
  let session :=
    if message = .certificateVerify then certVerifyCheck lib processed now lineNow c.session
    else c.session
  if !processed then { c with session := session, handState := next, error := true }
  else if next = .crFinished then
    { c with session := session, handState := .cwFlight, tsMsgRead := (readNow : ℕ) }
  else { c with session := session, handState := next }

/-- A step of a client; a log that hangs stops everything. -/
def Client.step (lib : X509Lib) (c : Client) (x : ClientStep) : Client :=
  if c.session.hung then c
  else
    match x with
    | .packet now hsAlloc lineAlloc storeAlloc event =>
      let inp := c.logInput now hsAlloc lineAlloc storeAlloc
      { c with session := c.session.step lib (.packet inp { event with isServer := false }) }
    | .timing call now lineNow =>
      { c with session := c.session.step lib (.timing false call now lineNow) }
    | .writeClientHello now =>
      if !c.error && (c.handState = .before || c.handState = .crSrvrHello true) then
        { c with handState := .cwClntHello, tsMsgWrite := (now : ℕ) }
      else c
    | .read message hit compressCertificateSent processed now lineNow readNow =>
      if c.error then c
      else
        match readTransition hit compressCertificateSent c.handState message with
        | none => { c with error := true }
        | some next => c.process lib message next processed now lineNow readNow
    | .writeFlight => if !c.error && c.handState = .cwFlight then { c with handState := .ok } else c

/-! ### The line in the log -/

/-- The lines HANDSHAKE DONE of a log. -/
def doneLines (lines : List Line) : List Line := lines.filter (hasLabel .handshakeDone)

/-- HANDSHAKE DONE of a client. -/
def doneLine (now : OsslTime) (latency : Option ℕ) : Line :=
  .internal ⟨now, false, .handshakeDone, [.handshakeLatency latency]⟩

section Log

variable {tm : HandshakeTiming}

theorem doneLines_eq_nil_of_packets {lines : List Line} (h : ∀ l ∈ lines, isPacket l = true) :
    doneLines lines = [] := by
  refine List.filter_eq_nil_iff.mpr fun l hl => ?_
  have hp := h l hl
  cases l with
  | packet l => simp [hasLabel]
  | internal l => cases hp

theorem done_serverHelloBuild (now : OsslTime) :
    (quicTimingMaybeLogServerHelloBuild false now tm).2.logged .clientHsDone =
      tm.logged .clientHsDone := by
  unfold quicTimingMaybeLogServerHelloBuild
  split_ifs
  · rfl
  · simp [quicTimingFlushBuffer]

theorem done_emitSingleMetricLine (now : OsslTime) (s : Stage) :
    (emitSingleMetricLine false now tm s).2.logged .clientHsDone = tm.logged .clientHsDone := by
  unfold emitSingleMetricLine
  split
  · rfl
  · next flag label metric hs =>
    have hf : flag ≠ .clientHsDone := by cases s <;> cases hs <;> decide
    split_ifs
    · simp [hf.symm]
    · rfl

/-- A TLS callback neither writes the line nor sets its flag. -/
theorem done_timingCall (hp : OnlyPackets tm.pending) (now lineNow : OsslTime) (call : TimingCall) :
    doneLines (timingCall false now lineNow tm call).1 = [] ∧
      (timingCall false now lineNow tm call).2.logged .clientHsDone = tm.logged .clientHsDone := by
  have hlog : (timingCall false now lineNow tm call).2.logged .clientHsDone =
      tm.logged .clientHsDone := by
    cases call with
    | complete s =>
      by_cases hs : s = .serverKex
      · subst hs
        exact done_serverHelloBuild lineNow
      · rw [timingCall_complete hs, done_emitSingleMetricLine]
        rfl
    | serverHelloReady =>
      simp only [timingCall]
      split
      · exact done_serverHelloBuild lineNow
      · rfl
    | clientHelloSent =>
      simp only [timingCall]
      split_ifs <;> rfl
    | clientProcessedServerHello =>
      simp only [timingCall]
      split <;> rfl
    | serverClientHelloProcessed =>
      simp only [timingCall, serverClientHelloProcessed]
      split_ifs <;> rfl
    | _ => rfl
  refine ⟨?_, hlog⟩
  have h : Proceeds false tm _ _ := proceeds_timingCall hp false now lineNow call
  have hz : (timingCall false now lineNow tm call).1.countP (hasLabel .handshakeDone) = 0 := by
    have h := h.once .handshakeDone
    simp only [labelFlag, Bool.false_eq_true, if_false, hlog] at h
    omega
  exact List.filter_eq_nil_iff.mpr (List.countP_eq_zero.mp hz)

/-- A line that is announced is not HANDSHAKE DONE. -/
theorem done_announces {label : Label} {flag : Logged} {r : List Line × HandshakeTiming}
    (h : Announces label flag tm r) (hl : label ≠ .handshakeDone) (hf : flag ≠ .clientHsDone) :
    doneLines r.1 = [] ∧ r.2.logged .clientHsDone = tm.logged .clientHsDone := by
  cases h with
  | nothing => exact ⟨rfl, rfl⟩
  | line l hlabel =>
    subst hlabel
    exact ⟨by simp [doneLines, hasLabel, hl], by simp [hf.symm]⟩

theorem done_emitClientHandshakeDone (hp : OnlyPackets tm.pending) {event : EventKey}
    (hs : event.isServer = false) (inp : LogInput) :
    doneLines (emitClientHandshakeDone event inp tm).1 =
        (if !tm.logged .clientHsDone && tm.clientReady then [doneLine inp.now inp.handshakeRtt]
        else []) ∧
      (emitClientHandshakeDone event inp tm).2.logged .clientHsDone =
        (tm.logged .clientHsDone || tm.clientReady) := by
  unfold emitClientHandshakeDone
  split_ifs with hc
  · simp only [Bool.and_eq_true, Bool.not_eq_eq_eq_not, Bool.not_true] at hc
    have hflush : doneLines (quicTimingFlushBuffer tm .clientFinished).1 = [] :=
      doneLines_eq_nil_of_packets fun l hl => hp .clientFinished l (Option.mem_toList.mp hl)
    refine ⟨?_, by simp [hc.2]⟩
    rw [doneLines] at hflush
    simp only [doneLines, List.filter_cons, hasLabel, decide_true, if_true, hflush, hs, doneLine]
  · refine ⟨rfl, ?_⟩
    cases hl : tm.logged .clientHsDone
    · cases hr : tm.clientReady
      · rfl
      · simp [hl, hr] at hc
    · rfl

/-- A packet of a client has the line written before it when the flag is clear and the check of the
CertificateVerify is done. -/
theorem done_logPacket (hp : OnlyPackets tm.pending) {event : EventKey}
    (hs : event.isServer = false) (inp : LogInput) (mask : ℕ) (l : PacketLine) :
    doneLines (logPacket event inp mask (.packet l) tm).1 =
        (if !tm.logged .clientHsDone && tm.clientReady then [doneLine inp.now inp.handshakeRtt]
        else []) ∧
      (logPacket event inp mask (.packet l) tm).2.logged .clientHsDone =
        (tm.logged .clientHsDone || tm.clientReady) := by
  have hafter (tm : HandshakeTiming) : maybeEmitInternal event inp mask tm .after = ([], tm) := by
    simp [maybeEmitInternal, hs]
  have hwrite (tm : HandshakeTiming) :
      doneLines (writeLine event mask inp.storeAlloc (.packet l) tm).1 = [] ∧
        (writeLine event mask inp.storeAlloc (.packet l) tm).2.logged = tm.logged := by
    unfold writeLine
    split
    · exact ⟨rfl, rfl⟩
    · exact ⟨rfl, rfl⟩
  have hbefore : maybeEmitInternal event inp mask tm .before =
      andThen (emitClientHelloBuild event inp.now) (andThen
        (emitServerHelloProcessed event inp.now) (emitClientHandshakeDone event inp)) tm := by
    simp [maybeEmitInternal, hs]
  have h1 := announces_emitClientHelloBuild event inp.now tm
  have h2 := announces_emitServerHelloProcessed event inp.now
    (emitClientHelloBuild event inp.now tm).2
  obtain ⟨hl1, hd1⟩ := done_announces h1 (by decide) (by decide)
  obtain ⟨hl2, hd2⟩ := done_announces h2 (by decide) (by decide)
  have hp2 : OnlyPackets (emitServerHelloProcessed event inp.now
      (emitClientHelloBuild event inp.now tm).2).2.pending := by
    rw [h2.pending, h1.pending]
    exact hp
  obtain ⟨hl3, hd3⟩ := done_emitClientHandshakeDone hp2 hs inp
  rw [hd2, h2.clientReady, hd1, h1.clientReady] at hl3 hd3
  unfold doneLines at hl1 hl2 hl3 hwrite ⊢
  simp only [logPacket, hbefore, andThen, hafter, List.filter_append, hl1, hl2, hl3, hwrite, hd3,
    List.append_nil, List.nil_append, and_self]

end Log

/-! ### Runs -/

/-- The Finished has been read. -/
def finishedRead : HandState → Bool
  | .cwFlight => true
  | .ok => true
  | _ => false

/-- A step logs a packet. -/
def LogsPacket (lib : X509Lib) (c : Client) : ClientStep → Prop
  | .packet now hsAlloc lineAlloc storeAlloc event =>
    (formats lib c.session (.packet (c.logInput now hsAlloc lineAlloc storeAlloc)
      { event with isServer := false })).isSome = true
  | _ => False

/-- A packet is logged after the check of the CertificateVerify and before the Finished is read. -/
def Early (lib : X509Lib) (c : Client) (x : ClientStep) : Prop :=
  LogsPacket lib c x ∧ c.session.timing.clientReady = true ∧ finishedRead c.handState = false

/-- The times that the clock shows in a step. -/
def clientTimes : ClientStep → List ℕ
  | .packet now .. => [(now : ℕ)]
  | .timing _ now lineNow => [(now : ℕ), (lineNow : ℕ)]
  | .writeClientHello now => [(now : ℕ)]
  | .read _ _ _ _ now lineNow readNow => [(now : ℕ), (lineNow : ℕ), (readNow : ℕ)]
  | .writeFlight => []

/-- The line in the log: not yet there, there without a value, or with the value that stays. -/
inductive Shown (early : Prop) (c : Client) : Prop
  | no : c.session.timing.logged .clientHsDone = false → doneLines c.session.lines = [] → ¬ early →
    Shown early c
  | without (now : OsslTime) : c.session.timing.logged .clientHsDone = true →
    doneLines c.session.lines = [doneLine now none] → early → Shown early c
  | value (now : OsslTime) (us : ℕ) : c.session.timing.logged .clientHsDone = true →
    doneLines c.session.lines = [doneLine now (some us)] → ¬ early →
    finishedRead c.handState = true → c.getHandshakeRtt = some us → Shown early c

/-- The time stamps of a client after a run at the given times. -/
structure Stamped (times : List ℕ) (c : Client) : Prop where
  mem : c.tsMsgWrite = 0 ∨ c.tsMsgWrite ∈ times
  written : c.handState = .before ∨ 0 < c.tsMsgWrite
  unread : finishedRead c.handState = false → c.tsMsgRead = 0
  read : finishedRead c.handState = true → 0 < c.tsMsgRead ∧ c.tsMsgWrite ≤ c.tsMsgRead

theorem Stamped.getHandshakeRtt {times : List ℕ} {c : Client} (h : Stamped times c) :
    c.getHandshakeRtt.isSome = finishedRead c.handState := by
  cases hf : finishedRead c.handState
  · simp [Client.getHandshakeRtt, h.unread hf]
  · obtain ⟨h1, h2⟩ := h.read hf
    have hw : 0 < c.tsMsgWrite := by
      rcases h.written with hb | hb
      · rw [hb] at hf
        cases hf
      · exact hb
    have hz : ¬ (c.tsMsgWrite = 0 ∨ c.tsMsgRead = 0) := by omega
    simp [Client.getHandshakeRtt, hz, not_lt.mpr h2]

section Steps

variable (lib : X509Lib) {c : Client}

theorem readTransition_spec {hit sent : Bool} {st next : HandState} {message : Message}
    (h : readTransition hit sent st message = some next) :
    st ≠ .before ∧ finishedRead next = finishedRead st := by
  unfold readTransition at h
  split at h <;> (try split_ifs at h) <;> cases h <;> simp [finishedRead]

/-- A part of a log without HANDSHAKE DONE. -/
structure Quiet (s s' : Session) : Prop where
  packets : OnlyPackets s'.timing.pending
  lines : doneLines s'.lines = doneLines s.lines
  logged : s'.timing.logged .clientHsDone = s.timing.logged .clientHsDone

theorem quiet_timing {s : Session} (hp : OnlyPackets s.timing.pending) (call : TimingCall)
    (now lineNow : OsslTime) : Quiet s (s.step lib (.timing false call now lineNow)) := by
  by_cases hh : s.hung = true
  · rw [step_of_hung hh]
    exact ⟨hp, rfl, rfl⟩
  · obtain ⟨hl, hd⟩ := done_timingCall hp now lineNow call
    have hq := (perm_of_moves (moves_timingCall false now lineNow s.timing call) hp).2
    simp only [Session.step, hh]
    refine ⟨hq, ?_, hd⟩
    change doneLines (s.lines ++ _) = _
    rw [doneLines, List.filter_append, ← doneLines, ← doneLines, hl, List.append_nil]

theorem quiet_certVerifyCheck {s : Session} (hp : OnlyPackets s.timing.pending) (processed : Bool)
    (now lineNow : OsslTime) : Quiet s (certVerifyCheck lib processed now lineNow s) := by
  have h1 : Quiet s _ := quiet_timing lib hp (.begin .clientCvCheck) now now
  unfold certVerifyCheck
  split_ifs
  · have h2 : Quiet _ _ := quiet_timing lib h1.packets (.complete .clientCvCheck) lineNow lineNow
    exact ⟨h2.packets, h2.lines.trans h1.lines, h2.logged.trans h1.logged⟩
  · have h2 : Quiet _ _ := quiet_timing lib h1.packets (.abort .clientCvCheck) lineNow lineNow
    exact ⟨h2.packets, h2.lines.trans h1.lines, h2.logged.trans h1.logged⟩

/-- All that a step can do to the log of a client. -/
theorem session_step (hp : OnlyPackets c.session.timing.pending) (x : ClientStep) :
    (¬ LogsPacket lib c x ∧ Quiet c.session (c.step lib x).session) ∨
      LogsPacket lib c x ∧ (c.step lib x).handState = c.handState ∧ ∃ now : OsslTime,
        OnlyPackets (c.step lib x).session.timing.pending ∧
        doneLines (c.step lib x).session.lines = doneLines c.session.lines ++
          (if !c.session.timing.logged .clientHsDone && c.session.timing.clientReady then
            [doneLine now c.getHandshakeRtt] else []) ∧
        (c.step lib x).session.timing.logged .clientHsDone =
          (c.session.timing.logged .clientHsDone || c.session.timing.clientReady) := by
  have hsame : Quiet c.session c.session := ⟨hp, rfl, rfl⟩
  by_cases hh : c.session.hung = true
  · refine .inl ⟨?_, by rw [Client.step.eq_def, if_pos hh]; exact hsame⟩
    cases x <;> simp [LogsPacket, formats, hh]
  rw [Client.step.eq_def, if_neg hh]
  cases x with
  | packet now hsAlloc lineAlloc storeAlloc event =>
    rcases hf : formats lib c.session (.packet (c.logInput now hsAlloc lineAlloc storeAlloc)
      { event with isServer := false }) with _ | ⟨l, mask⟩
    · obtain ⟨hl, ht⟩ := step_of_formats_none hf
      refine .inl ⟨by simp [LogsPacket, hf], ?_⟩
      exact ⟨by dsimp only; rw [ht]; exact hp, by dsimp only; rw [hl], by dsimp only; rw [ht]⟩
    · obtain ⟨-, hl, ht⟩ := step_of_formats hf
      have hs : ({ event with isServer := false } : PacketLogEvent).toEventKey.isServer = false :=
        rfl
      obtain ⟨hd, hlog⟩ := done_logPacket hp hs (c.logInput now hsAlloc lineAlloc storeAlloc) mask l
      refine .inr ⟨by simp [LogsPacket, hf], rfl, now, ?_, ?_, ?_⟩
      · dsimp only
        rw [ht]
        exact (perm_of_logs (logs_logPacket _ _ _ _ _) hp).2
      · dsimp only
        rw [hl, doneLines, List.filter_append, ← doneLines, ← doneLines, hd]
        rfl
      · dsimp only
        rw [ht, hlog]
  | timing call now lineNow => exact .inl ⟨id, quiet_timing lib hp call now lineNow⟩
  | writeClientHello now =>
    refine .inl ⟨id, ?_⟩
    dsimp only
    split_ifs <;> exact hsame
  | read message hit compressCertificateSent processed now lineNow readNow =>
    refine .inl ⟨id, ?_⟩
    have hproc (next : HandState) :
        Quiet c.session (c.process lib message next processed now lineNow readNow).session := by
      have hcv := quiet_certVerifyCheck lib hp processed now lineNow
      unfold Client.process
      dsimp only
      split_ifs <;> first | exact hcv | exact hsame
    dsimp only
    split_ifs
    · exact hsame
    · split
      · exact hsame
      · exact hproc _
  | writeFlight =>
    refine .inl ⟨id, ?_⟩
    dsimp only
    split_ifs <;> exact hsame

/-- All that a step at the given times can do to the state machine: it goes on without taking a
time, a ClientHello has been written, or a Finished has been read. -/
inductive Advances (times : List ℕ) (c c' : Client) : Prop
  | on : (c.handState = .before → c'.handState = .before) →
    finishedRead c'.handState = finishedRead c.handState → c'.tsMsgWrite = c.tsMsgWrite →
    c'.tsMsgRead = c.tsMsgRead → Advances times c c'
  | hello (now : OsslTime) : (now : ℕ) ∈ times → finishedRead c.handState = false →
    c'.handState = .cwClntHello → c'.tsMsgWrite = (now : ℕ) → c'.tsMsgRead = c.tsMsgRead →
    Advances times c c'
  | finished (now : OsslTime) : (now : ℕ) ∈ times → finishedRead c.handState = false →
    c.handState ≠ .before → c'.handState = .cwFlight → c'.tsMsgWrite = c.tsMsgWrite →
    c'.tsMsgRead = (now : ℕ) → Advances times c c'

theorem advances_process {message : Message} {hit sent : Bool} {next : HandState}
    (h : readTransition hit sent c.handState message = some next) (processed : Bool)
    (now lineNow readNow : OsslTime) :
    Advances [(now : ℕ), (lineNow : ℕ), (readNow : ℕ)] c
      (c.process lib message next processed now lineNow readNow) := by
  obtain ⟨hb, hf⟩ := readTransition_spec h
  unfold Client.process
  generalize (if message = .certificateVerify then certVerifyCheck lib processed now lineNow
    c.session else c.session) = session
  dsimp only
  split_ifs with hp hn
  · exact .on (fun h => absurd h hb) hf rfl rfl
  · subst hn
    exact .finished readNow (by simp) hf.symm hb rfl rfl rfl
  · exact .on (fun h => absurd h hb) hf rfl rfl

theorem advances_step (c : Client) (x : ClientStep) :
    Advances (clientTimes x) c (c.step lib x) := by
  have hsame : Advances (clientTimes x) c c := .on id rfl rfl rfl
  rw [Client.step.eq_def]
  by_cases hh : c.session.hung = true
  · rw [if_pos hh]
    exact hsame
  rw [if_neg hh]
  cases x with
  | packet now hsAlloc lineAlloc storeAlloc event => exact .on id rfl rfl rfl
  | timing call now lineNow => exact .on id rfl rfl rfl
  | writeClientHello now =>
    dsimp only
    split_ifs with hc
    · simp only [Bool.and_eq_true, Bool.or_eq_true, decide_eq_true_eq] at hc
      have hf : finishedRead c.handState = false := by
        rcases hc.2 with h | h <;> rw [h] <;> rfl
      exact .hello now (by simp [clientTimes]) hf rfl rfl rfl
    · exact hsame
  | read message hit compressCertificateSent processed now lineNow readNow =>
    dsimp only
    split_ifs
    · exact hsame
    · split
      · exact .on id rfl rfl rfl
      · next next hnext => exact advances_process lib hnext processed now lineNow readNow
  | writeFlight =>
    dsimp only
    split_ifs with hc
    · simp only [Bool.and_eq_true, decide_eq_true_eq] at hc
      exact .on (fun h => absurd (h.symm.trans hc.2) (by decide)) (by rw [hc.2]; rfl) rfl rfl
    · exact hsame

/-- Once the Finished has been read, the value stays. -/
theorem step_of_finishedRead (h : finishedRead c.handState = true) (x : ClientStep) :
    finishedRead (c.step lib x).handState = true ∧
      (c.step lib x).getHandshakeRtt = c.getHandshakeRtt := by
  cases advances_step lib c x with
  | on _ hf hw hr =>
    exact ⟨hf.trans h, by rw [Client.getHandshakeRtt, Client.getHandshakeRtt, hw, hr]⟩
  | hello _ _ hf => exact absurd (h.symm.trans hf) (by decide)
  | finished _ _ hf => exact absurd (h.symm.trans hf) (by decide)

theorem Stamped.step {times : List ℕ} (h : Stamped times c) {x : ClientStep}
    (hx : ∀ t ∈ clientTimes x, 0 < t ∧ ∀ u ∈ times, u ≤ t) :
    Stamped (times ++ clientTimes x) (c.step lib x) := by
  cases advances_step lib c x with
  | on hb hf hw hr =>
    refine ⟨?_, ?_, fun hf' => ?_, fun hf' => ?_⟩
    · rw [hw]
      exact h.mem.imp_right (List.mem_append_left _)
    · rw [hw]
      exact h.written.imp_left hb
    · rw [hr]
      exact h.unread (hf.symm.trans hf')
    · rw [hr, hw]
      exact h.read (hf.symm.trans hf')
  | hello now hm hf hs hw hr =>
    refine ⟨.inr ?_, .inr ?_, fun _ => ?_, fun hf' => ?_⟩
    · rw [hw]
      exact List.mem_append_right _ hm
    · rw [hw]
      exact (hx _ hm).1
    · rw [hr]
      exact h.unread hf
    · rw [hs] at hf'
      cases hf'
  | finished now hm hf hb hs hw hr =>
    refine ⟨?_, .inr ?_, fun hf' => ?_, fun _ => ⟨?_, ?_⟩⟩
    · rw [hw]
      exact h.mem.imp_right (List.mem_append_left _)
    · rw [hw]
      exact h.written.resolve_left hb
    · rw [hs] at hf'
      cases hf'
    · rw [hr]
      exact (hx _ hm).1
    · rw [hw, hr]
      rcases h.mem with hz | hz
      · omega
      · exact (hx _ hm).2 _ hz

/-- **A step and the line.** -/
theorem Shown.step {times : List ℕ} {early : Prop} (hst : Stamped times c)
    (hp : OnlyPackets c.session.timing.pending) (h : Shown early c) (x : ClientStep) :
    OnlyPackets (c.step lib x).session.timing.pending ∧
      Shown (early ∨ Early lib c x) (c.step lib x) := by
  rcases session_step lib hp x with ⟨hx, hq⟩ | ⟨hx, hs, now, hp', hl, hd⟩
  · -- Nothing is logged.
    have he : ¬ Early lib c x := fun he => hx he.1
    refine ⟨hq.packets, ?_⟩
    cases h with
    | no hlog hlines hearly =>
      exact .no (hq.logged.trans hlog) (hq.lines.trans hlines) (not_or.mpr ⟨hearly, he⟩)
    | without now hlog hlines hearly =>
      exact .without now (hq.logged.trans hlog) (hq.lines.trans hlines) (.inl hearly)
    | value now us hlog hlines hearly hf hrtt =>
      obtain ⟨hf', hrtt'⟩ := step_of_finishedRead lib hf x
      exact .value now us (hq.logged.trans hlog) (hq.lines.trans hlines) (not_or.mpr ⟨hearly, he⟩)
        hf' (hrtt'.trans hrtt)
  · -- A packet is logged; the line comes with it if it is armed and not yet there.
    refine ⟨hp', ?_⟩
    cases h with
    | no hlog hlines hearly =>
      rw [hlog, hlines] at hl
      rw [hlog] at hd
      cases hr : c.session.timing.clientReady
      · rw [hr] at hl hd
        exact .no hd hl (not_or.mpr ⟨hearly, fun he => absurd (hr.symm.trans he.2.1) (by decide)⟩)
      · rw [hr] at hl hd
        cases hf : finishedRead c.handState
        · have hrtt : c.getHandshakeRtt = none := by
            rw [← Option.not_isSome_iff_eq_none, hst.getHandshakeRtt, hf]
            decide
          rw [hrtt] at hl
          exact .without now hd hl (.inr ⟨hx, hr, hf⟩)
        · obtain ⟨us, hus⟩ := Option.isSome_iff_exists.mp (hst.getHandshakeRtt.trans hf)
          obtain ⟨hf', hrtt'⟩ := step_of_finishedRead lib hf x
          rw [hus] at hl
          exact .value now us hd hl
            (not_or.mpr ⟨hearly, fun he => absurd (hf.symm.trans he.2.2) (by decide)⟩) hf'
            (hrtt'.trans hus)
    | without t hlog hlines hearly =>
      rw [hlog, hlines] at hl
      rw [hlog] at hd
      exact .without t hd hl (.inl hearly)
    | value t us hlog hlines hearly hf hrtt =>
      rw [hlog, hlines] at hl
      rw [hlog] at hd
      obtain ⟨hf', hrtt'⟩ := step_of_finishedRead lib hf x
      exact .value t us hd hl
        (not_or.mpr ⟨hearly, fun he => absurd (hf.symm.trans he.2.2) (by decide)⟩) hf'
        (hrtt'.trans hrtt)

theorem shown_run {steps : List ClientStep}
    (hclock : (steps.flatMap clientTimes).Pairwise (· ≤ ·))
    (hpos : ∀ t ∈ steps.flatMap clientTimes, 0 < t) :
    Stamped (steps.flatMap clientTimes) (run (Client.step lib) .new steps) ∧
      OnlyPackets (run (Client.step lib) .new steps).session.timing.pending ∧
      Shown (AnyMeet (Client.step lib) (Early lib) .new steps)
        (run (Client.step lib) .new steps) := by
  induction steps using List.reverseRecOn with
  | nil =>
    refine ⟨⟨.inl rfl, .inl rfl, fun _ => rfl, fun h => (by cases h)⟩, fun _ _ h => (by cases h),
      .no rfl rfl id⟩
  | append_singleton steps x ih =>
    rw [List.flatMap_append, List.pairwise_append] at hclock
    rw [List.flatMap_append] at hpos
    obtain ⟨hst, hp, hsh⟩ := ih hclock.1 fun t ht => hpos t (List.mem_append_left _ ht)
    obtain ⟨hp', hsh'⟩ := hsh.step lib hst hp x
    rw [run_append, run_cons, run_nil, List.flatMap_append, List.flatMap_singleton]
    rw [List.flatMap_singleton] at hpos hclock
    refine ⟨hst.step lib fun t ht => ⟨hpos t (List.mem_append_right _ ht),
      fun u hu => hclock.2.2 u hu t ht⟩, hp', ?_⟩
    rw [propext anyMeet_concat]
    exact hsh'

end Steps

/-- **When HANDSHAKE DONE is early.** In every run of a client, with a clock that does not go back,
the line HANDSHAKE DONE shows a latency and it is the value that `SSL_get_handshake_rtt` returns
from then on, if and only if no packet is logged after the check of the CertificateVerify and before
the Finished is read. -/
theorem handshakeDone_iff (lib : X509Lib) (steps : List ClientStep)
    (hclock : (steps.flatMap clientTimes).Pairwise (· ≤ ·))
    (hpos : ∀ t ∈ steps.flatMap clientTimes, 0 < t) :
    (∀ l, Line.internal l ∈ (run (Client.step lib) .new steps).session.lines →
      l.label = .handshakeDone → ∃ us, l.items = [.handshakeLatency (some us)] ∧
        (run (Client.step lib) .new steps).getHandshakeRtt = some us) ↔
      ¬ AnyMeet (Client.step lib) (Early lib) .new steps := by
  have hmem {lines : List Line} {l : InternalLine} :
      Line.internal l ∈ lines ∧ l.label = .handshakeDone ↔ Line.internal l ∈ doneLines lines := by
    simp [doneLines, hasLabel]
  obtain ⟨-, -, hsh⟩ := shown_run lib hclock hpos
  cases hsh with
  | no hlog hlines hearly =>
    refine iff_of_true (fun l hl hlabel => ?_) hearly
    have h := hmem.mp ⟨hl, hlabel⟩
    rw [hlines] at h
    cases h
  | without now hlog hlines hearly =>
    refine iff_of_false (fun h => ?_) (not_not.mpr hearly)
    have hin : doneLine now none ∈ doneLines (run (Client.step lib) .new steps).session.lines := by
      rw [hlines]
      exact List.mem_singleton_self _
    obtain ⟨hl, hlabel⟩ := hmem.mpr hin
    obtain ⟨us, hus, -⟩ := h _ hl hlabel
    cases hus
  | value now us hlog hlines hearly hf hrtt =>
    refine iff_of_true (fun l hl hlabel => ⟨us, ?_, hrtt⟩) hearly
    have h := hmem.mp ⟨hl, hlabel⟩
    rw [hlines, List.mem_singleton] at h
    cases h
    rfl

/-- A message without errors. -/
def readAt (now : OsslTime) (message : Message) : ClientStep :=
  .read message false false true now now now

/-- A handshake up to the check of the CertificateVerify. -/
def flight : List ClientStep :=
  [.writeClientHello 1000, readAt 2000 (.serverHello false), readAt 3000 .encryptedExtensions,
    readAt 4000 .certificate, readAt 5000 .certificateVerify]

/-- A Handshake packet with a Finished arrives. -/
def finishedPacket (now : OsslTime) : ClientStep :=
  .packet now (fun _ => true) true true
    { isServer := false, isSend := false, encLevel := .handshake, packetType := some .handshake,
      packetNumber := 2, datagramSize := 1200,
      payload := [6, 0, 36, 20, 0, 0, 32] ++ List.replicate 32 7,
      haveCreditBefore := false, creditBefore := 0, creditBeforeUnlimited := false,
      haveCreditAfter := false, creditAfter := 0, creditAfterUnlimited := false,
      clientCreditKnown := true, clientCreditUnlimited := true,
      haveCreditDelta := false, creditDelta := 0 }

theorem handshakeDone_iff_finished_first :
    let steps := flight ++ [readAt 6000 .finished, finishedPacket 7000]
    (doneLines (run (Client.step noX509) .new steps).session.lines).length = 1 ∧
      ∀ l, Line.internal l ∈ (run (Client.step noX509) .new steps).session.lines →
        l.label = .handshakeDone → ∃ us, l.items = [.handshakeLatency (some us)] ∧
          (run (Client.step noX509) .new steps).getHandshakeRtt = some us := by
  refine ⟨by decide +kernel, (handshakeDone_iff noX509 _ (by decide) (by decide)).mpr ?_⟩
  simp [flight, AnyMeet, Early, LogsPacket, readAt, finishedPacket]
  decide +kernel

def shownItems : Line → List Item
  | .packet _ => []
  | .internal l => l.items

/-- A Finished that comes in a packet of its own: the packet is logged before the Finished is
read. -/
theorem handshakeDone_early :
    let steps := flight ++ [finishedPacket 6000, readAt 7000 .finished]
    (doneLines (run (Client.step noX509) .new steps).session.lines).map shownItems =
        [[.handshakeLatency none]] ∧
      (run (Client.step noX509) .new steps).getHandshakeRtt = some 6 := by
  decide +kernel

end PapQuic.Tls.Handshake
