import PapQuic.Log.Lines

/-! # Handshake timing

The state machine of `ssl/quic/quic_handshake_timing.c`, which measures the stages of a handshake
and prints them as INTERNAL lines, and `ossl_quic_packet_log` of `ssl/quic/quic_debug.c`, which
drives it with packet events. Three packet lines can be held back until an INTERNAL line has been
written: they wait in a slot each (`Slot`). All functions return the lines they write, in order. -/

namespace PapQuic.Log.Timing

open Log.Metadata Log.Handshake Log.Clock Log.FrameList Log.Lines

/-! ### The state -/

/-- The stages that are measured between a begin and a complete call. -/
inductive Stage
  | clientKeyshare | clientHelloBuild | clientKex | clientCertChain | clientCertVerify
  | clientCvCheck | serverKex | serverCertBuild | serverCertVerify | serverHandshakeBuild
  deriving DecidableEq, Repr

/-- The `_active`, `_start`, `have_` and value fields of a stage. -/
structure StageState where
  active : Bool
  start : ℕ
  value : Option ℕ
  deriving DecidableEq, Repr

/-- The `_logged` flags. -/
inductive Logged
  | serverClient | serverValidated | serverHsDone | clientCh | clientSh | clientHsDone
  | clientCert | clientCv | serverCert | serverCv | serverShprep | serverHsbuild
  deriving DecidableEq, Repr

/-- The `pending_` lines. -/
inductive Slot
  | serverInitial | clientFinished | serverHandshakeDone
  deriving DecidableEq, Repr

/-- `QUIC_HANDSHAKE_TIMING` of an enabled connection. -/
structure HandshakeTiming where
  stage : Stage → StageState
  serverClienthelloProcess : StageState
  serverClienthelloTime : Option ℕ
  serverHelloPreparation : Option ℕ
  clientHelloSent : Option ℕ
  clientHelloRtt : Option ℕ
  clientValidationDelay : Option ℕ
  clientReady : Bool
  logged : Logged → Bool
  pending : Slot → Option Line

/-- The zeroed state of `quic_timing_activate`. -/
def HandshakeTiming.init : HandshakeTiming where
  stage _ := ⟨false, 0, none⟩
  serverClienthelloProcess := ⟨false, 0, none⟩
  serverClienthelloTime := none
  serverHelloPreparation := none
  clientHelloSent := none
  clientHelloRtt := none
  clientValidationDelay := none
  clientReady := false
  logged _ := false
  pending _ := none

def HandshakeTiming.setStage (tm : HandshakeTiming) (s : Stage) (st : StageState) :
    HandshakeTiming :=
  { tm with stage := Function.update tm.stage s st }

def HandshakeTiming.setLogged (tm : HandshakeTiming) (f : Logged) : HandshakeTiming :=
  { tm with logged := Function.update tm.logged f true }

def HandshakeTiming.setPending (tm : HandshakeTiming) (slot : Slot) (line : Option Line) :
    HandshakeTiming :=
  { tm with pending := Function.update tm.pending slot line }

variable (tm : HandshakeTiming)

@[simp] theorem HandshakeTiming.setLogged_logged (f g : Logged) :
    (tm.setLogged f).logged g = if g = f then true else tm.logged g := by
  simp [setLogged, Function.update_apply]

@[simp] theorem HandshakeTiming.setLogged_pending (f : Logged) :
    (tm.setLogged f).pending = tm.pending := rfl

@[simp] theorem HandshakeTiming.setPending_logged (slot : Slot) (line : Option Line) :
    (tm.setPending slot line).logged = tm.logged := rfl

@[simp] theorem HandshakeTiming.setPending_pending (slot t : Slot) (line : Option Line) :
    (tm.setPending slot line).pending t = if t = slot then line else tm.pending t := by
  simp [setPending, Function.update_apply]

/-- A recorded stage value. -/
def HandshakeTiming.value (tm : HandshakeTiming) (s : Stage) : Option ℕ := (tm.stage s).value

@[simp] theorem HandshakeTiming.setLogged_value (f : Logged) :
    (tm.setLogged f).value = tm.value := rfl

@[simp] theorem HandshakeTiming.setPending_value (slot : Slot) (line : Option Line) :
    (tm.setPending slot line).value = tm.value := rfl

/-! ### Stages -/

/-- `quic_timing_stage_begin`, behind the check of the `have_` flag that all its callers make. -/
def quicTimingStageBegin (now : OsslTime) (st : StageState) : StageState :=
  if st.value.isSome || st.active then st else ⟨true, now, st.value⟩

/-- `quic_timing_stage_complete`. -/
def quicTimingStageComplete (now : OsslTime) (st : StageState) : StageState :=
  if !st.active || st.value.isSome then st else ⟨false, st.start, some ((now : ℕ) - st.start)⟩

/-- `quic_timing_stage_abort`. -/
def quicTimingStageAbort (st : StageState) : StageState := { st with active := false }

/-! ### INTERNAL lines of TLS callbacks -/

/-- The line that is written when a stage is completed: its flag, label and metric. -/
def completionLine : Stage → Option (Logged × Label × Metric)
  | .clientCertChain => some (.clientCert, .certificateProcessed, .clientCertificateProcess)
  | .clientCvCheck => some (.clientCv, .certificateVerifyCheck, .clientCertVerifyCheck)
  | .serverCertBuild => some (.serverCert, .certificateBuild, .serverCertificateBuild)
  | .serverCertVerify => some (.serverCv, .certificateVerifySign, .serverCertVerifySign)
  | .serverHandshakeBuild => some (.serverHsbuild, .handshakeBuild, .serverHandshakePreparation)
  | _ => none

/-- `quic_timing_emit_single_metric_line`, where the stage has a value and its line is not yet
written. -/
def emitSingleMetricLine (isServer : Bool) (now : OsslTime) (tm : HandshakeTiming) (s : Stage) :
    List Line × HandshakeTiming :=
  match completionLine s with
  | none => ([], tm)
  | some (flag, label, metric) =>
    if (tm.value s).isSome && !tm.logged flag then
      ([.internal ⟨now, isServer, label, [.metric metric (tm.value s)]⟩], tm.setLogged flag)
    else ([], tm)

/-- `quic_timing_flush_buffer`. -/
def quicTimingFlushBuffer (tm : HandshakeTiming) (slot : Slot) :
    List Line × HandshakeTiming :=
  ((tm.pending slot).toList, tm.setPending slot none)

/-- `quic_timing_maybe_log_server_hello_build`. -/
def quicTimingMaybeLogServerHelloBuild (isServer : Bool) (now : OsslTime) (tm : HandshakeTiming) :
    List Line × HandshakeTiming :=
  if tm.logged .serverShprep || (tm.value .serverKex).isNone ||
    tm.serverHelloPreparation.isNone then
    ([], tm)
  else
    let line := .internal ⟨now, isServer, .serverHelloBuild,
      [.metric .serverKeyExchangeLatency (tm.value .serverKex),
        .metric .serverHelloPreparation tm.serverHelloPreparation]⟩
    let (flushed, tm) := quicTimingFlushBuffer tm .serverInitial
    (line :: flushed, (tm.setLogged .serverShprep).setLogged .serverClient)

/-- The calls that the TLS state machine makes. -/
inductive TimingCall
  | begin (s : Stage)
  | complete (s : Stage)
  | abort (s : Stage)
  | clientHelloSent
  | clientProcessedServerHello
  | serverClientHelloProcessBegin
  | serverClientHelloProcessed
  | serverHelloReady
  deriving DecidableEq, Repr

/-- `ossl_quic_timing_server_client_hello_processed`. -/
def serverClientHelloProcessed (now : OsslTime) (tm : HandshakeTiming) : HandshakeTiming :=
  if tm.serverClienthelloTime.isSome then tm
  else
    { tm with
      serverClienthelloProcess := quicTimingStageComplete now tm.serverClienthelloProcess
      serverClienthelloTime := some (now : ℕ) }

/-- A call at time `now`; a line it writes is stamped with the later time `lineNow`. -/
def timingCall (isServer : Bool) (now lineNow : OsslTime) (tm : HandshakeTiming) :
    TimingCall → List Line × HandshakeTiming
  | .begin s => ([], tm.setStage s (quicTimingStageBegin now (tm.stage s)))
  | .complete .clientCvCheck =>
    let tm := tm.setStage .clientCvCheck (quicTimingStageComplete now (tm.stage .clientCvCheck))
    emitSingleMetricLine isServer lineNow { tm with clientReady := true } .clientCvCheck
  | .complete .serverKex =>
    quicTimingMaybeLogServerHelloBuild isServer lineNow
      (tm.setStage .serverKex (quicTimingStageComplete now (tm.stage .serverKex)))
  | .complete s =>
    emitSingleMetricLine isServer lineNow
      (tm.setStage s (quicTimingStageComplete now (tm.stage s))) s
  | .abort s => ([], tm.setStage s (quicTimingStageAbort (tm.stage s)))
  | .clientHelloSent =>
    ([], if tm.clientHelloSent.isSome then tm else { tm with clientHelloSent := some (now : ℕ) })
  | .clientProcessedServerHello =>
    match tm.clientHelloSent, tm.clientHelloRtt with
    | some sent, none => ([], { tm with clientHelloRtt := some ((now : ℕ) - sent) })
    | _, _ => ([], tm)
  | .serverClientHelloProcessBegin =>
    ([], { tm with
      serverClienthelloProcess := quicTimingStageBegin now tm.serverClienthelloProcess })
  | .serverClientHelloProcessed => ([], serverClientHelloProcessed now tm)
  | .serverHelloReady =>
    match tm.serverClienthelloTime, tm.serverHelloPreparation with
    | some time, none =>
      quicTimingMaybeLogServerHelloBuild isServer lineNow
        { tm with serverHelloPreparation := some ((now : ℕ) - time) }
    | _, _ => ([], tm)

/-- All stages but the key exchange of the server are completed in one way. -/
theorem timingCall_complete {s : Stage} (hs : s ≠ .serverKex) (isServer : Bool)
    (now lineNow : OsslTime) (tm : HandshakeTiming) :
    timingCall isServer now lineNow tm (.complete s) =
      emitSingleMetricLine isServer lineNow
        { tm.setStage s (quicTimingStageComplete now (tm.stage s)) with
          clientReady := if s = .clientCvCheck then true else tm.clientReady } s := by
  cases s <;> first | exact absurd rfl hs | rfl

/-! ### INTERNAL lines of packet events -/

/-- `OSSL_QUIC_TIMING_PHASE`. -/
inductive Phase
  | before | after
  deriving DecidableEq, Repr

/-- What a packet event is logged with: the time, whether memory is there for partial messages, for
the BIO of the line and for a held line, and what `SSL_get_handshake_rtt` returns. Once there is a
BIO its writes are taken to succeed: one that cannot grow would drop a field of the line. -/
structure LogInput where
  now : OsslTime
  hsAlloc : ℕ → Bool
  lineAlloc : Bool
  storeAlloc : Bool
  handshakeRtt : Option ℕ

/-- A function that writes lines, and then another one. -/
def andThen (f g : HandshakeTiming → List Line × HandshakeTiming) (tm : HandshakeTiming) :
    List Line × HandshakeTiming :=
  ((f tm).1 ++ (g (f tm).2).1, (g (f tm).2).2)

/-- `CLIENT HELLO BUILD`, before the first packet sent. -/
def emitClientHelloBuild (event : EventKey) (now : OsslTime) (tm : HandshakeTiming) :
    List Line × HandshakeTiming :=
  if !tm.logged .clientCh && event.isSend && (tm.value .clientKeyshare).isSome &&
      (tm.value .clientHelloBuild).isSome then
    ([.internal ⟨now, event.isServer, .clientHelloBuild,
      [.metric .clientKeyshareGeneration (tm.value .clientKeyshare),
        .metric .clientHelloBuild (tm.value .clientHelloBuild)]⟩], tm.setLogged .clientCh)
  else ([], tm)

/-- `SERVER HELLO PROCESSED`, before a packet received. -/
def emitServerHelloProcessed (event : EventKey) (now : OsslTime) (tm : HandshakeTiming) :
    List Line × HandshakeTiming :=
  if !tm.logged .clientSh && !event.isSend && tm.clientHelloRtt.isSome &&
      (tm.value .clientKex).isSome then
    ([.internal ⟨now, event.isServer, .serverHelloProcessed,
      [.metric .clientHelloRoundTrip tm.clientHelloRtt,
        .metric .clientKeyExchangeLatency (tm.value .clientKex)]⟩], tm.setLogged .clientSh)
  else ([], tm)

/-- `HANDSHAKE DONE` of a client, which lets the held Finished line go. -/
def emitClientHandshakeDone (event : EventKey) (inp : LogInput) (tm : HandshakeTiming) :
    List Line × HandshakeTiming :=
  if !tm.logged .clientHsDone && tm.clientReady then
    let (flushed, tm) := quicTimingFlushBuffer tm .clientFinished
    (.internal ⟨inp.now, event.isServer, .handshakeDone, [.handshakeLatency inp.handshakeRtt]⟩ ::
      flushed, tm.setLogged .clientHsDone)
  else ([], tm)

/-- `CLIENT VALIDATED`, after the first Handshake packet received. -/
def clientValidates (event : EventKey) (tm : HandshakeTiming) : Bool :=
  !tm.logged .serverValidated && !event.isSend && event.encLevel = .handshake &&
    tm.serverClienthelloTime.isSome

/-- The line and the recorded delay of `CLIENT VALIDATED`. -/
def emitClientValidated (event : EventKey) (now : OsslTime) (tm : HandshakeTiming) :
    List Line × HandshakeTiming :=
  let delay := some ((now : ℕ) - tm.serverClienthelloTime.getD 0)
  ([.internal ⟨now, event.isServer, .clientValidated,
    [.metric .clientValidationDelay delay, .serverCreditUnlimited]⟩],
    { tm.setLogged .serverValidated with clientValidationDelay := delay })

/-- `HANDSHAKE DONE` of a server, which lets the line held for it go. -/
def emitServerHandshakeDone (event : EventKey) (now : OsslTime) (mask : ℕ) (tm : HandshakeTiming) :
    List Line × HandshakeTiming :=
  if !tm.logged .serverHsDone && event.isSend && mask &&& tlsEventHandshakeDone ≠ 0 then
    let (flushed, tm) := quicTimingFlushBuffer tm .serverHandshakeDone
    (.internal ⟨now, event.isServer, .handshakeDone, []⟩ :: flushed, tm.setLogged .serverHsDone)
  else ([], tm)

/-- `ossl_quic_timing_maybe_emit_internal`. -/
def maybeEmitInternal (event : EventKey) (inp : LogInput) (mask : ℕ) (tm : HandshakeTiming) :
    Phase → List Line × HandshakeTiming
  | .before =>
    if event.isServer then emitServerHandshakeDone event inp.now mask tm
    else
      andThen (emitClientHelloBuild event inp.now) (andThen
        (emitServerHelloProcessed event inp.now) (emitClientHandshakeDone event inp)) tm
  | .after =>
    if event.isServer && clientValidates event tm then emitClientValidated event inp.now tm
    else ([], tm)

/-! ### Packet events -/

/-- The slot in which a packet line is held, when it is. -/
def holdingSlot (event : EventKey) (mask : ℕ) (storeAlloc : Bool) (tm : HandshakeTiming) :
    Option Slot :=
  if event.isServer && event.isSend && mask &&& packetLogEventMaskForType 2 ≠ 0 &&
      !tm.logged .serverClient && (tm.pending .serverInitial).isNone && storeAlloc then
    some .serverInitial
  else if !event.isServer && event.isSend && mask &&& packetLogEventMaskForType 20 ≠ 0 &&
      !tm.logged .clientHsDone && (tm.pending .clientFinished).isNone && storeAlloc then
    some .clientFinished
  else if event.isServer && event.isSend && mask &&& tlsEventHandshakeDone ≠ 0 &&
      !tm.logged .serverHsDone && (tm.pending .serverHandshakeDone).isNone && storeAlloc then
    some .serverHandshakeDone
  else none

/-- A packet line is held or written. -/
def writeLine (event : EventKey) (mask : ℕ) (storeAlloc : Bool) (line : Line)
    (tm : HandshakeTiming) : List Line × HandshakeTiming :=
  match holdingSlot event mask storeAlloc tm with
  | some slot => ([], tm.setPending slot (some line))
  | none => ([line], tm)

/-- `ossl_quic_packet_log`; `none` when the frames of the payload are walked over forever. -/
def packetLog (lib : X509Lib) (inp : LogInput) (log : LogState) (tm : HandshakeTiming)
    (event : PacketLogEvent) : Option (List Line × LogState × HandshakeTiming) :=
  if inp.lineAlloc then
    (packetLogAppendFrames lib event.toEventKey inp.hsAlloc event.payload.length ⟨0, log⟩
      event.payload).map fun r =>
        let mask := r.state.mask
        let line := .packet ⟨inp.now, event, r.specs, r.ok⟩
        let (before, tm) := maybeEmitInternal event.toEventKey inp mask tm .before
        let (written, tm) := writeLine event.toEventKey mask inp.storeAlloc line tm
        let (after, tm) := maybeEmitInternal event.toEventKey inp mask tm .after
        (before ++ written ++ after, r.state.log, tm)
  else some ([], log, tm)

/-- What a packet line that is formatted does: INTERNAL lines come before it, it is written or held,
and INTERNAL lines come after it. -/
def logPacket (event : EventKey) (inp : LogInput) (mask : ℕ) (line : Line) :
    HandshakeTiming → List Line × HandshakeTiming :=
  andThen (maybeEmitInternal event inp mask · .before) (andThen
    (writeLine event mask inp.storeAlloc line) (maybeEmitInternal event inp mask · .after))

theorem packetLog_eq (lib : X509Lib) (inp : LogInput) (log : LogState) (tm : HandshakeTiming)
    (event : PacketLogEvent) : packetLog lib inp log tm event =
      if inp.lineAlloc then
        (packetLogAppendFrames lib event.toEventKey inp.hsAlloc event.payload.length ⟨0, log⟩
          event.payload).map fun r =>
            let out := logPacket event.toEventKey inp r.state.mask
              (.packet ⟨inp.now, event, r.specs, r.ok⟩) tm
            (out.1, r.state.log, out.2)
      else some ([], log, tm) := by
  simp only [packetLog, logPacket, andThen, List.append_assoc]

/-! ### What becomes of held lines -/

/-- Lines are written while held lines may be let go: INTERNAL lines, and lines from the slots. -/
inductive Moves : (Slot → Option Line) → List Line → (Slot → Option Line) → Prop
  | nil (p : Slot → Option Line) : Moves p [] p
  | internal (l : InternalLine) {p q : Slot → Option Line} {lines : List Line} :
    Moves p lines q → Moves p (.internal l :: lines) q
  | flush (slot : Slot) {p q : Slot → Option Line} {lines : List Line} :
    Moves (Function.update p slot none) lines q → Moves p ((p slot).toList ++ lines) q

theorem Moves.append {p q r : Slot → Option Line} {a b : List Line} (ha : Moves p a q)
    (hb : Moves q b r) : Moves p (a ++ b) r := by
  induction ha with
  | nil p => exact hb
  | internal l _ ih => exact .internal l (ih hb)
  | flush slot _ ih =>
    rw [List.append_assoc]
    exact .flush slot (ih hb)

/-- What is written for a packet: its line comes at its place, or a packet that is sent has it held
in a free slot. -/
inductive Logs (line : Line) (isSend : Bool) :
    (Slot → Option Line) → List Line → (Slot → Option Line) → Prop
  | written {p q r : Slot → Option Line} {a b : List Line} : Moves p a q → Moves q b r →
    Logs line isSend p (a ++ [line] ++ b) r
  | held (slot : Slot) {p q r : Slot → Option Line} {a b : List Line} : isSend = true →
    Moves p a q → q slot = none → Moves (Function.update q slot (some line)) b r →
    Logs line isSend p (a ++ b) r

/-- What holds of INTERNAL lines and of all held lines holds of the lines that are written. -/
theorem Moves.forall {good : Line → Prop} {a b : Slot → Option Line} {lines : List Line}
    (h : Moves a lines b) (hi : ∀ l, good (.internal l))
    (ha : ∀ slot line, a slot = some line → good line) :
    (∀ line ∈ lines, good line) ∧ ∀ slot line, b slot = some line → good line := by
  induction h with
  | nil => exact ⟨by simp, ha⟩
  | internal l _ ih =>
    obtain ⟨hl, hb⟩ := ih ha
    refine ⟨fun line hm => ?_, hb⟩
    rcases List.mem_cons.mp hm with rfl | hm
    · exact hi l
    · exact hl line hm
  | @flush slot a b lines _ ih =>
    obtain ⟨hl, hb⟩ := ih fun s line hs => by
      by_cases he : s = slot
      · subst he
        rw [Function.update_self] at hs
        cases hs
      · rw [Function.update_of_ne he] at hs
        exact ha s line hs
    refine ⟨fun line hm => ?_, hb⟩
    rcases List.mem_append.mp hm with hm | hm
    · exact ha slot line (Option.mem_toList.mp hm)
    · exact hl line hm

theorem Logs.forall {good : Line → Prop} {line : Line} {isSend : Bool} {a b : Slot → Option Line}
    {lines : List Line} (h : Logs line isSend a lines b) (hi : ∀ l, good (.internal l))
    (hline : good line) (ha : ∀ slot l, a slot = some l → good l) :
    (∀ l ∈ lines, good l) ∧ ∀ slot l, b slot = some l → good l := by
  cases h with
  | written h1 h2 =>
    obtain ⟨hl1, hb1⟩ := h1.forall hi ha
    obtain ⟨hl2, hb2⟩ := h2.forall hi hb1
    refine ⟨fun l hm => ?_, hb2⟩
    rcases List.mem_append.mp hm with hm | hm
    · rcases List.mem_append.mp hm with hm | hm
      · exact hl1 l hm
      · rw [List.mem_singleton.mp hm]
        exact hline
    · exact hl2 l hm
  | held slot _ h1 _ h2 =>
    obtain ⟨hl1, hb1⟩ := h1.forall hi ha
    obtain ⟨hl2, hb2⟩ := h2.forall hi fun s l hs => by
      by_cases he : s = slot
      · subst he
        rw [Function.update_self] at hs
        cases hs
        exact hline
      · rw [Function.update_of_ne he] at hs
        exact hb1 s l hs
    refine ⟨fun l hm => ?_, hb2⟩
    rcases List.mem_append.mp hm with hm | hm
    · exact hl1 l hm
    · exact hl2 l hm

theorem moves_singleton (l : InternalLine) (p : Slot → Option Line) : Moves p [.internal l] p :=
  .internal l (.nil p)

/-- All that a step which only announces something can do: nothing, or one line and its flag. -/
inductive Announces (label : Label) (flag : Logged) (tm : HandshakeTiming) :
    List Line × HandshakeTiming → Prop
  | nothing : Announces label flag tm ([], tm)
  | line (l : InternalLine) : l.label = label →
    Announces label flag tm ([.internal l], tm.setLogged flag)

theorem announces_emitClientHelloBuild (event : EventKey) (now : OsslTime) (tm : HandshakeTiming) :
    Announces .clientHelloBuild .clientCh tm (emitClientHelloBuild event now tm) := by
  unfold emitClientHelloBuild
  split_ifs
  · exact .line _ rfl
  · exact .nothing

theorem announces_emitServerHelloProcessed (event : EventKey) (now : OsslTime)
    (tm : HandshakeTiming) :
    Announces .serverHelloProcessed .clientSh tm (emitServerHelloProcessed event now tm) := by
  unfold emitServerHelloProcessed
  split_ifs
  · exact .line _ rfl
  · exact .nothing

variable {r : List Line × HandshakeTiming}

theorem Announces.pending {label : Label} {flag : Logged} {tm : HandshakeTiming}
    (h : Announces label flag tm r) : r.2.pending = tm.pending := by
  cases h <;> rfl

theorem Announces.clientReady {label : Label} {flag : Logged} {tm : HandshakeTiming}
    (h : Announces label flag tm r) :
    r.2.clientReady = tm.clientReady := by
  cases h <;> rfl

theorem Announces.moves {label : Label} {flag : Logged} {tm : HandshakeTiming}
    (h : Announces label flag tm r) :
    Moves tm.pending r.1 r.2.pending := by
  cases h with
  | nothing => exact .nil _
  | line l => exact moves_singleton _ _

section Pending

variable {p : Slot → Option Line} {tm : HandshakeTiming}

/-- An INTERNAL line and then the line of a slot. -/
theorem moves_flush (hp : tm.pending = p) (l : InternalLine) (slot : Slot) :
    Moves p (.internal l :: (quicTimingFlushBuffer tm slot).1)
      (quicTimingFlushBuffer tm slot).2.pending := by
  subst hp
  have h := Moves.flush slot (.nil (Function.update tm.pending slot none))
  rw [List.append_nil] at h
  exact .internal l h

theorem moves_emitSingleMetricLine (hp : tm.pending = p) (isServer : Bool) (now : OsslTime)
    (s : Stage) : Moves p (emitSingleMetricLine isServer now tm s).1
      (emitSingleMetricLine isServer now tm s).2.pending := by
  subst hp
  unfold emitSingleMetricLine
  split
  · exact .nil _
  · split_ifs
    · exact moves_singleton _ _
    · exact .nil _

theorem moves_serverHelloBuild (hp : tm.pending = p) (isServer : Bool) (now : OsslTime) :
    Moves p (quicTimingMaybeLogServerHelloBuild isServer now tm).1
      (quicTimingMaybeLogServerHelloBuild isServer now tm).2.pending := by
  unfold quicTimingMaybeLogServerHelloBuild
  split_ifs
  · exact hp ▸ .nil _
  · exact moves_flush hp _ .serverInitial

end Pending

/-- **A TLS callback** writes INTERNAL lines and lets held lines go. -/
theorem moves_timingCall (isServer : Bool) (now lineNow : OsslTime) (tm : HandshakeTiming)
    (call : TimingCall) :
    Moves tm.pending (timingCall isServer now lineNow tm call).1
      (timingCall isServer now lineNow tm call).2.pending := by
  unfold timingCall
  split
  case h_2 => exact moves_emitSingleMetricLine (by rfl) isServer lineNow .clientCvCheck
  case h_3 => exact moves_serverHelloBuild (by rfl) isServer lineNow
  case h_4 s _ _ => exact moves_emitSingleMetricLine (by rfl) isServer lineNow s
  case h_6 => split_ifs <;> exact .nil _
  case h_7 => split <;> exact .nil _
  case h_9 =>
    unfold serverClientHelloProcessed
    split_ifs <;> exact .nil _
  case h_10 =>
    split
    · exact moves_serverHelloBuild (by rfl) isServer lineNow
    · exact .nil _
  all_goals exact .nil _

theorem moves_andThen {f g : HandshakeTiming → List Line × HandshakeTiming}
    (hf : ∀ tm, Moves tm.pending (f tm).1 (f tm).2.pending)
    (hg : ∀ tm, Moves tm.pending (g tm).1 (g tm).2.pending) (tm : HandshakeTiming) :
    Moves tm.pending (andThen f g tm).1 (andThen f g tm).2.pending :=
  (hf tm).append (hg _)

theorem moves_maybeEmitInternal (event : EventKey) (inp : LogInput) (mask : ℕ)
    (tm : HandshakeTiming) (phase : Phase) :
    Moves tm.pending (maybeEmitInternal event inp mask tm phase).1
      (maybeEmitInternal event inp mask tm phase).2.pending := by
  have hch (tm : HandshakeTiming) := (announces_emitClientHelloBuild event inp.now tm).moves
  have hsh (tm : HandshakeTiming) := (announces_emitServerHelloProcessed event inp.now tm).moves
  have hcd (tm : HandshakeTiming) : Moves tm.pending (emitClientHandshakeDone event inp tm).1
      (emitClientHandshakeDone event inp tm).2.pending := by
    unfold emitClientHandshakeDone
    split_ifs
    · exact moves_flush rfl _ .clientFinished
    · exact .nil _
  unfold maybeEmitInternal
  split
  · split_ifs
    · unfold emitServerHandshakeDone
      split_ifs
      · exact moves_flush rfl _ .serverHandshakeDone
      · exact .nil _
    · exact moves_andThen hch (moves_andThen hsh hcd) tm
  · split_ifs
    · exact moves_singleton _ _
    · exact .nil _

/-- A slot that is used is free, and used by packets that are sent only. -/
theorem holdingSlot_spec {event : EventKey} {mask : ℕ} {alloc : Bool} {tm : HandshakeTiming}
    {slot : Slot} (h : holdingSlot event mask alloc tm = some slot) :
    event.isSend = true ∧ tm.pending slot = none := by
  unfold holdingSlot at h
  split_ifs at h with h1 h2 h3 <;> obtain rfl := Option.some.inj h
  · simp only [Bool.and_eq_true, Option.isNone_iff_eq_none] at h1
    exact ⟨h1.1.1.1.1.2, h1.1.2⟩
  · simp only [Bool.and_eq_true, Option.isNone_iff_eq_none] at h2
    exact ⟨h2.1.1.1.1.2, h2.1.2⟩
  · simp only [Bool.and_eq_true, Option.isNone_iff_eq_none] at h3
    exact ⟨h3.1.1.1.1.2, h3.1.2⟩

/-- **A packet line** is added at most once, and what else is written are INTERNAL lines and lines
that were held. -/
theorem logs_logPacket (event : EventKey) (inp : LogInput) (mask : ℕ) (line : Line)
    (tm : HandshakeTiming) :
    Logs line event.isSend tm.pending (logPacket event inp mask line tm).1
      (logPacket event inp mask line tm).2.pending := by
  have hb := moves_maybeEmitInternal event inp mask tm .before
  simp only [logPacket, andThen]
  generalize maybeEmitInternal event inp mask tm .before = before at hb ⊢
  rcases hs : holdingSlot event mask inp.storeAlloc before.2 with _ | slot
  · simp only [writeLine, hs, ← List.append_assoc]
    exact .written hb (moves_maybeEmitInternal _ _ _ _ _)
  · obtain ⟨hsend, hfree⟩ := holdingSlot_spec hs
    simp only [writeLine, hs, List.nil_append]
    exact .held slot hsend hb hfree
      (moves_maybeEmitInternal event inp mask (before.2.setPending slot _) .after)

theorem packetLog_spec {lib : X509Lib} {inp : LogInput} {log log' : LogState}
    {tm tm' : HandshakeTiming} {event : PacketLogEvent} {lines : List Line}
    (h : packetLog lib inp log tm event = some (lines, log', tm')) :
    (inp.lineAlloc = false ∧ lines = [] ∧ log' = log ∧ tm' = tm) ∨
      ∃ r, packetLogAppendFrames lib event.toEventKey inp.hsAlloc event.payload.length ⟨0, log⟩
          event.payload = some r ∧ log' = r.state.log ∧
        Logs (.packet ⟨inp.now, event, r.specs, r.ok⟩) event.isSend tm.pending lines
          tm'.pending := by
  rw [packetLog_eq] at h
  split_ifs at h with ha
  · right
    obtain ⟨r, hr, he⟩ := Option.map_eq_some_iff.mp h
    simp only [Prod.mk.injEq] at he
    obtain ⟨rfl, rfl, rfl⟩ := he
    exact ⟨r, hr, rfl, logs_logPacket _ _ _ _ _⟩
  · left
    simp only [Option.some.injEq, Prod.mk.injEq] at h
    exact ⟨by simpa using ha, h.1.symm, h.2.1.symm, h.2.2.symm⟩

end PapQuic.Log.Timing
