import PapQuic.Log.Conservation

/-! # The stages of a handshake

Whatever the order of TLS callbacks and packet events on a connection, each INTERNAL line is written
once, what has been recorded stays as it is, a line shows only what has been recorded, and a stage
is recorded as the time from its first begin since the last abort (`stages_run`). -/

namespace PapQuic.Log.Stages

open Lib.Run Log.Metadata Log.Clock Log.FrameList Log.Lines
open Log.Timing Log.Output Log.Conservation

/-! ### What is recorded and what is shown -/

/-- The `have_` flags. -/
inductive Have
  | stage (s : Stage) | serverClienthelloProcess | serverClienthelloTime | serverHelloPreparation
  | clientHelloSent | clientHelloRtt | clientValidationDelay
  deriving DecidableEq, Repr

/-- The value of a flag that is set. -/
def recorded (tm : HandshakeTiming) : Have → Option ℕ
  | .stage s => tm.value s
  | .serverClienthelloProcess => tm.serverClienthelloProcess.value
  | .serverClienthelloTime => tm.serverClienthelloTime
  | .serverHelloPreparation => tm.serverHelloPreparation
  | .clientHelloSent => tm.clientHelloSent
  | .clientHelloRtt => tm.clientHelloRtt
  | .clientValidationDelay => tm.clientValidationDelay

/-- The flag of a metric. -/
def metricFlag : Metric → Have
  | .clientKeyshareGeneration => .stage .clientKeyshare
  | .clientHelloBuild => .stage .clientHelloBuild
  | .clientHelloRoundTrip => .clientHelloRtt
  | .clientKeyExchangeLatency => .stage .clientKex
  | .clientCertificateProcess => .stage .clientCertChain
  | .clientCertVerifyCheck => .stage .clientCvCheck
  | .serverKeyExchangeLatency => .stage .serverKex
  | .serverHelloPreparation => .serverHelloPreparation
  | .serverCertificateBuild => .stage .serverCertBuild
  | .serverCertVerifySign => .stage .serverCertVerify
  | .serverHandshakePreparation => .stage .serverHandshakeBuild
  | .clientValidationDelay => .clientValidationDelay

/-- The flag that is set when a line with the label has been written. -/
def labelFlag (isServer : Bool) : Label → Logged
  | .clientHelloBuild => .clientCh
  | .serverHelloProcessed => .clientSh
  | .handshakeDone => if isServer then .serverHsDone else .clientHsDone
  | .certificateProcessed => .clientCert
  | .certificateVerifyCheck => .clientCv
  | .serverHelloBuild => .serverShprep
  | .certificateBuild => .serverCert
  | .certificateVerifySign => .serverCv
  | .handshakeBuild => .serverHsbuild
  | .clientValidated => .serverValidated

def hasLabel (label : Label) : Line → Bool
  | .packet _ => false
  | .internal l => l.label = label

/-- The metrics of a line are those recorded. -/
def Shows (tm : HandshakeTiming) (l : Line) : Prop :=
  match l with
  | .packet _ => True
  | .internal l =>
    ∀ m v, Item.metric m v ∈ l.items → v.isSome = true ∧ recorded tm (metricFlag m) = v

/-! ### What a step can do -/

/-- A validation delay is recorded only when its line is written. -/
def Validated (tm : HandshakeTiming) : Prop :=
  recorded tm .clientValidationDelay ≠ none → tm.logged .serverValidated = true

/-- A part of a run: what is recorded stays, a line is written only with its flag clear, and shows
what is recorded. -/
structure Proceeds (role : Bool) (tm : HandshakeTiming) (lines : List Line)
    (tm' : HandshakeTiming) : Prop where
  keeps : ∀ h v, recorded tm h = some v → recorded tm' h = some v
  once : ∀ label, lines.countP (hasLabel label) + (tm.logged (labelFlag role label)).toNat ≤
    (tm'.logged (labelFlag role label)).toNat
  shows : ∀ l ∈ lines, Shows tm' l
  validated : Validated tm → Validated tm'

section Proceeds

variable {role : Bool} {tm tm' tm'' : HandshakeTiming} {a b : List Line}

theorem Shows.mono {l : Line} (h : Shows tm l)
    (hk : ∀ h v, recorded tm h = some v → recorded tm' h = some v) : Shows tm' l := by
  cases l with
  | packet l => trivial
  | internal l =>
    intro m v hm
    obtain ⟨hv, hr⟩ := h m v hm
    obtain ⟨w, rfl⟩ := Option.isSome_iff_exists.mp hv
    exact ⟨rfl, hk _ _ hr⟩

theorem Proceeds.refl (role : Bool) (tm : HandshakeTiming) : Proceeds role tm [] tm :=
  ⟨fun _ _ h => h, fun _ => by simp, by simp, id⟩

theorem Proceeds.append (h : Proceeds role tm a tm') (h' : Proceeds role tm' b tm'') :
    Proceeds role tm (a ++ b) tm'' := by
  refine ⟨fun k v hv => h'.keeps k v (h.keeps k v hv), fun label => ?_, fun l hl => ?_,
    fun hv => h'.validated (h.validated hv)⟩
  · have h1 := h.once label
    have h2 := h'.once label
    rw [List.countP_append]
    omega
  · rcases List.mem_append.mp hl with hl | hl
    · exact (h.shows l hl).mono h'.keeps
    · exact h'.shows l hl

theorem Proceeds.next (h : Proceeds role tm [] tm') (h' : Proceeds role tm' b tm'') :
    Proceeds role tm b tm'' :=
  h.append h'

/-- Something is recorded, and nothing is written. -/
theorem proceeds_record (hl : tm'.logged = tm.logged)
    (hd : recorded tm' .clientValidationDelay = recorded tm .clientValidationDelay)
    (hk : ∀ h v, recorded tm h = some v → recorded tm' h = some v) : Proceeds role tm [] tm' :=
  ⟨hk, fun _ => by simp [hl], by simp, by rw [Validated, Validated, hl, hd]; exact id⟩

theorem recorded_setLogged (f : Logged) : recorded (tm.setLogged f) = recorded tm := by
  funext h
  cases h <;> rfl

theorem recorded_setPending (slot : Slot) (line : Option Line) :
    recorded (tm.setPending slot line) = recorded tm := by
  funext h
  cases h <;> rfl

theorem proceeds_setLogged (role : Bool) (tm : HandshakeTiming) (f : Logged) :
    Proceeds role tm [] (tm.setLogged f) := by
  refine ⟨fun h v hv => by rw [recorded_setLogged]; exact hv, fun label => ?_, by simp,
    fun hv hd => ?_⟩
  · rw [HandshakeTiming.setLogged_logged]
    split_ifs
    · cases tm.logged (labelFlag role label) <;> simp
    · simp
  · rw [recorded_setLogged] at hd
    rw [HandshakeTiming.setLogged_logged, hv hd, ite_self]

theorem Proceeds.setLogged (h : Proceeds role tm a tm') (f : Logged) :
    Proceeds role tm a (tm'.setLogged f) := by
  have h' := h.append (proceeds_setLogged role tm' f)
  rwa [List.append_nil] at h'

/-- An INTERNAL line is written, and its flag is set. -/
theorem proceeds_line {l : InternalLine} {f : Logged} (hf : labelFlag role l.label = f)
    (hl : tm.logged f = false) (hs : Shows tm (.internal l)) :
    Proceeds role tm [.internal l] (tm.setLogged f) := by
  have hset := proceeds_setLogged role tm f
  refine ⟨hset.keeps, fun label => ?_, fun x hx => ?_, hset.validated⟩
  · by_cases he : l.label = label
    · subst he
      simp [hasLabel, hf, hl]
    · simpa [hasLabel, he] using hset.once label
  · rw [List.mem_singleton.mp hx]
    exact hs.mono hset.keeps

/-- Packet lines are written. -/
theorem proceeds_packets {lines : List Line} (hp : ∀ l ∈ lines, isPacket l = true)
    (hl : tm'.logged = tm.logged) (hr : recorded tm' = recorded tm) :
    Proceeds role tm lines tm' := by
  refine ⟨fun h v hv => by rw [hr]; exact hv, fun label => ?_, fun l hm => ?_,
    by rw [Validated, Validated, hr, hl]; exact id⟩
  · have hz : lines.countP (hasLabel label) = 0 := by
      rw [List.countP_eq_zero]
      intro l hm
      have h := hp l hm
      cases l with
      | packet l => simp [hasLabel]
      | internal l => cases h
    rw [hz, hl]
    omega
  · have h := hp l hm
    cases l with
    | packet l => trivial
    | internal l => cases h

theorem proceeds_flush (hp : OnlyPackets tm.pending) (slot : Slot) :
    Proceeds role tm (quicTimingFlushBuffer tm slot).1 (quicTimingFlushBuffer tm slot).2 :=
  proceeds_packets (fun l hl => hp slot l (Option.mem_toList.mp hl)) rfl
    (recorded_setPending slot none)

/-- An INTERNAL line is written, and then the line of a slot. -/
theorem proceeds_line_flush {l : InternalLine} {f : Logged} (hf : labelFlag role l.label = f)
    (hl : tm.logged f = false) (hs : Shows tm (.internal l)) (hp : OnlyPackets tm.pending)
    (slot : Slot) :
    Proceeds role tm (.internal l :: (quicTimingFlushBuffer tm slot).1)
      ((quicTimingFlushBuffer tm slot).2.setLogged f) := by
  have hp' : OnlyPackets (tm.setLogged f).pending := hp
  exact (proceeds_line hf hl hs).append (proceeds_flush hp' slot)

/-- The line of a completed stage. -/
theorem proceeds_emitSingleMetricLine (isServer : Bool) (now : OsslTime) (s : Stage) :
    Proceeds role tm (emitSingleMetricLine isServer now tm s).1
      (emitSingleMetricLine isServer now tm s).2 := by
  unfold emitSingleMetricLine
  split
  · exact .refl role tm
  · next flag label metric hs =>
    have hflag : flag = labelFlag role label ∧ metricFlag metric = .stage s := by
      cases s <;> cases hs <;> exact ⟨rfl, rfl⟩
    split_ifs with hc
    · simp only [Bool.and_eq_true, Bool.not_eq_eq_eq_not, Bool.not_true] at hc
      refine proceeds_line hflag.1.symm hc.2 fun m v hm => ?_
      obtain ⟨rfl, rfl⟩ : m = metric ∧ v = tm.value s := by simpa using hm
      exact ⟨hc.1, by rw [hflag.2]; rfl⟩
    · exact .refl role tm

theorem proceeds_serverHelloBuild (hp : OnlyPackets tm.pending) (isServer : Bool)
    (now : OsslTime) :
    Proceeds role tm (quicTimingMaybeLogServerHelloBuild isServer now tm).1
      (quicTimingMaybeLogServerHelloBuild isServer now tm).2 := by
  unfold quicTimingMaybeLogServerHelloBuild
  split_ifs with hc
  · exact .refl role tm
  · simp only [Bool.or_eq_true, not_or, Bool.not_eq_true, Option.isNone_eq_false_iff] at hc
    obtain ⟨⟨hl, hkex⟩, hprep⟩ := hc
    refine (proceeds_line_flush rfl hl (fun m v hm => ?_) hp .serverInitial).setLogged .serverClient
    simp only [List.mem_cons, Item.metric.injEq, List.not_mem_nil, or_false] at hm
    rcases hm with ⟨rfl, rfl⟩ | ⟨rfl, rfl⟩
    · exact ⟨hkex, rfl⟩
    · exact ⟨hprep, rfl⟩

/-- A stage changes, and keeps a value that it has. -/
theorem proceeds_setStage {s : Stage} {st : StageState}
    (hst : ∀ v, tm.value s = some v → st.value = some v) :
    Proceeds role tm [] (tm.setStage s st) := by
  refine proceeds_record rfl rfl fun h v hv => ?_
  cases h with
  | stage t =>
    by_cases he : t = s
    · subst he
      simpa [recorded, HandshakeTiming.value, HandshakeTiming.setStage] using hst v hv
    · simpa [recorded, HandshakeTiming.value, HandshakeTiming.setStage,
        Function.update_of_ne he] using hv
  | _ => exact hv

theorem value_stageComplete {st : StageState} {v : ℕ} (h : st.value = some v) (now : OsslTime) :
    (quicTimingStageComplete now st).value = some v := by
  simp [quicTimingStageComplete, h]

theorem value_stageBegin (st : StageState) (now : OsslTime) :
    (quicTimingStageBegin now st).value = st.value := by
  unfold quicTimingStageBegin
  split_ifs <;> rfl

/-- **A TLS callback.** -/
theorem proceeds_timingCall (hp : OnlyPackets tm.pending) (isServer : Bool)
    (now lineNow : OsslTime) (call : TimingCall) :
    Proceeds role tm (timingCall isServer now lineNow tm call).1
      (timingCall isServer now lineNow tm call).2 := by
  cases call with
  | begin s =>
    refine proceeds_setStage fun v hv => ?_
    rw [value_stageBegin]
    exact hv
  | complete s =>
    have hset : Proceeds role tm [] (tm.setStage s (quicTimingStageComplete now (tm.stage s))) :=
      proceeds_setStage fun v hv => value_stageComplete hv now
    by_cases hs : s = .serverKex
    · subst hs
      have hp' : OnlyPackets (tm.setStage .serverKex
          (quicTimingStageComplete now (tm.stage .serverKex))).pending := hp
      exact hset.next (proceeds_serverHelloBuild hp' isServer lineNow)
    · rw [timingCall_complete hs]
      refine Proceeds.next ?_ (proceeds_emitSingleMetricLine isServer lineNow s)
      refine hset.next (proceeds_record rfl rfl fun h v hv => ?_)
      cases h <;> exact hv
  | abort s => exact proceeds_setStage fun v hv => hv
  | clientHelloSent =>
    by_cases hsent : tm.clientHelloSent.isSome = true
    · simpa [timingCall, hsent] using Proceeds.refl role tm
    · simp only [timingCall, hsent, Bool.false_eq_true, if_false]
      refine proceeds_record rfl rfl fun h v hv => ?_
      cases h with
      | clientHelloSent =>
        exact absurd (by rw [show tm.clientHelloSent = some v from hv]; rfl) hsent
      | _ => exact hv
  | clientProcessedServerHello =>
    simp only [timingCall]
    split
    · next sent hsent hrtt =>
      refine proceeds_record rfl rfl fun h v hv => ?_
      cases h with
      | clientHelloRtt => exact absurd (hrtt.symm.trans hv) (by simp)
      | _ => exact hv
    · exact .refl role tm
  | serverClientHelloProcessBegin =>
    refine proceeds_record rfl rfl fun h v hv => ?_
    cases h with
    | serverClienthelloProcess => exact (value_stageBegin _ now).trans hv
    | _ => exact hv
  | serverClientHelloProcessed =>
    simp only [timingCall, serverClientHelloProcessed]
    split_ifs with ht
    · exact .refl role tm
    · refine proceeds_record rfl rfl fun h v hv => ?_
      cases h with
      | serverClienthelloProcess => exact value_stageComplete hv now
      | serverClienthelloTime =>
        exact absurd (by rw [show tm.serverClienthelloTime = some v from hv]; rfl) ht
      | _ => exact hv
  | serverHelloReady =>
    simp only [timingCall]
    split
    · next time htime hprep =>
      have hp' : OnlyPackets { tm with
        serverHelloPreparation := some ((now : ℕ) - time) }.pending := hp
      have hset : Proceeds role tm []
          { tm with serverHelloPreparation := some ((now : ℕ) - time) } := by
        refine proceeds_record rfl rfl fun h v hv => ?_
        cases h with
        | serverHelloPreparation => exact absurd (hprep.symm.trans hv) (by simp)
        | _ => exact hv
      exact hset.next (proceeds_serverHelloBuild hp' isServer lineNow)
    · exact .refl role tm

/-! ### Packet events -/

theorem proceeds_emitClientHelloBuild (event : EventKey) (now : OsslTime) :
    Proceeds role tm (emitClientHelloBuild event now tm).1
      (emitClientHelloBuild event now tm).2 := by
  unfold emitClientHelloBuild
  split_ifs with hc
  · simp only [Bool.and_eq_true, Bool.not_eq_eq_eq_not, Bool.not_true] at hc
    obtain ⟨⟨⟨hl, -⟩, hshare⟩, hhello⟩ := hc
    refine proceeds_line rfl hl fun m v hm => ?_
    simp only [List.mem_cons, Item.metric.injEq, List.not_mem_nil, or_false] at hm
    rcases hm with ⟨rfl, rfl⟩ | ⟨rfl, rfl⟩
    · exact ⟨hshare, rfl⟩
    · exact ⟨hhello, rfl⟩
  · exact .refl role tm

theorem proceeds_emitServerHelloProcessed (event : EventKey) (now : OsslTime) :
    Proceeds role tm (emitServerHelloProcessed event now tm).1
      (emitServerHelloProcessed event now tm).2 := by
  unfold emitServerHelloProcessed
  split_ifs with hc
  · simp only [Bool.and_eq_true, Bool.not_eq_eq_eq_not, Bool.not_true] at hc
    obtain ⟨⟨⟨hl, -⟩, hrtt⟩, hkex⟩ := hc
    refine proceeds_line rfl hl fun m v hm => ?_
    simp only [List.mem_cons, Item.metric.injEq, List.not_mem_nil, or_false] at hm
    rcases hm with ⟨rfl, rfl⟩ | ⟨rfl, rfl⟩
    · exact ⟨hrtt, rfl⟩
    · exact ⟨hkex, rfl⟩
  · exact .refl role tm

theorem proceeds_emitClientHandshakeDone (hp : OnlyPackets tm.pending) (event : EventKey)
    (inp : LogInput) :
    Proceeds false tm (emitClientHandshakeDone event inp tm).1
      (emitClientHandshakeDone event inp tm).2 := by
  unfold emitClientHandshakeDone
  split_ifs with hc
  · simp only [Bool.and_eq_true, Bool.not_eq_eq_eq_not, Bool.not_true] at hc
    exact proceeds_line_flush rfl hc.1 (fun m v hm => by simp at hm) hp .clientFinished
  · exact .refl false tm

theorem proceeds_emitServerHandshakeDone (hp : OnlyPackets tm.pending) (event : EventKey)
    (now : OsslTime) (mask : ℕ) :
    Proceeds true tm (emitServerHandshakeDone event now mask tm).1
      (emitServerHandshakeDone event now mask tm).2 := by
  unfold emitServerHandshakeDone
  split_ifs with hc
  · simp only [Bool.and_eq_true, Bool.not_eq_eq_eq_not, Bool.not_true] at hc
    exact proceeds_line_flush rfl hc.1.1 (fun m v hm => by simp at hm) hp .serverHandshakeDone
  · exact .refl true tm

/-- The delay is recorded when it is shown. -/
theorem proceeds_emitClientValidated (hva : Validated tm) {event : EventKey}
    (hv : clientValidates event tm = true) (now : OsslTime) :
    Proceeds role tm (emitClientValidated event now tm).1 (emitClientValidated event now tm).2 := by
  have hl : tm.logged .serverValidated = false := by
    simp only [clientValidates, Bool.and_eq_true, Bool.not_eq_eq_eq_not, Bool.not_true] at hv
    exact hv.1.1.1
  -- The flag and the value are set together; a line without metrics has the same label.
  have hline : Proceeds role tm [.internal ⟨now, event.isServer, .clientValidated, []⟩]
      (tm.setLogged .serverValidated) := proceeds_line rfl hl fun m v hm => by simp at hm
  refine ⟨fun h v hr => ?_, fun label => hline.once label, fun l hm => ?_, fun _ _ => ?_⟩
  · cases h with
    | clientValidationDelay =>
      have h := hva (by rw [hr]; simp)
      rw [hl] at h
      cases h
    | _ => exact hr
  · rw [List.mem_singleton.mp hm]
    intro m v hm
    simp only [List.mem_cons, Item.metric.injEq, reduceCtorEq, List.not_mem_nil, or_false] at hm
    obtain ⟨rfl, rfl⟩ := hm
    exact ⟨rfl, rfl⟩
  · exact HandshakeTiming.setLogged_logged tm .serverValidated .serverValidated

theorem proceeds_maybeEmitInternal (hp : OnlyPackets tm.pending) (hva : Validated tm)
    {event : EventKey} (hrole : event.isServer = role) (inp : LogInput) (mask : ℕ)
    (phase : Phase) :
    Proceeds role tm (maybeEmitInternal event inp mask tm phase).1
      (maybeEmitInternal event inp mask tm phase).2 := by
  subst hrole
  cases phase with
  | before =>
    unfold maybeEmitInternal
    cases hs : event.isServer
    · have hp' : OnlyPackets (emitServerHelloProcessed event inp.now
          (emitClientHelloBuild event inp.now tm).2).2.pending := by
        rw [(announces_emitServerHelloProcessed event inp.now _).pending,
          (announces_emitClientHelloBuild event inp.now tm).pending]
        exact hp
      exact (proceeds_emitClientHelloBuild event inp.now).append
        ((proceeds_emitServerHelloProcessed event inp.now).append
          (proceeds_emitClientHandshakeDone hp' event inp))
    · exact proceeds_emitServerHandshakeDone hp event inp.now mask
  | after =>
    unfold maybeEmitInternal
    dsimp only
    split_ifs with hc
    · exact proceeds_emitClientValidated hva (by simp at hc; exact hc.2) inp.now
    · exact .refl _ tm

/-- **A packet event.** -/
theorem proceeds_logPacket (hp : OnlyPackets tm.pending) (hva : Validated tm) {event : EventKey}
    (hrole : event.isServer = role) (inp : LogInput) (mask : ℕ) (l : PacketLine) :
    Proceeds role tm (logPacket event inp mask (.packet l) tm).1
      (logPacket event inp mask (.packet l) tm).2 := by
  have hbefore := proceeds_maybeEmitInternal hp hva hrole inp mask .before
  obtain ⟨-, hp1⟩ := perm_of_moves (moves_maybeEmitInternal event inp mask tm .before) hp
  generalize hb : maybeEmitInternal event inp mask tm .before = before at hbefore hp1
  have hwrite : Proceeds role before.2 (writeLine event mask inp.storeAlloc (.packet l) before.2).1
        (writeLine event mask inp.storeAlloc (.packet l) before.2).2 ∧
      OnlyPackets (writeLine event mask inp.storeAlloc (.packet l) before.2).2.pending := by
    unfold writeLine
    split
    · next slot _ =>
      exact ⟨proceeds_packets (by simp) rfl (recorded_setPending slot _),
        hp1.update slot (by rintro m ⟨⟩; rfl)⟩
    · exact ⟨proceeds_packets (by simp [isPacket]) rfl rfl, hp1⟩
  have hafter := proceeds_maybeEmitInternal hwrite.2
    (hwrite.1.validated (hbefore.validated hva)) hrole inp mask .after
  simpa only [logPacket, andThen, hb] using hbefore.append (hwrite.1.append hafter)

end Proceeds

/-! ### Runs -/

/-- The role of the connection in a step. -/
def stepRole : SessionStep → Bool
  | .packet _ event => event.isServer
  | .timing isServer .. => isServer

section Runs

variable (lib : X509Lib) {role : Bool}

theorem step_proceeds {s : Session} {x : SessionStep} (hx : stepRole x = role)
    (hp : OnlyPackets s.timing.pending) (hva : Validated s.timing) :
    OnlyPackets (s.step lib x).timing.pending ∧ ∃ out, (s.step lib x).lines = s.lines ++ out ∧
      Proceeds role s.timing out (s.step lib x).timing := by
  cases x with
  | packet inp event =>
    rcases hf : formats lib s (.packet inp event) with _ | ⟨l, mask⟩
    · obtain ⟨hl, ht⟩ := step_of_formats_none hf
      rw [hl, ht]
      exact ⟨hp, [], (List.append_nil _).symm, .refl role s.timing⟩
    · obtain ⟨-, hl, ht⟩ := step_of_formats hf
      rw [hl, ht]
      exact ⟨(perm_of_logs (logs_logPacket _ _ _ _ _) hp).2, _, rfl,
        proceeds_logPacket hp hva hx inp mask l⟩
  | timing isServer call now lineNow =>
    by_cases hh : s.hung = true
    · simp only [Session.step, hh, if_true]
      exact ⟨hp, [], (List.append_nil _).symm, .refl role s.timing⟩
    · simp only [Session.step, hh]
      exact ⟨(perm_of_moves (moves_timingCall isServer now lineNow s.timing call) hp).2, _, rfl,
        proceeds_timingCall hp isServer now lineNow call⟩

theorem run_proceeds :
    ∀ {steps : List SessionStep} {s : Session}, (∀ x ∈ steps, stepRole x = role) →
    OnlyPackets s.timing.pending → Validated s.timing →
    OnlyPackets (run (Session.step lib) s steps).timing.pending ∧
      ∃ out, (run (Session.step lib) s steps).lines = s.lines ++ out ∧
        Proceeds role s.timing out (run (Session.step lib) s steps).timing
  | [], s, _, hp, _ => ⟨hp, [], (List.append_nil _).symm, .refl role s.timing⟩
  | x :: steps, s, hx, hp, hva => by
    obtain ⟨hp1, out1, hl1, h1⟩ := step_proceeds lib (hx x (by simp)) hp hva
    obtain ⟨hp2, out2, hl2, h2⟩ :=
      run_proceeds (fun y hy => hx y (List.mem_cons_of_mem x hy)) hp1 (h1.validated hva)
    rw [run_cons]
    exact ⟨hp2, out1 ++ out2, by rw [hl2, hl1, List.append_assoc], h1.append h2⟩

end Runs

/-! ### Measured time -/

/-- What is measured between two calls. -/
inductive Interval
  | stage (s : Stage) | clientHelloProcess
  deriving DecidableEq, Repr

def Interval.state (tm : HandshakeTiming) : Interval → StageState
  | .stage s => tm.stage s
  | .clientHelloProcess => tm.serverClienthelloProcess

def Interval.beginCall : Interval → TimingCall
  | .stage s => .begin s
  | .clientHelloProcess => .serverClientHelloProcessBegin

def Interval.completeCall : Interval → TimingCall
  | .stage s => .complete s
  | .clientHelloProcess => .serverClientHelloProcessed

def Interval.abortCall : Interval → Option TimingCall
  | .stage s => some (.abort s)
  | .clientHelloProcess => none

def isAbort (i : Interval) : SessionStep → Bool
  | .packet .. => false
  | .timing _ call _ _ => i.abortCall = some call

/-- The time of a begin call. -/
def beginTime (i : Interval) : SessionStep → Option ℕ
  | .packet .. => none
  | .timing _ call now _ => if call = i.beginCall then some (now : ℕ) else none

/-- The steps since the last abort, or since the creation. -/
def sinceAbort (i : Interval) (steps : List SessionStep) : List SessionStep :=
  (steps.reverse.takeWhile fun x => !isAbort i x).reverse

/-- The time of the first begin since then. -/
def firstBegin (i : Interval) (steps : List SessionStep) : Option ℕ :=
  (sinceAbort i steps).findSome? (beginTime i)

/-- The times that the clock shows in a step. -/
def times : SessionStep → List ℕ
  | .packet inp _ => [(inp.now : ℕ)]
  | .timing _ _ now lineNow => [(now : ℕ), (lineNow : ℕ)]

section Measured

variable {tm : HandshakeTiming} {i : Interval} {steps : List SessionStep}

theorem firstBegin_concat (x : SessionStep) : firstBegin i (steps ++ [x]) =
    if isAbort i x then none else (firstBegin i steps).or (beginTime i x) := by
  simp only [firstBegin, sinceAbort, List.reverse_append, List.reverse_cons, List.reverse_nil,
    List.nil_append, List.cons_append, List.takeWhile_cons]
  cases isAbort i x
  · simp [List.findSome?_append]
  · simp

theorem mem_times_of_firstBegin {t : ℕ} (h : firstBegin i steps = some t) :
    t ∈ steps.flatMap times := by
  obtain ⟨x, hx, ht⟩ := List.exists_of_findSome?_eq_some h
  have hm : x ∈ steps := by
    have h := List.takeWhile_sublist (fun x => !isAbort i x) |>.subset (List.mem_reverse.mp hx)
    exact List.mem_reverse.mp h
  refine List.mem_flatMap.mpr ⟨x, hm, ?_⟩
  cases x with
  | packet inp event => cases ht
  | timing isServer call now lineNow =>
    simp only [beginTime] at ht
    split_ifs at ht
    cases ht
    simp [times]

theorem state_emitSingleMetricLine (isServer : Bool) (now : OsslTime) (s : Stage) :
    i.state (emitSingleMetricLine isServer now tm s).2 = i.state tm := by
  unfold emitSingleMetricLine
  split
  · rfl
  · split_ifs <;> cases i <;> rfl

theorem state_serverHelloBuild (isServer : Bool) (now : OsslTime) :
    i.state (quicTimingMaybeLogServerHelloBuild isServer now tm).2 = i.state tm := by
  unfold quicTimingMaybeLogServerHelloBuild
  split_ifs <;> cases i <;> rfl

theorem state_setStage (s : Stage) (st : StageState) :
    i.state (tm.setStage s st) = if i = .stage s then st else i.state tm := by
  cases i with
  | stage t => simp [Interval.state, HandshakeTiming.setStage, Function.update_apply]
  | clientHelloProcess => rfl

theorem state_complete (isServer : Bool) (now lineNow : OsslTime) (s : Stage) :
    i.state (timingCall isServer now lineNow tm (.complete s)).2 =
      if i = .stage s then quicTimingStageComplete now (tm.stage s) else i.state tm := by
  rw [← state_setStage s (quicTimingStageComplete now (tm.stage s))]
  by_cases hs : s = .serverKex
  · subst hs
    exact state_serverHelloBuild isServer lineNow
  · rw [timingCall_complete hs, state_emitSingleMetricLine]
    cases i <;> rfl

/-- What a call does to what is measured: it begins, ends or aborts it, or leaves it alone. -/
inductive Measures (i : Interval) (now : OsslTime) (st : StageState) :
    TimingCall → StageState → Prop
  | begins : Measures i now st i.beginCall (quicTimingStageBegin now st)
  | aborts {call : TimingCall} : i.abortCall = some call →
    Measures i now st call (quicTimingStageAbort st)
  | completes : Measures i now st i.completeCall (quicTimingStageComplete now st)
  | other {call : TimingCall} : call ≠ i.beginCall → i.abortCall ≠ some call →
    Measures i now st call st

/-- **A TLS callback.** -/
theorem measures_timingCall (i : Interval) (tm : HandshakeTiming) (isServer : Bool)
    (now lineNow : OsslTime) (call : TimingCall) :
    Measures i now (i.state tm) call (i.state (timingCall isServer now lineNow tm call).2) := by
  cases call with
  | begin s =>
    rw [timingCall, state_setStage]
    split_ifs with hs
    · subst hs
      exact .begins
    · exact .other (by cases i <;> simp_all [Interval.beginCall, eq_comm])
        (by cases i <;> simp [Interval.abortCall])
  | complete s =>
    rw [state_complete]
    split_ifs with hs
    · subst hs
      exact .completes
    · exact .other (by cases i <;> simp [Interval.beginCall])
        (by cases i <;> simp [Interval.abortCall])
  | abort s =>
    rw [timingCall, state_setStage]
    split_ifs with hs
    · subst hs
      exact .aborts rfl
    · exact .other (by cases i <;> simp [Interval.beginCall])
        (by cases i <;> simp_all [Interval.abortCall])
  | clientHelloSent =>
    have h : i.state (timingCall isServer now lineNow tm .clientHelloSent).2 = i.state tm := by
      simp only [timingCall]
      split_ifs <;> cases i <;> rfl
    rw [h]
    exact .other (by cases i <;> simp [Interval.beginCall])
      (by cases i <;> simp [Interval.abortCall])
  | clientProcessedServerHello =>
    have h : i.state (timingCall isServer now lineNow tm .clientProcessedServerHello).2 =
        i.state tm := by
      simp only [timingCall]
      split <;> cases i <;> rfl
    rw [h]
    exact .other (by cases i <;> simp [Interval.beginCall])
      (by cases i <;> simp [Interval.abortCall])
  | serverClientHelloProcessBegin =>
    cases i with
    | stage s => exact .other (by simp [Interval.beginCall]) (by simp [Interval.abortCall])
    | clientHelloProcess => exact .begins
  | serverClientHelloProcessed =>
    simp only [timingCall, serverClientHelloProcessed]
    split_ifs
    · exact .other (by cases i <;> simp [Interval.beginCall])
        (by cases i <;> simp [Interval.abortCall])
    · cases i with
      | stage s => exact .other (by simp [Interval.beginCall]) (by simp [Interval.abortCall])
      | clientHelloProcess => exact .completes
  | serverHelloReady =>
    have h : i.state (timingCall isServer now lineNow tm .serverHelloReady).2 = i.state tm := by
      simp only [timingCall]
      split
      · rw [state_serverHelloBuild]
        cases i <;> rfl
      · rfl
    rw [h]
    exact .other (by cases i <;> simp [Interval.beginCall])
      (by cases i <;> simp [Interval.abortCall])

theorem state_maybeEmitInternal (event : EventKey) (inp : LogInput) (mask : ℕ) (phase : Phase) :
    i.state (maybeEmitInternal event inp mask tm phase).2 = i.state tm := by
  have hann {label : Label} {flag : Logged} {tm : HandshakeTiming}
      {r : List Line × HandshakeTiming} (h : Announces label flag tm r) :
      i.state r.2 = i.state tm := by
    cases h <;> cases i <;> rfl
  have hch (tm : HandshakeTiming) := hann (announces_emitClientHelloBuild event inp.now tm)
  have hsh (tm : HandshakeTiming) := hann (announces_emitServerHelloProcessed event inp.now tm)
  have hcd (tm : HandshakeTiming) :
      i.state (emitClientHandshakeDone event inp tm).2 = i.state tm := by
    unfold emitClientHandshakeDone
    split_ifs <;> cases i <;> rfl
  have hsd : i.state (emitServerHandshakeDone event inp.now mask tm).2 = i.state tm := by
    unfold emitServerHandshakeDone
    split_ifs <;> cases i <;> rfl
  unfold maybeEmitInternal
  split
  · split_ifs
    · exact hsd
    · simp only [andThen, hcd, hsh, hch]
  · split_ifs
    · cases i <;> rfl
    · rfl

theorem state_logPacket (event : EventKey) (inp : LogInput) (mask : ℕ) (line : Line) :
    i.state (logPacket event inp mask line tm).2 = i.state tm := by
  have hw (tm : HandshakeTiming) :
      i.state (writeLine event mask inp.storeAlloc line tm).2 = i.state tm := by
    unfold writeLine
    split <;> cases i <;> rfl
  simp only [logPacket, andThen, state_maybeEmitInternal, hw]

variable {lib : X509Lib}

/-- A packet event leaves all measured times alone. -/
theorem state_packet (s : Session) (inp : LogInput) (event : PacketLogEvent) :
    i.state (s.step lib (.packet inp event)).timing = i.state s.timing := by
  rcases hf : formats lib s (.packet inp event) with _ | ⟨l, mask⟩
  · rw [(step_of_formats_none hf).2]
  · rw [(step_of_formats hf).2.2, state_logPacket]

theorem step_of_hung {s : Session} (h : s.hung = true) (x : SessionStep) : s.step lib x = s := by
  simp [Session.step, h]

/-- The first begin since the last abort is the start of what is being measured. -/
def Measured (i : Interval) (steps : List SessionStep) (s : Session) : Prop :=
  s.hung = false → (i.state s.timing).value = none →
    firstBegin i steps = if (i.state s.timing).active then some (i.state s.timing).start else none

theorem Measured.timing {s : Session} (h : Measured i steps s) (isServer : Bool)
    (call : TimingCall) (now lineNow : OsslTime) :
    Measured i (steps ++ [.timing isServer call now lineNow])
      (s.step lib (.timing isServer call now lineNow)) := by
  intro hh hv
  have hs : s.hung = false := by
    by_contra hc
    rw [step_of_hung (by simpa using hc)] at hh
    exact hc hh
  have ht : (s.step lib (.timing isServer call now lineNow)).timing =
      (timingCall isServer now lineNow s.timing call).2 := by simp [Session.step, hs]
  rw [ht] at hv ⊢
  have hm := measures_timingCall i s.timing isServer now lineNow call
  generalize i.state (timingCall isServer now lineNow s.timing call).2 = st at hm hv ⊢
  rw [firstBegin_concat]
  have hprev := h hs
  generalize i.state s.timing = st0 at hm hprev
  cases hm with
  | begins =>
    have ha : i.abortCall ≠ some i.beginCall := by
      cases i <;> simp [Interval.abortCall, Interval.beginCall]
    have hv0 : st0.value = none := by rwa [value_stageBegin] at hv
    rw [hprev hv0]
    cases hact : st0.active <;> simp [isAbort, ha, beginTime, quicTimingStageBegin, hv0, hact]
  | aborts ha => simp [isAbort, ha, quicTimingStageAbort]
  | completes =>
    have ha : i.abortCall ≠ some i.completeCall := by
      cases i <;> simp [Interval.abortCall, Interval.completeCall]
    have hb : i.completeCall ≠ i.beginCall := by
      cases i <;> simp [Interval.beginCall, Interval.completeCall]
    -- Without a value afterwards nothing was being measured.
    cases hact : st0.active
    · have hv0 : st0.value = none := by simpa [quicTimingStageComplete, hact] using hv
      rw [hprev hv0]
      simp [isAbort, ha, beginTime, hb, quicTimingStageComplete, hact]
    · cases hv0 : st0.value <;> simp [quicTimingStageComplete, hact, hv0] at hv
  | other hb ha =>
    rw [hprev hv]
    simp [isAbort, ha, beginTime, hb]

theorem measured_run (i : Interval) (lib : X509Lib) (log : LogState) (steps : List SessionStep) :
    Measured i steps (run (Session.step lib) (.start log) steps) := by
  induction steps using List.reverseRecOn with
  | nil =>
    intro _ _
    cases i <;> rfl
  | append_singleton steps x ih =>
    rw [run_append, run_cons, run_nil]
    cases x with
    | packet inp event =>
      intro hh hv
      have hs : (run (Session.step lib) (.start log) steps).hung = false := by
        by_contra hc
        rw [step_of_hung (by simpa using hc)] at hh
        exact hc hh
      rw [state_packet] at hv ⊢
      rw [firstBegin_concat, ih hs hv]
      simp [isAbort, beginTime]
    | timing isServer call now lineNow => exact ih.timing isServer call now lineNow

/-- **What is recorded.** A value is recorded by a complete call, and it is the time since the first
begin after the last abort. -/
theorem Measured.recorded_at {s : Session} (h : Measured i steps s) {x : SessionStep} {v : ℕ}
    (hnone : (i.state s.timing).value = none)
    (hsome : (i.state (s.step lib x).timing).value = some v) :
    ∃ isServer now lineNow t, x = .timing isServer i.completeCall now lineNow ∧
      firstBegin i steps = some t ∧ v = (now : ℕ) - t := by
  have hs : s.hung = false := by
    by_contra hc
    rw [step_of_hung (by simpa using hc), hnone] at hsome
    cases hsome
  have hm := h hs hnone
  cases x with
  | packet inp event =>
    rw [state_packet, hnone] at hsome
    cases hsome
  | timing isServer call now lineNow =>
    have ht : (s.step lib (.timing isServer call now lineNow)).timing =
        (timingCall isServer now lineNow s.timing call).2 := by simp [Session.step, hs]
    rw [ht] at hsome
    have hc := measures_timingCall i s.timing isServer now lineNow call
    generalize i.state (timingCall isServer now lineNow s.timing call).2 = st at hc hsome
    generalize i.state s.timing = st0 at hc hm hnone
    cases hc with
    | begins =>
      rw [value_stageBegin, hnone] at hsome
      cases hsome
    | aborts ha => exact absurd (hnone.symm.trans hsome) (by simp)
    | completes =>
      cases hact : st0.active
      · simp [quicTimingStageComplete, hact, hnone] at hsome
      · simp only [quicTimingStageComplete, hact, hnone, Bool.not_true, Option.isSome_none,
          Bool.or_self, Bool.false_eq_true, if_false, Option.some.injEq] at hsome
        exact ⟨isServer, now, lineNow, st0.start, rfl, by rw [hm, hact]; rfl, hsome.symm⟩
    | other hb ha => exact absurd (hnone.symm.trans hsome) (by simp)

/-- **The timing state machine.** On a connection with a clock that does not go back, for every
order of calls and packet events: each INTERNAL label is written at most once; what is recorded does
not change; a stage is recorded by its complete call as the time since its first begin after the
last abort; and every metric that is shown has been recorded, with the value shown. -/
theorem stages_run (lib : X509Lib) (log : LogState) (role : Bool) (steps : List SessionStep)
    (hrole : ∀ x ∈ steps, stepRole x = role) (hclock : (steps.flatMap times).Pairwise (· ≤ ·)) :
    (∀ label, (run (Session.step lib) (.start log) steps).lines.countP (hasLabel label) ≤ 1) ∧
    (∀ before after h v, steps = before ++ after →
      recorded (run (Session.step lib) (.start log) before).timing h = some v →
        recorded (run (Session.step lib) (.start log) steps).timing h = some v) ∧
    (∀ before x after i v, steps = before ++ x :: after →
      (i.state (run (Session.step lib) (.start log) before).timing).value = none →
      (i.state (run (Session.step lib) (.start log) (before ++ [x])).timing).value = some v →
        ∃ (isServer : Bool) (now lineNow : OsslTime) (t : ℕ),
          x = .timing isServer i.completeCall now lineNow ∧ firstBegin i before = some t ∧
            t + v = (now : ℕ)) ∧
    ∀ l m v, Line.internal l ∈ (run (Session.step lib) (.start log) steps).lines →
      Item.metric m v ∈ l.items →
        v.isSome = true ∧ recorded (run (Session.step lib) (.start log) steps).timing
          (metricFlag m) = v := by
  have hinit : OnlyPackets (Session.start log).timing.pending ∧
      Validated (Session.start log).timing :=
    ⟨fun _ _ h => absurd h (by simp [Session.start, HandshakeTiming.init]), fun h => absurd rfl h⟩
  obtain ⟨-, out, hl, hproc⟩ := run_proceeds lib hrole hinit.1 hinit.2
  rw [show (Session.start log).lines = [] from rfl, List.nil_append] at hl
  refine ⟨fun label => ?_, ?_, ?_, ?_⟩
  · have h := hproc.once label
    have hle := Bool.toNat_le
      ((run (Session.step lib) (.start log) steps).timing.logged (labelFlag role label))
    rw [hl]
    omega
  · rintro before after h v rfl hv
    obtain ⟨hp1, _, -, h1⟩ := run_proceeds lib
      (fun x hx => hrole x (List.mem_append_left after hx)) hinit.1 hinit.2
    obtain ⟨-, _, -, h2⟩ := run_proceeds lib
      (fun x hx => hrole x (List.mem_append_right before hx)) hp1 (h1.validated hinit.2)
    rw [run_append]
    exact h2.keeps h v hv
  · rintro before x after i v rfl hnone hsome
    rw [run_append, run_cons, run_nil] at hsome
    obtain ⟨isServer, now, lineNow, t, rfl, ht, rfl⟩ :=
      (measured_run i lib log before).recorded_at hnone hsome
    refine ⟨isServer, now, lineNow, t, rfl, ht, ?_⟩
    rw [List.flatMap_append, List.pairwise_append] at hclock
    have hle := hclock.2.2 t (mem_times_of_firstBegin ht) now (by simp [times])
    omega
  · intro l m v hmem hm
    rw [hl] at hmem
    exact hproc.shows _ hmem m v hm

end Measured

/-- A client that begins its key share twice, with an abort between, and sends its ClientHello. -/
def clientRun : List SessionStep :=
  [.timing false (.begin .clientKeyshare) 10 10, .timing false (.abort .clientKeyshare) 20 20,
    .timing false (.begin .clientKeyshare) 30 30, .timing false (.begin .clientKeyshare) 35 35,
    .timing false (.complete .clientKeyshare) 40 40, .timing false (.begin .clientHelloBuild) 41 41,
    .timing false (.complete .clientHelloBuild) 50 50,
    sentCrypto 60 false [1, 0, 0, 1, 3], sentCrypto 70 false [1, 0, 0, 1, 3]]

theorem stages_run_clientRun :
    recorded (run (Session.step noX509) (.start .init) clientRun).timing
      (.stage .clientKeyshare) = some 10 ∧
      (run (Session.step noX509) (.start .init) clientRun).lines.countP
        (hasLabel .clientHelloBuild) = 1 ∧
      ∀ label, (run (Session.step noX509) (.start .init) clientRun).lines.countP
        (hasLabel label) ≤ 1 :=
  ⟨by decide +kernel, by decide +kernel,
    (stages_run noX509 .init false clientRun (by decide +kernel) (by decide +kernel)).1⟩

end PapQuic.Log.Stages
