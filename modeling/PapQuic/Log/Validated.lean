import PapQuic.Log.Connection
import PapQuic.Log.Stages

/-! # CLIENT VALIDATED

The INTERNAL line that says `serverCreditState=UNLIMITED` is written by
`ssl/quic/quic_handshake_timing.c`, which knows the level of a packet and whether the ClientHello
has been processed, while the credit is kept by the packetiser. The line is nevertheless right: it
is written for a Handshake packet, which has lifted the limit before it is logged, and the limit
does not come back (`clientValidated_unlimited`). -/

namespace PapQuic.Log.Validated

open Lib.Run Wire.Packet Wire.Header Txp Txp.Credit Txp.Generate Log.Metadata Log.Clock
open Log.FrameList Log.Lines Log.Timing Log.Output Log.Conservation Log.Stages Log.Connection

/-! ### A server and its log -/

/-- What a step of a server passes to the log. -/
def sessionSteps (s : Server) : ServerStep → List SessionStep
  | .handleFrames pkt inp =>
    [.packet inp (serverEvent false pkt.encLevel pkt.pn pkt.datagramLen pkt.payload s.credit
      (creditAfterReceive s.credit pkt))]
  | .generate input pkt =>
    ((Generate.generate s.credit input).1.filter (·.outcome ≠ .notWritten)).map fun c =>
      .packet (pkt c.pkt.encLevel).inp (serverEvent true c.pkt.encLevel (pkt c.pkt.encLevel).pn
        c.pkt.numBytes (pkt c.pkt.encLevel).payload c.creditBefore c.creditAfter)
  | .setValidated => []
  | .timing call now lineNow => [.timing true call now lineNow]

section Steps

variable {lib : X509Lib}

theorem run_of_hung {s : Session} (h : s.hung = true) (steps : List SessionStep) :
    run (Session.step lib) s steps = s := by
  induction steps with
  | nil => rfl
  | cons x steps ih => rw [run_cons, step_of_hung h, ih]

theorem foldl_logCommit (pkt : EncLevel → TxPacket) : ∀ (commits : List Commit) (s : Session),
    commits.foldl (logCommit lib pkt) s = run (Session.step lib) s
      ((commits.filter (·.outcome ≠ .notWritten)).map fun c =>
        .packet (pkt c.pkt.encLevel).inp (serverEvent true c.pkt.encLevel (pkt c.pkt.encLevel).pn
          c.pkt.numBytes (pkt c.pkt.encLevel).payload c.creditBefore c.creditAfter))
  | [], _ => rfl
  | c :: commits, s => by
    rw [List.foldl_cons, foldl_logCommit pkt commits, logCommit]
    split_ifs with hc
    · rw [List.filter_cons_of_neg (by simpa using hc)]
    · rw [List.filter_cons_of_pos (by simpa using hc), List.map_cons, run_cons]

/-- **The log of a server is that of what its steps pass to it.** -/
theorem toSession_step (s : Server) (x : ServerStep) :
    (Connection.step lib s x).toSession = run (Session.step lib) s.toSession
      (sessionSteps s x) := by
  unfold Connection.step
  split_ifs with hh
  · rw [run_of_hung hh]
  · cases x with
    | handleFrames pkt inp => rfl
    | generate input pkt => exact foldl_logCommit pkt _ _
    | setValidated => rfl
    | timing call now lineNow => rfl

theorem toSession_run (steps : List ServerStep) (s : Server) :
    (run (Connection.step lib) s steps).toSession =
      run (Session.step lib) s.toSession (outputs (Connection.step lib) sessionSteps s steps) := by
  induction steps generalizing s with
  | nil => rfl
  | cons x steps ih => rw [run_cons, ih, toSession_step, outputs, run_append]

theorem stepRole_sessionSteps (s : Server) (x : ServerStep) :
    ∀ y ∈ sessionSteps s x, stepRole y = true := by
  cases x with
  | generate input pkt =>
    intro y hy
    obtain ⟨c, -, rfl⟩ := List.mem_map.mp hy
    rfl
  | _ => simp [sessionSteps, stepRole, serverEvent]

theorem stepRole_outputs (steps : List ServerStep) (s : Server) :
    ∀ y ∈ outputs (Connection.step lib) sessionSteps s steps, stepRole y = true := by
  induction steps generalizing s with
  | nil => simp [outputs]
  | cons x steps ih =>
    exact List.forall_mem_append.mpr ⟨stepRole_sessionSteps s x, ih _⟩

end Steps

/-! ### Who writes the line -/

/-- What the line depends on, apart from the packet. -/
def condition (tm : HandshakeTiming) : Bool × Option ℕ :=
  (tm.logged .serverValidated, tm.serverClienthelloTime)

section Condition

variable {tm : HandshakeTiming}

theorem condition_setLogged {flag : Logged} (h : flag ≠ .serverValidated) :
    condition (tm.setLogged flag) = condition tm := by
  simp [condition, Ne.symm h, HandshakeTiming.setLogged]

/-- Of the TLS callbacks, only that for the ClientHello changes it. -/
theorem condition_timingCall {call : TimingCall} (hc : call ≠ .serverClientHelloProcessed)
    (isServer : Bool) (now lineNow : OsslTime) :
    condition (timingCall isServer now lineNow tm call).2 = condition tm := by
  have hsingle (tm : HandshakeTiming) (s : Stage) :
      condition (emitSingleMetricLine isServer lineNow tm s).2 = condition tm := by
    cases s <;> simp only [emitSingleMetricLine, completionLine] <;> split_ifs <;> rfl
  have hbuild (tm : HandshakeTiming) :
      condition (quicTimingMaybeLogServerHelloBuild isServer lineNow tm).2 = condition tm := by
    unfold quicTimingMaybeLogServerHelloBuild
    split_ifs
    · rfl
    · exact (condition_setLogged (by decide)).trans (condition_setLogged (by decide))
  unfold timingCall
  split
  case h_2 => exact hsingle _ _
  case h_3 => exact hbuild _
  case h_4 => exact hsingle _ _
  case h_6 => split_ifs <;> rfl
  case h_7 => split <;> rfl
  case h_9 => exact absurd rfl hc
  case h_10 =>
    split
    · exact hbuild _
    · rfl
  all_goals rfl

theorem logged_timingCall (isServer : Bool) (now lineNow : OsslTime) (call : TimingCall) :
    (timingCall isServer now lineNow tm call).2.logged .serverValidated =
      tm.logged .serverValidated := by
  by_cases hc : call = .serverClientHelloProcessed
  · subst hc
    simp only [timingCall, serverClientHelloProcessed]
    split_ifs <;> rfl
  · exact congrArg Prod.fst (condition_timingCall hc isServer now lineNow)

/-- What comes before the packet line leaves it alone. -/
theorem condition_before {event : EventKey} (hs : event.isServer = true) (inp : LogInput)
    (mask : ℕ) : condition (maybeEmitInternal event inp mask tm .before).2 = condition tm := by
  simp only [maybeEmitInternal, hs, if_true, emitServerHandshakeDone]
  split_ifs
  · exact condition_setLogged (by decide)
  · rfl

theorem condition_writeLine (event : EventKey) (mask : ℕ) (storeAlloc : Bool) (line : Line) :
    condition (writeLine event mask storeAlloc line tm).2 = condition tm := by
  unfold writeLine
  split <;> rfl

/-- **What the packet line of a server comes to**: before the INTERNAL lines after it, nothing has
changed. -/
theorem logPacket_snd {event : EventKey} (hs : event.isServer = true) (inp : LogInput) (mask : ℕ)
    (line : Line) (tm : HandshakeTiming) :
    ∃ written, condition written = condition tm ∧
      (logPacket event inp mask line tm).2 = (maybeEmitInternal event inp mask written .after).2 :=
  ⟨_, (condition_writeLine event mask inp.storeAlloc line).trans
    (condition_before hs inp mask), rfl⟩

/-- A packet that sets the flag is a Handshake packet that was received after the ClientHello. -/
theorem clientValidates_of_logPacket {event : EventKey} (hs : event.isServer = true)
    {inp : LogInput} {mask : ℕ} {line : Line} (h0 : tm.logged .serverValidated = false)
    (h1 : (logPacket event inp mask line tm).2.logged .serverValidated = true) :
    clientValidates event tm = true := by
  obtain ⟨written, hc, he⟩ := logPacket_snd hs inp mask line tm
  have hflag : written.logged .serverValidated = tm.logged .serverValidated := congrArg Prod.fst hc
  have htime : written.serverClienthelloTime = tm.serverClienthelloTime := congrArg Prod.snd hc
  rw [he] at h1
  simp only [maybeEmitInternal, hs, Bool.true_and] at h1
  split_ifs at h1 with hv
  · rwa [clientValidates, hflag, htime] at hv
  · rw [hflag, h0] at h1
    cases h1

theorem clienthelloTime_logPacket {event : EventKey} (hs : event.isServer = true) (inp : LogInput)
    (mask : ℕ) (line : Line) :
    (logPacket event inp mask line tm).2.serverClienthelloTime = tm.serverClienthelloTime := by
  obtain ⟨written, hc, he⟩ := logPacket_snd hs inp mask line tm
  have htime : written.serverClienthelloTime = tm.serverClienthelloTime := congrArg Prod.snd hc
  rw [he, ← htime]
  unfold maybeEmitInternal
  dsimp only
  split_ifs <;> rfl

end Condition

/-- A step that sets the flag. -/
theorem step_setsFlag {lib : X509Lib} {s : Session} {x : SessionStep} (hx : stepRole x = true)
    (h0 : s.timing.logged .serverValidated = false)
    (h1 : (s.step lib x).timing.logged .serverValidated = true) :
    ∃ inp event, x = .packet inp event ∧ clientValidates event.toEventKey s.timing = true := by
  cases x with
  | packet inp event =>
    refine ⟨inp, event, rfl, ?_⟩
    rcases hf : formats lib s (.packet inp event) with _ | ⟨l, mask⟩
    · rw [(step_of_formats_none hf).2, h0] at h1
      cases h1
    · rw [(step_of_formats hf).2.2] at h1
      exact clientValidates_of_logPacket hx h0 h1
  | timing isServer call now lineNow =>
    exfalso
    by_cases hh : s.hung = true
    · rw [step_of_hung hh, h0] at h1
      cases h1
    · have ht : (s.step lib (.timing isServer call now lineNow)).timing =
          (timingCall isServer now lineNow s.timing call).2 := by simp [Session.step, hh]
      rw [ht, logged_timingCall, h0] at h1
      cases h1

/-- Packets that are sent do not set it. -/
theorem run_sent_flag {lib : X509Lib} : ∀ {steps : List SessionStep} {s : Session},
    (∀ x ∈ steps, ∃ inp event, x = .packet inp event ∧ event.isServer = true ∧
      event.isSend = true) →
    s.timing.logged .serverValidated = false →
    (run (Session.step lib) s steps).timing.logged .serverValidated = false
  | [], _, _, h0 => h0
  | x :: steps, s, hx, h0 => by
    rw [run_cons]
    refine run_sent_flag (fun y hy => hx y (List.mem_cons_of_mem x hy)) ?_
    obtain ⟨inp, event, rfl, hserver, hsend⟩ := hx x (by simp)
    by_contra h1
    obtain ⟨_, _, he, hv⟩ :=
      step_setsFlag (show stepRole (.packet inp event) = true from hserver) h0 (by simpa using h1)
    cases he
    simp [clientValidates, hsend] at hv

/-! ### The ClientHello -/

section ClientHello

variable {lib : X509Lib}

/-- The time of the ClientHello is recorded by its callback. -/
theorem step_clienthelloTime {s : Session} {x : SessionStep} (hx : stepRole x = true)
    (h : (s.step lib x).timing.serverClienthelloTime.isSome = true) :
    s.timing.serverClienthelloTime.isSome = true ∨
      ∃ now lineNow, x = .timing true .serverClientHelloProcessed now lineNow := by
  cases x with
  | packet inp event =>
    rcases hf : formats lib s (.packet inp event) with _ | ⟨l, mask⟩
    · rw [(step_of_formats_none hf).2] at h
      exact .inl h
    · rw [(step_of_formats hf).2.2, clienthelloTime_logPacket hx] at h
      exact .inl h
  | timing isServer call now lineNow =>
    obtain rfl : isServer = true := hx
    by_cases hc : call = .serverClientHelloProcessed
    · exact .inr ⟨now, lineNow, by rw [hc]⟩
    · left
      by_cases hh : s.hung = true
      · rwa [step_of_hung hh] at h
      · have ht : (s.step lib (.timing true call now lineNow)).timing =
            (timingCall true now lineNow s.timing call).2 := by simp [Session.step, hh]
        have htime : (timingCall true now lineNow s.timing call).2.serverClienthelloTime =
            s.timing.serverClienthelloTime :=
          congrArg Prod.snd (condition_timingCall hc true now lineNow)
        rwa [ht, htime] at h

theorem run_clienthelloTime {steps : List SessionStep} {s : Session}
    (hx : ∀ x ∈ steps, stepRole x = true)
    (h : (run (Session.step lib) s steps).timing.serverClienthelloTime.isSome = true) :
    s.timing.serverClienthelloTime.isSome = true ∨
      ∃ now lineNow, .timing true .serverClientHelloProcessed now lineNow ∈ steps := by
  induction steps generalizing s with
  | nil => exact .inl h
  | cons x steps ih =>
    rw [run_cons] at h
    rcases ih (fun y hy => hx y (List.mem_cons_of_mem x hy)) h with h1 | ⟨now, lineNow, hm⟩
    · refine (step_clienthelloTime (hx x (by simp)) h1).imp_right ?_
      rintro ⟨now, lineNow, rfl⟩
      exact ⟨now, lineNow, by simp⟩
    · exact .inr ⟨now, lineNow, List.mem_cons_of_mem x hm⟩

/-- A callback reaches the log in a step of its own. -/
theorem timing_mem_of_outputs {call : TimingCall} {now lineNow : OsslTime} {steps : List ServerStep}
    {s : Server}
    (h : .timing true call now lineNow ∈ outputs (Connection.step lib) sessionSteps s steps) :
    .timing call now lineNow ∈ steps := by
  induction steps generalizing s with
  | nil => simp [outputs] at h
  | cons x steps ih =>
    rcases List.mem_append.mp h with h | h
    · cases x <;> simp [sessionSteps] at h
      obtain ⟨rfl, rfl, rfl⟩ := h
      simp
    · exact List.mem_cons_of_mem x (ih h)

end ClientHello

/-! ### The credit -/

section Credit

variable {lib : X509Lib}

/-- An unlimited credit stays unlimited. -/
theorem step_credit_unlimited {s : Server} (h : s.credit = sizeMax) (x : ServerStep) :
    (Connection.step lib s x).credit = sizeMax := by
  unfold Connection.step
  split_ifs with hh
  · exact h
  · cases x with
    | handleFrames pkt inp =>
      simp only [creditAfterReceive, h, addUnvalidatedCredit_unlimited,
        Credit.setValidated, ite_self]
    | generate input pkt =>
      simp only [h]
      exact (commitLoop_unlimited input.el (stagedPackets input)).1
    | setValidated => rfl
    | timing call now lineNow => exact h

/-- The lines that a step formats. -/
def formattedBy (lib : X509Lib) (s : Server) (x : ServerStep) : List PacketLine :=
  outputs (Session.step lib) (fun s y => ((formats lib s y).map Prod.fst).toList) s.toSession
    (sessionSteps s x)

theorem mem_outputs_formats {l : PacketLine} : ∀ {steps : List SessionStep} {s : Session},
    l ∈ outputs (Session.step lib) (fun s y => ((formats lib s y).map Prod.fst).toList) s steps →
    ∃ inp event, .packet inp event ∈ steps ∧ l.event = event
  | [], _, h => by simp [outputs] at h
  | x :: steps, s, h => by
    rcases List.mem_append.mp h with h | h
    · cases x with
      | packet inp event =>
        obtain ⟨⟨l', mask⟩, hf, rfl⟩ := Option.map_eq_some_iff.mp (Option.mem_toList.mp h)
        exact ⟨inp, event, by simp, (step_of_formats hf).1⟩
      | timing isServer call now lineNow => simp [formats] at h
    · obtain ⟨inp, event, hm, he⟩ := mem_outputs_formats h
      exact ⟨inp, event, List.mem_cons_of_mem x hm, he⟩

/-- With an unlimited credit all packets are logged with it. -/
theorem creditAfter_sessionSteps {s : Server} (h : s.credit = sizeMax) {x : ServerStep}
    {inp : LogInput} {event : PacketLogEvent} (hm : .packet inp event ∈ sessionSteps s x) :
    event.isServer = true ∧ event.haveCreditAfter = true ∧ event.creditAfterUnlimited = true := by
  cases x with
  | handleFrames pkt inp =>
    simp only [sessionSteps, List.mem_singleton, SessionStep.packet.injEq] at hm
    obtain ⟨-, rfl⟩ := hm
    simp [serverEvent, creditAfterReceive, h, Credit.setValidated]
  | generate input pkt =>
    simp only [sessionSteps, List.mem_map, List.mem_filter] at hm
    obtain ⟨c, ⟨hc, -⟩, he⟩ := hm
    cases he
    rw [h] at hc
    simp [serverEvent, ((commitLoop_unlimited input.el (stagedPackets input)).2 c hc).2]
  | setValidated => simp [sessionSteps] at hm
  | timing call now lineNow => simp [sessionSteps] at hm

/-- Such a line ends in the word. -/
theorem suffix_text {l : PacketLine} (hs : l.event.isServer = true)
    (hh : l.event.haveCreditAfter = true) (hu : l.event.creditAfterUnlimited = true) :
    "[CREDIT AFTER : UNLIMITED]".toList <:+ (Line.packet l).text := by
  have hfields : "[CREDIT AFTER : UNLIMITED]".toList <:+ packetLogAppendCreditFields l.event := by
    simp only [packetLogAppendCreditFields, hs, if_true, PacketLogEvent.serverCredit,
      creditText, hh, hu]
    exact List.suffix_append_of_suffix (by decide)
  exact (hfields.trans (List.suffix_append _ _)).trans (List.suffix_append _ _)

/-- **From then on, every line shows an unlimited credit.** -/
theorem formattedBy_unlimited {s : Server} (h : s.credit = sizeMax) (steps : List ServerStep) :
    ∀ l ∈ outputs (Connection.step lib) (formattedBy lib) s steps,
      "[CREDIT AFTER : UNLIMITED]".toList <:+ (Line.packet l).text := by
  induction steps generalizing s with
  | nil => simp [outputs]
  | cons x steps ih =>
    refine List.forall_mem_append.mpr ⟨fun l hl => ?_, ih (step_credit_unlimited h x)⟩
    obtain ⟨inp, event, hm, he⟩ := mem_outputs_formats hl
    obtain ⟨h1, h2, h3⟩ := creditAfter_sessionSteps h hm
    exact suffix_text (he ▸ h1) (he ▸ h2) (he ▸ h3)

end Credit

/-! ### The line -/

/-- A server step that writes the line receives a Handshake packet after the ClientHello. -/
theorem step_clientValidated {lib : X509Lib} {s : Server} {x : ServerStep} {out : List Line}
    {l : InternalLine} (hp : OnlyPackets s.timing.pending) (hva : Validated s.timing)
    (hout : (Connection.step lib s x).lines = s.lines ++ out) (hl : .internal l ∈ out)
    (hlabel : l.label = .clientValidated) :
    s.timing.serverClienthelloTime.isSome = true ∧
      ∃ pkt inp, x = .handleFrames pkt inp ∧ pkt.encLevel = .handshake ∧ s.hung = false := by
  have hrole := stepRole_sessionSteps s x
  obtain ⟨-, out', hout', hproc⟩ := run_proceeds lib hrole hp hva
  rw [← toSession_step] at hout' hproc
  obtain rfl : out = out' := List.append_cancel_left (hout.symm.trans hout')
  -- The flag of the line is clear before the step and set after it.
  have hcount : 0 < out.countP (hasLabel .clientValidated) :=
    List.countP_pos_iff.mpr ⟨_, hl, by simp [hasLabel, hlabel]⟩
  have honce := hproc.once .clientValidated
  change _ + (s.timing.logged .serverValidated).toNat ≤
    ((Connection.step lib s x).timing.logged .serverValidated).toNat at honce
  have hle := Bool.toNat_le ((Connection.step lib s x).timing.logged .serverValidated)
  have h0 : s.timing.logged .serverValidated = false := Bool.toNat_eq_zero.mp (by omega)
  have h1 : (Connection.step lib s x).timing.logged .serverValidated = true :=
    Bool.toNat_eq_one.mp (by omega)
  have hh : s.hung = false := by
    by_contra hh
    rw [Connection.step_hung lib x (by simpa using hh), h0] at h1
    cases h1
  rw [toSession_step] at h1
  cases x with
  | handleFrames pkt inp =>
    rw [sessionSteps, run_cons, run_nil] at h1
    obtain ⟨_, _, he, hv⟩ := step_setsFlag rfl h0 h1
    cases he
    simp only [clientValidates, serverEvent, Bool.and_eq_true] at hv
    exact ⟨hv.2, pkt, inp, rfl, of_decide_eq_true hv.1.2, hh⟩
  | generate input pkt =>
    rw [run_sent_flag ?_ h0] at h1
    · cases h1
    · intro y hy
      obtain ⟨c, -, rfl⟩ := List.mem_map.mp hy
      exact ⟨_, _, rfl, rfl, rfl⟩
  | setValidated =>
    rw [show run (Session.step lib) s.toSession (sessionSteps s .setValidated) =
      s.toSession from rfl, h0] at h1
    cases h1
  | timing call now lineNow =>
    rw [sessionSteps, run_cons, run_nil] at h1
    obtain ⟨_, _, he, -⟩ := step_setsFlag rfl h0 h1
    cases he

/-- **CLIENT VALIDATED is right.** In every run of a server, when a step writes the line then the
credit is unlimited, the step has received a Handshake packet, the ClientHello was processed before,
and every packet line formatted from then on ends in an unlimited credit. -/
theorem clientValidated_unlimited (lib : X509Lib) (log : LogState) (steps rest : List ServerStep)
    (x : ServerStep) (out : List Line) (l : InternalLine)
    (hout : (run (Connection.step lib) (.start log) (steps ++ [x])).lines =
      (run (Connection.step lib) (.start log) steps).lines ++ out)
    (hl : .internal l ∈ out) (hlabel : l.label = .clientValidated) :
    (run (Connection.step lib) (.start log) (steps ++ [x])).credit = sizeMax ∧
    (∃ pkt inp, x = .handleFrames pkt inp ∧ pkt.encLevel = .handshake) ∧
    (∃ now lineNow, .timing .serverClientHelloProcessed now lineNow ∈ steps) ∧
    ∀ line ∈ outputs (Connection.step lib) (formattedBy lib)
        (run (Connection.step lib) (.start log) (steps ++ [x])) rest,
      "[CREDIT AFTER : UNLIMITED]".toList <:+ (Line.packet line).text := by
  have hrole := @stepRole_outputs lib steps (.start log)
  have hinit : OnlyPackets (Server.start log).timing.pending ∧
      Validated (Server.start log).timing :=
    ⟨fun _ _ h => absurd h (by simp [Server.start, Session.start, HandshakeTiming.init]),
      fun h => absurd rfl h⟩
  obtain ⟨hp, _, -, hproc⟩ := run_proceeds lib hrole hinit.1 hinit.2
  rw [← toSession_run] at hp hproc
  rw [run_append, run_cons, run_nil] at hout ⊢
  obtain ⟨htime, pkt, inp, rfl, hlevel, hh⟩ :=
    step_clientValidated hp (hproc.validated hinit.2) hout hl hlabel
  have hcredit : (Connection.step lib (run (Connection.step lib) (.start log) steps)
      (.handleFrames pkt inp)).credit = sizeMax := by
    simp [Connection.step, hh, creditAfterReceive, hlevel, Credit.setValidated]
  refine ⟨hcredit, ⟨pkt, inp, rfl, hlevel⟩, ?_, formattedBy_unlimited hcredit rest⟩
  rw [toSession_run] at htime
  rcases run_clienthelloTime hrole htime with h | ⟨now, lineNow, hm⟩
  · cases h
  · exact ⟨now, lineNow, timing_mem_of_outputs hm⟩

/-- The ClientHello is processed, a Handshake packet with a PING comes in, and another one. -/
theorem clientValidated_unlimited_ping :
    let x : ServerStep := .handleFrames ⟨.handshake, 0, 60, [1]⟩
      ⟨200, fun _ => true, true, true, none⟩
    let s := run (Connection.step noX509) (.start .init)
      [.timing .serverClientHelloProcessed 100 100, x]
    s.credit = sizeMax ∧ (outputs (Connection.step noX509) (formattedBy noX509) s [x]).length = 1 ∧
      ∀ line ∈ outputs (Connection.step noX509) (formattedBy noX509) s [x],
        "[CREDIT AFTER : UNLIMITED]".toList <:+ (Line.packet line).text := by
  intro x s
  have h := clientValidated_unlimited noX509 .init [.timing .serverClientHelloProcessed 100 100]
    [x] x s.lines
    ⟨200, true, .clientValidated,
      [.metric .clientValidationDelay (some 100), .serverCreditUnlimited]⟩
    rfl (List.mem_of_getElem? (i := 1) (by rfl)) rfl
  exact ⟨h.1, by decide +kernel, h.2.2.2⟩

end PapQuic.Log.Validated
