import PapQuic.Log.Output

/-! # Which packet lines reach the stream

A packet line that `ossl_quic_packet_log` has formatted is written, or held in a slot of the timing
state until an INTERNAL line lets it go. Nothing is lost on the way: the lines written and the lines
held are together the lines formatted (`Kept`). But nothing that frees a connection looks at the
slots, so a line that is still held then is never written. This happens to the line of a ServerHello
when SERVER HELLO BUILD has not been written, and to the line of a client's Finished when HANDSHAKE
DONE has not (`written_iff`). -/

namespace PapQuic.Log.Conservation

open Lib.Run Log.Metadata Log.Handshake Log.Clock Log.FrameList Log.Lines
open Log.Timing Log.Output

/-! ### Lines and events -/

def isPacket : Line → Bool
  | .packet _ => true
  | .internal _ => false

/-- What a step formats: a packet line, with the mask of the TLS messages in it. -/
def formats (lib : X509Lib) (s : Session) : SessionStep → Option (PacketLine × ℕ)
  | .packet inp event =>
    if s.hung || !inp.lineAlloc then none
    else
      (packetLogAppendFrames lib event.toEventKey inp.hsAlloc event.payload.length ⟨0, s.log⟩
        event.payload).map fun r => (⟨inp.now, event, r.specs, r.ok⟩, r.state.mask)
  | .timing .. => none

/-- A packet event that formats no line changes neither the lines nor the timing state. -/
theorem step_of_formats_none {lib : X509Lib} {s : Session} {inp : LogInput}
    {event : PacketLogEvent} (h : formats lib s (.packet inp event) = none) :
    (s.step lib (.packet inp event)).lines = s.lines ∧
      (s.step lib (.packet inp event)).timing = s.timing := by
  by_cases hh : s.hung = true
  · simp [Session.step, hh]
  by_cases ha : inp.lineAlloc = true
  · have hr : packetLogAppendFrames lib event.toEventKey inp.hsAlloc event.payload.length ⟨0, s.log⟩
        event.payload = none := by simpa [formats, hh, ha] using h
    simp [Session.step, hh, packetLog_eq, ha, hr]
  · simp [Session.step, hh, packetLog_eq, ha]

theorem step_of_formats {lib : X509Lib} {s : Session} {inp : LogInput} {event : PacketLogEvent}
    {l : PacketLine} {mask : ℕ} (h : formats lib s (.packet inp event) = some (l, mask)) :
    l.event = event ∧
      (s.step lib (.packet inp event)).lines =
        s.lines ++ (logPacket event.toEventKey inp mask (.packet l) s.timing).1 ∧
      (s.step lib (.packet inp event)).timing =
        (logPacket event.toEventKey inp mask (.packet l) s.timing).2 := by
  simp only [formats] at h
  split_ifs at h with hc
  simp only [Bool.or_eq_true, Bool.not_eq_eq_eq_not, Bool.not_true, not_or,
    Bool.not_eq_true, Bool.not_eq_false] at hc
  obtain ⟨r, hr, he⟩ := Option.map_eq_some_iff.mp h
  simp only [Prod.mk.injEq] at he
  obtain ⟨rfl, rfl⟩ := he
  simp [Session.step, hc.1, packetLog_eq, hc.2, hr]

/-- All lines formatted in a run. -/
def formatted (lib : X509Lib) (log : LogState) (steps : List SessionStep) : List Line :=
  outputs (Session.step lib) (fun s x => ((formats lib s x).map fun f => Line.packet f.1).toList)
    (.start log) steps

/-- All allocations of a step succeed. -/
def allocates : SessionStep → Prop
  | .packet inp _ => inp.lineAlloc = true ∧ inp.storeAlloc = true ∧ ∀ n, inp.hsAlloc n = true
  | .timing .. => True

/-- A server sends a packet with a ServerHello. -/
def serverHelloSent (event : EventKey) (mask : ℕ) : Bool :=
  event.isServer && event.isSend && mask &&& packetLogEventMaskForType 2 ≠ 0

/-- A client sends a packet with a Finished. -/
def finishedSent (event : EventKey) (mask : ℕ) : Bool :=
  !event.isServer && event.isSend && mask &&& packetLogEventMaskForType 20 ≠ 0

def SendsServerHello (lib : X509Lib) (s : Session) (x : SessionStep) : Prop :=
  ∃ l mask, formats lib s x = some (l, mask) ∧ serverHelloSent l.event.toEventKey mask = true

def SendsFinished (lib : X509Lib) (s : Session) (x : SessionStep) : Prop :=
  ∃ l mask, formats lib s x = some (l, mask) ∧ finishedSent l.event.toEventKey mask = true

/-- The key exchange of the server ends. -/
def EndsServerKex (s : Session) (x : SessionStep) : Prop :=
  s.hung = false ∧ (s.timing.stage .serverKex).active = true ∧
    ∃ isServer now lineNow, x = .timing isServer (.complete .serverKex) now lineNow

/-- The ServerHello is ready after a ClientHello has been processed. -/
def PreparesServerHello (s : Session) (x : SessionStep) : Prop :=
  s.hung = false ∧ s.timing.serverClienthelloTime.isSome = true ∧
    ∃ isServer now lineNow, x = .timing isServer .serverHelloReady now lineNow

/-- A client logs a packet after the check of the CertificateVerify. -/
def LogsAfterCheck (lib : X509Lib) (s : Session) (x : SessionStep) : Prop :=
  s.timing.clientReady = true ∧ ∃ f, formats lib s x = some f ∧ f.1.event.isServer = false

/-- The lines in the slots. -/
def held (p : Slot → Option Line) : List Line :=
  (p .serverInitial).toList ++ (p .clientFinished).toList ++ (p .serverHandshakeDone).toList

/-! ### Nothing is lost on the way -/

def OnlyPackets (p : Slot → Option Line) : Prop := ∀ slot l, p slot = some l → isPacket l = true

theorem held_update (p : Slot → Option Line) (slot : Slot) (l : Option Line) :
    (l.toList ++ held p).Perm ((p slot).toList ++ held (Function.update p slot l)) := by
  classical
  rw [List.perm_iff_count]
  intro x
  cases slot <;> simp only [held, Function.update_apply, reduceCtorEq, if_true, if_false,
    List.count_append]
  all_goals omega

theorem OnlyPackets.update {p : Slot → Option Line} (h : OnlyPackets p) (slot : Slot)
    {l : Option Line} (hl : ∀ m, l = some m → isPacket m = true) :
    OnlyPackets (Function.update p slot l) := by
  intro t m hm
  by_cases ht : t = slot
  · subst ht
    rw [Function.update_self] at hm
    exact hl m hm
  · rw [Function.update_of_ne ht] at hm
    exact h t m hm

/-- Held lines that are let go are written. -/
theorem perm_of_moves {p q : Slot → Option Line} {lines : List Line} (h : Moves p lines q)
    (hp : OnlyPackets p) : (lines.filter isPacket ++ held q).Perm (held p) ∧ OnlyPackets q := by
  induction h with
  | nil p => exact ⟨.refl _, hp⟩
  | internal l _ ih => exact ih hp
  | @flush slot p q lines _ ih =>
    obtain ⟨hperm, hq⟩ := ih (hp.update slot (by simp))
    refine ⟨?_, hq⟩
    have hself : (p slot).toList.filter isPacket = (p slot).toList :=
      List.filter_eq_self.mpr fun l hl => hp slot l (Option.mem_toList.mp hl)
    rw [List.filter_append, hself, List.append_assoc]
    exact (hperm.append_left _).trans (held_update p slot none).symm

/-- The line of a packet is written or held, and held lines that are let go are written. -/
theorem perm_of_logs {l : PacketLine} {isSend : Bool} {p q : Slot → Option Line}
    {lines : List Line} (h : Logs (.packet l) isSend p lines q) (hp : OnlyPackets p) :
    (lines.filter isPacket ++ held q).Perm (.packet l :: held p) ∧ OnlyPackets q := by
  cases h with
  | written h1 h2 =>
    obtain ⟨hp1, ho1⟩ := perm_of_moves h1 hp
    obtain ⟨hp2, ho2⟩ := perm_of_moves h2 ho1
    refine ⟨?_, ho2⟩
    classical
    rw [List.perm_iff_count] at hp1 hp2 ⊢
    intro x
    have e1 := hp1 x
    have e2 := hp2 x
    simp only [List.filter_append, List.filter_cons, isPacket, if_true, List.filter_nil,
      List.count_append, List.count_cons, List.count_nil] at e1 e2 ⊢
    omega
  | @held slot _ q1 _ _ _ _ h1 hfree h2 =>
    obtain ⟨hp1, ho1⟩ := perm_of_moves h1 hp
    obtain ⟨hp2, ho2⟩ := perm_of_moves h2 (ho1.update slot (by simp [isPacket]))
    refine ⟨?_, ho2⟩
    have hup := held_update q1 slot (some (Line.packet l))
    rw [hfree] at hup
    classical
    rw [List.perm_iff_count] at hp1 hp2 hup ⊢
    intro x
    have e1 := hp1 x
    have e2 := hp2 x
    have e3 := hup x
    simp only [List.filter_append, Option.toList_some, Option.toList_none, List.nil_append,
      List.count_append, List.count_cons, List.count_nil] at e1 e2 e3 ⊢
    omega

/-! ### When a slot is in use -/

/-- The slots and the flags, where `sh` and `fin` say that a ServerHello and a Finished have been
sent, `kex` and `prep` that the values of SERVER HELLO BUILD are there, `built` that the line is
written and `done` that HANDSHAKE DONE is. -/
structure Slots (sh fin kex prep built done : Prop) (tm : HandshakeTiming) : Prop where
  serverInitial : (tm.pending .serverInitial).isSome ↔ sh ∧ ¬ built
  clientFinished : (tm.pending .clientFinished).isSome ↔ fin ∧ ¬ done
  serverHandshakeDone : tm.pending .serverHandshakeDone = none
  serverKex : (tm.value .serverKex).isSome ↔ kex
  serverHelloPreparation : tm.serverHelloPreparation.isSome ↔ prep
  serverShprep : tm.logged .serverShprep ↔ built
  serverClient : tm.logged .serverClient ↔ built
  clientHsDone : tm.logged .clientHsDone ↔ done

section Slots

variable {sh fin kex prep built done : Prop} {tm : HandshakeTiming}

theorem slots_init : Slots False False False False False False .init := by
  constructor <;> simp [HandshakeTiming.init, HandshakeTiming.value]

/-- A line that has a flag of its own leaves the slots alone. -/
theorem Slots.announces (h : Slots sh fin kex prep built done tm) {label : Label} {flag : Logged}
    {r : List Line × HandshakeTiming} (hr : Announces label flag tm r)
    (hflag : flag ∉ [Logged.serverShprep, .serverClient, .clientHsDone]) :
    Slots sh fin kex prep built done r.2 := by
  simp only [List.mem_cons, List.not_mem_nil, or_false, not_or] at hflag
  obtain ⟨hshprep, hclient, hdone⟩ := hflag
  cases hr with
  | nothing => exact h
  | line l =>
    exact ⟨h.1, h.2, h.3, h.4, h.5, by simp [h.6, Ne.symm hshprep],
      by simp [h.7, Ne.symm hclient], by simp [h.8, Ne.symm hdone]⟩

theorem Slots.emitClientValidated (h : Slots sh fin kex prep built done tm) (event : EventKey)
    (now : OsslTime) :
    Slots sh fin kex prep built done (emitClientValidated event now tm).2 :=
  ⟨h.1, h.2, h.3, h.4, h.5, by simpa [Timing.emitClientValidated] using h.6,
    by simpa [Timing.emitClientValidated] using h.7,
    by simpa [Timing.emitClientValidated] using h.8⟩

/-- HANDSHAKE DONE of a server comes before the packet it is for, so that nothing is held for it. -/
theorem Slots.emitServerHandshakeDone (h : Slots sh fin kex prep built done tm) (event : EventKey)
    (now : OsslTime) (mask : ℕ) :
    Slots sh fin kex prep built done (emitServerHandshakeDone event now mask tm).2 ∧
      (event.isSend = true → mask &&& tlsEventHandshakeDone ≠ 0 →
        (emitServerHandshakeDone event now mask tm).2.logged .serverHsDone = true) := by
  unfold Timing.emitServerHandshakeDone
  split_ifs with hd
  · refine ⟨⟨?_, ?_, ?_, h.4, h.5, ?_, ?_, ?_⟩, ?_⟩ <;>
      simp [quicTimingFlushBuffer, h.1, h.2, h.6, h.7, h.8]
  · refine ⟨h, fun hs hm => ?_⟩
    simpa [hs, hm] using hd

/-- HANDSHAKE DONE of a client lets the Finished go. -/
theorem Slots.emitClientHandshakeDone (h : Slots sh fin kex prep built done tm) (event : EventKey)
    (inp : LogInput) :
    Slots sh fin kex prep built (done ∨ tm.clientReady = true)
      (emitClientHandshakeDone event inp tm).2 := by
  unfold Timing.emitClientHandshakeDone
  have h8 := h.8
  split_ifs with hd
  · have hr : tm.clientReady = true := by simp at hd; exact hd.2
    refine ⟨?_, ?_, ?_, h.4, h.5, ?_, ?_, ?_⟩ <;>
      simp [quicTimingFlushBuffer, h.1, h.3, h.6, h.7, hr]
  · have hd' : done ∨ tm.clientReady = true ↔ done := by
      rw [← h8]
      revert hd
      cases tm.logged .clientHsDone <;> cases tm.clientReady <;> simp
    exact ⟨h.1, by rw [hd']; exact h.2, h.3, h.4, h.5, h.6, h.7, by rw [hd']; exact h8⟩

/-- The line that is held is that of a ServerHello or of a Finished. -/
theorem holdingSlot_eq {event : EventKey} {mask : ℕ} (hs : event.isServer = true →
      event.isSend = true → mask &&& tlsEventHandshakeDone ≠ 0 → tm.logged .serverHsDone = true) :
    holdingSlot event mask true tm =
      if serverHelloSent event mask && !tm.logged .serverClient &&
          (tm.pending .serverInitial).isNone then some .serverInitial
      else if finishedSent event mask && !tm.logged .clientHsDone &&
          (tm.pending .clientFinished).isNone then some .clientFinished
      else none := by
  have hlast : (event.isServer && event.isSend && decide (mask &&& tlsEventHandshakeDone ≠ 0) &&
      !tm.logged .serverHsDone && (tm.pending .serverHandshakeDone).isNone && true) = false := by
    by_cases hd : event.isServer = true ∧ event.isSend = true ∧ mask &&& tlsEventHandshakeDone ≠ 0
    · simp [hs hd.1 hd.2.1 hd.2.2]
    · simp only [Bool.and_eq_false_iff]
      grind
  unfold holdingSlot
  rw [hlast, Bool.and_true, Bool.and_true]
  rfl

/-- A message whose line is not held now was sent before, or its line need not be held. -/
theorem sent_iff {sent now released : Prop} (h : ¬((now ∧ ¬released) ∧ ¬(sent ∧ ¬released))) :
    sent ∧ ¬released ↔ (sent ∨ now) ∧ ¬released := by
  tauto

/-- A packet is written or held. -/
theorem Slots.writeLine (h : Slots sh fin kex prep built done tm) {event : EventKey} {mask : ℕ}
    (hs : event.isServer = true → event.isSend = true → mask &&& tlsEventHandshakeDone ≠ 0 →
      tm.logged .serverHsDone = true) (line : Line) :
    Slots (sh ∨ serverHelloSent event mask = true) (fin ∨ finishedSent event mask = true)
      kex prep built done (writeLine event mask true line tm).2 := by
  obtain ⟨h1, h2, h3, h4, h5, h6, h7, h8⟩ := h
  have hboth : ¬ (serverHelloSent event mask = true ∧ finishedSent event mask = true) := by
    unfold serverHelloSent finishedSent
    cases event.isServer <;> simp
  have hnone (slot : Slot) : (tm.pending slot).isNone = !(tm.pending slot).isSome := by
    cases tm.pending slot <;> rfl
  rw [Timing.writeLine, holdingSlot_eq hs, hnone, hnone]
  split_ifs with hc hd
  all_goals simp only [Bool.and_eq_true, Bool.not_eq_eq_eq_not, Bool.not_true, ← Bool.not_eq_true,
    h1, h7] at hc
  · change Slots _ _ _ _ _ _ (tm.setPending .serverInitial (some line))
    refine ⟨?_, ?_, ?_, h4, h5, h6, h7, h8⟩
    · simp [hc.1.1, hc.1.2]
    · have hfin : ¬ finishedSent event mask = true := fun hf => hboth ⟨hc.1.1, hf⟩
      simp [hfin, h2]
    · simp [h3]
  all_goals simp only [Bool.and_eq_true, Bool.not_eq_eq_eq_not, Bool.not_true, ← Bool.not_eq_true,
    h2, h8] at hd
  · change Slots _ _ _ _ _ _ (tm.setPending .clientFinished (some line))
    refine ⟨?_, ?_, ?_, h4, h5, h6, h7, h8⟩
    · have hsh : ¬ serverHelloSent event mask = true := fun hf => hboth ⟨hf, hd.1.1⟩
      simp [hsh, h1]
    · simp [hd.1.1, hd.1.2]
    · simp [h3]
  · change Slots _ _ _ _ _ _ tm
    refine ⟨?_, ?_, h3, h4, h5, h6, h7, h8⟩
    · rw [h1, sent_iff hc]
    · rw [h2, sent_iff hd]

/-- SERVER HELLO BUILD is written as soon as its values are there. -/
theorem Slots.serverHelloBuild (h : Slots sh fin kex prep built done tm)
    (hb : built → kex ∧ prep) (isServer : Bool) (now : OsslTime) :
    Slots sh fin kex prep (kex ∧ prep) done
      (quicTimingMaybeLogServerHelloBuild isServer now tm).2 := by
  obtain ⟨h1, h2, h3, h4, h5, h6, h7, h8⟩ := h
  have hnone (o : Option ℕ) : o.isNone = !o.isSome := by cases o <;> rfl
  unfold quicTimingMaybeLogServerHelloBuild
  rw [hnone, hnone]
  split_ifs with hn
  all_goals simp only [Bool.or_eq_true, Bool.not_eq_eq_eq_not, Bool.not_true, ← Bool.not_eq_true,
    h4, h5, h6] at hn
  · have he : kex ∧ prep ↔ built := by
      refine ⟨fun hkp => ?_, hb⟩
      rcases hn with (hn | hn) | hn
      · exact hn
      · exact absurd hkp.1 hn
      · exact absurd hkp.2 hn
    rw [propext he]
    exact ⟨h1, h2, h3, h4, h5, h6, h7, h8⟩
  · have hkp : kex ∧ prep := by
      rw [not_or, not_or, not_not, not_not] at hn
      exact ⟨hn.1.2, hn.2⟩
    change Slots _ _ _ _ _ _
      (((tm.setPending .serverInitial none).setLogged .serverShprep).setLogged .serverClient)
    refine ⟨?_, ?_, ?_, h4, h5, ?_, ?_, ?_⟩ <;> simp [h2, h3, h8, hkp.1, hkp.2]

theorem Slots.emitSingleMetricLine (h : Slots sh fin kex prep built done tm) (isServer : Bool)
    (now : OsslTime) (s : Stage) :
    Slots sh fin kex prep built done (emitSingleMetricLine isServer now tm s).2 := by
  unfold Timing.emitSingleMetricLine
  split
  · exact h
  · next flag label metric hs =>
    split_ifs
    · have hf : flag ≠ .serverShprep ∧ flag ≠ .serverClient ∧ flag ≠ .clientHsDone := by
        cases s <;> cases hs <;> decide
      refine ⟨h.1, h.2, h.3, h.4, h.5, ?_, ?_, ?_⟩
      · simp [hf.1.symm, h.6]
      · simp [hf.2.1.symm, h.7]
      · simp [hf.2.2.symm, h.8]
    · exact h

/-- A change of another stage. -/
theorem Slots.setStage (h : Slots sh fin kex prep built done tm) (s : Stage) {st : StageState}
    (hs : s = .serverKex → st.value.isSome = (tm.value s).isSome) :
    Slots sh fin kex prep built done (tm.setStage s st) := by
  refine ⟨h.1, h.2, h.3, ?_, h.5, h.6, h.7, h.8⟩
  rw [← h.4]
  by_cases he : s = .serverKex
  · subst he
    simp [HandshakeTiming.setStage, HandshakeTiming.value, hs rfl]
  · simp [HandshakeTiming.setStage, HandshakeTiming.value, Function.update_of_ne (Ne.symm he)]

/-- The key exchange has a value when it was active. -/
theorem Slots.completeServerKex (h : Slots sh fin kex prep built done tm) (now : OsslTime) :
    Slots sh fin (kex ∨ (tm.stage .serverKex).active = true) prep built done
      (tm.setStage .serverKex (quicTimingStageComplete now (tm.stage .serverKex))) := by
  refine ⟨h.1, h.2, h.3, ?_, h.5, h.6, h.7, h.8⟩
  have h4 := h.4
  simp only [HandshakeTiming.setStage, HandshakeTiming.value, Function.update_self,
    quicTimingStageComplete] at h4 ⊢
  split_ifs with hc
  · rw [h4]
    refine ⟨.inl, fun hk => hk.elim id fun ha => h4.mp ?_⟩
    simpa [ha] using hc
  · simp only [Bool.or_eq_true, Bool.not_eq_eq_eq_not, Bool.not_true, not_or,
      Bool.not_eq_false] at hc
    simp [hc.1]

/-- **A TLS callback.** -/
theorem Slots.timingCall (h : Slots sh fin kex prep (kex ∧ prep) done tm) (isServer : Bool)
    (now lineNow : OsslTime) (call : TimingCall) :
    Slots sh fin (kex ∨ (tm.stage .serverKex).active = true ∧ call = .complete .serverKex)
      (prep ∨ tm.serverClienthelloTime.isSome = true ∧ call = .serverHelloReady)
      ((kex ∨ (tm.stage .serverKex).active = true ∧ call = .complete .serverKex) ∧
        (prep ∨ tm.serverClienthelloTime.isSome = true ∧ call = .serverHelloReady)) done
      (timingCall isServer now lineNow tm call).2 := by
  cases call with
  | begin s =>
    simp only [reduceCtorEq, and_false, or_false]
    refine h.setStage s fun _ => ?_
    unfold quicTimingStageBegin
    split_ifs <;> rfl
  | complete s =>
    by_cases hs : s = .serverKex
    · subst hs
      simp only [and_true, reduceCtorEq, and_false, or_false]
      exact (h.completeServerKex now).serverHelloBuild (fun hb => ⟨.inl hb.1, hb.2⟩)
        isServer lineNow
    · simp only [TimingCall.complete.injEq, hs, reduceCtorEq, and_false, or_false]
      rw [timingCall_complete hs]
      refine Slots.emitSingleMetricLine ?_ isServer lineNow s
      have hset : Slots _ _ _ _ _ _ (tm.setStage s (quicTimingStageComplete now (tm.stage s))) :=
        h.setStage s fun he => absurd he hs
      exact ⟨hset.1, hset.2, hset.3, hset.4, hset.5, hset.6, hset.7, hset.8⟩
  | abort s =>
    simp only [reduceCtorEq, and_false, or_false]
    exact h.setStage s fun _ => rfl
  | clientHelloSent =>
    simp only [reduceCtorEq, and_false, or_false]
    unfold Timing.timingCall
    dsimp only
    split_ifs
    · exact h
    · exact ⟨h.1, h.2, h.3, h.4, h.5, h.6, h.7, h.8⟩
  | clientProcessedServerHello =>
    simp only [reduceCtorEq, and_false, or_false]
    unfold Timing.timingCall
    dsimp only
    split
    · exact ⟨h.1, h.2, h.3, h.4, h.5, h.6, h.7, h.8⟩
    · exact h
  | serverClientHelloProcessBegin =>
    simp only [reduceCtorEq, and_false, or_false]
    exact ⟨h.1, h.2, h.3, h.4, h.5, h.6, h.7, h.8⟩
  | serverClientHelloProcessed =>
    simp only [reduceCtorEq, and_false, or_false]
    unfold Timing.timingCall serverClientHelloProcessed
    dsimp only
    split_ifs
    · exact h
    · exact ⟨h.1, h.2, h.3, h.4, h.5, h.6, h.7, h.8⟩
  | serverHelloReady =>
    simp only [reduceCtorEq, and_false, or_false, and_true]
    unfold Timing.timingCall
    rcases ht : tm.serverClienthelloTime with _ | time
    · simpa using h
    · rcases hp : tm.serverHelloPreparation with _ | v
      · have hset : Slots sh fin kex (prep ∨ (some time).isSome = true) (kex ∧ prep) done
            { tm with
              serverClienthelloTime := some time
              serverHelloPreparation := some ((now : ℕ) - time) } :=
          ⟨h.1, h.2, h.3, h.4, by simp, h.6, h.7, h.8⟩
        exact hset.serverHelloBuild (fun hb => ⟨hb.1, .inl hb.2⟩) isServer lineNow
      · have hprep : prep := h.5.mp (by simp [hp])
        simpa [hprep] using h

/-- **A packet event.** -/
theorem Slots.packet (h : Slots sh fin kex prep built done tm) (event : EventKey) (inp : LogInput)
    (ha : inp.storeAlloc = true) (mask : ℕ) (line : Line) :
    Slots (sh ∨ serverHelloSent event mask = true) (fin ∨ finishedSent event mask = true) kex prep
      built (done ∨ tm.clientReady = true ∧ event.isServer = false)
      (logPacket event inp mask line tm).2 := by
  have hafter {sh fin kex prep built done : Prop} {tm : HandshakeTiming}
      (h : Slots sh fin kex prep built done tm) :
      Slots sh fin kex prep built done (maybeEmitInternal event inp mask tm .after).2 := by
    unfold maybeEmitInternal
    dsimp only
    split_ifs
    · exact h.emitClientValidated event inp.now
    · exact h
  refine hafter ?_
  rw [ha]
  generalize hb : (maybeEmitInternal event inp mask tm .before).2 = before
  cases hs : event.isServer
  · have hb : (Timing.emitClientHandshakeDone event inp (Timing.emitServerHelloProcessed
        event inp.now (Timing.emitClientHelloBuild event inp.now tm).2).2).2 = before := by
      rw [← hb, maybeEmitInternal, if_neg (by simp [hs])]
      rfl
    have hready : (Timing.emitServerHelloProcessed event inp.now
        (Timing.emitClientHelloBuild event inp.now tm).2).2.clientReady = tm.clientReady := by
      rw [(announces_emitServerHelloProcessed event inp.now _).clientReady,
        (announces_emitClientHelloBuild event inp.now tm).clientReady]
    have hd := ((h.announces (announces_emitClientHelloBuild event inp.now tm)
      (by decide)).announces (announces_emitServerHelloProcessed event inp.now _)
        (by decide)).emitClientHandshakeDone event inp
    rw [hb, hready] at hd
    simpa using hd.writeLine (fun he => absurd (hs.symm.trans he) (by decide)) line
  · have hb : (Timing.emitServerHandshakeDone event inp.now mask tm).2 = before := by
      rw [← hb, maybeEmitInternal, if_pos hs]
    obtain ⟨hd, hdone⟩ := h.emitServerHandshakeDone event inp.now mask
    rw [hb] at hd hdone
    simpa using hd.writeLine (fun _ => hdone) line

end Slots

/-! ### Runs -/

section Runs

variable {lib : X509Lib} {log : LogState} {steps : List SessionStep} {s : Session}
variable {lines : List Line} {sh fin kex prep check : Prop}

/-- The lines written and held are those formatted, and the slots are as the steps left them. -/
structure Kept (lines : List Line) (sh fin kex prep check : Prop) (s : Session) : Prop where
  perm : (s.lines.filter isPacket ++ held s.timing.pending).Perm lines
  only : OnlyPackets s.timing.pending
  slots : Slots sh fin kex prep (kex ∧ prep) check s.timing

theorem kept_start : Kept [] False False False False False (.start log) :=
  ⟨.refl _, by simp [OnlyPackets, Session.start, HandshakeTiming.init],
    by simpa [Session.start] using slots_init⟩

/-- **A packet event.** -/
theorem Kept.packet (h : Kept lines sh fin kex prep check s) {inp : LogInput}
    {event : PacketLogEvent} {l : PacketLine} {mask : ℕ} (ha : allocates (.packet inp event))
    (hf : formats lib s (.packet inp event) = some (l, mask)) :
    Kept (lines ++ [.packet l]) (sh ∨ serverHelloSent l.event.toEventKey mask = true)
      (fin ∨ finishedSent l.event.toEventKey mask = true) kex prep
      (check ∨ s.timing.clientReady = true ∧ l.event.isServer = false)
      (s.step lib (.packet inp event)) := by
  obtain ⟨he, hl, ht⟩ := step_of_formats hf
  obtain ⟨hperm, honly⟩ := perm_of_logs (logs_logPacket event.toEventKey inp mask (.packet l)
    s.timing) h.only
  refine ⟨?_, ?_, ?_⟩
  · rw [hl, ht, List.filter_append, List.append_assoc]
    refine (hperm.append_left _).trans (List.perm_middle.trans ?_)
    exact (h.perm.cons _).trans (List.perm_append_singleton _ _).symm
  · rw [ht]
    exact honly
  · rw [ht, he]
    exact h.slots.packet event.toEventKey inp ha.2.1 mask (.packet l)

/-- **A TLS callback.** -/
theorem Kept.timing (h : Kept lines sh fin kex prep check s) (hh : s.hung = false)
    (isServer : Bool) (call : TimingCall) (now lineNow : OsslTime) :
    Kept lines sh fin (kex ∨ EndsServerKex s (.timing isServer call now lineNow))
      (prep ∨ PreparesServerHello s (.timing isServer call now lineNow)) check
      (s.step lib (.timing isServer call now lineNow)) := by
  obtain ⟨hperm, honly⟩ :=
    perm_of_moves (moves_timingCall isServer now lineNow s.timing call) h.only
  refine ⟨?_, ?_, ?_⟩
  · simpa [Session.step, hh] using (hperm.append_left _).trans h.perm
  · simpa [Session.step, hh] using honly
  · simpa [Session.step, hh, EndsServerKex, PreparesServerHello] using
      h.slots.timingCall isServer now lineNow call

theorem Kept.step (lib : X509Lib) (h : Kept lines sh fin kex prep check s) {x : SessionStep}
    (ha : allocates x) :
    Kept (lines ++ ((formats lib s x).map fun f => Line.packet f.1).toList)
      (sh ∨ SendsServerHello lib s x) (fin ∨ SendsFinished lib s x) (kex ∨ EndsServerKex s x)
      (prep ∨ PreparesServerHello s x) (check ∨ LogsAfterCheck lib s x) (s.step lib x) := by
  cases x with
  | packet inp event =>
    rcases hf : formats lib s (.packet inp event) with _ | ⟨l, mask⟩
    · obtain ⟨hl, ht⟩ := step_of_formats_none hf
      have h' : Kept lines sh fin kex prep check (s.step lib (.packet inp event)) :=
        ⟨by rw [hl, ht]; exact h.perm, by rw [ht]; exact h.only, by rw [ht]; exact h.slots⟩
      simpa [SendsServerHello, SendsFinished, LogsAfterCheck, EndsServerKex, PreparesServerHello,
        hf] using h'
    · simpa [SendsServerHello, SendsFinished, LogsAfterCheck, EndsServerKex, PreparesServerHello,
        hf] using h.packet ha hf
  | timing isServer call now lineNow =>
    by_cases hh : s.hung = true
    · simpa [SendsServerHello, SendsFinished, LogsAfterCheck, EndsServerKex, PreparesServerHello,
        formats, Session.step, hh] using h
    · simpa [SendsServerHello, SendsFinished, LogsAfterCheck, formats] using
        h.timing (by simpa using hh) isServer call now lineNow

/-- **A whole run.** -/
theorem kept_run (lib : X509Lib) (log : LogState) (ha : ∀ x ∈ steps, allocates x) :
    Kept (formatted lib log steps)
      (AnyMeet (Session.step lib) (SendsServerHello lib) (.start log) steps)
      (AnyMeet (Session.step lib) (SendsFinished lib) (.start log) steps)
      (AnyMeet (Session.step lib) EndsServerKex (.start log) steps)
      (AnyMeet (Session.step lib) PreparesServerHello (.start log) steps)
      (AnyMeet (Session.step lib) (LogsAfterCheck lib) (.start log) steps)
      (run (Session.step lib) (.start log) steps) := by
  induction steps using List.reverseRecOn with
  | nil => exact kept_start
  | append_singleton steps x ih =>
    have h := (ih fun y hy => ha y (List.mem_append_left _ hy)).step lib (ha x (by simp))
    simpa only [anyMeet_concat, formatted, outputs_append, outputs, List.append_nil, run_append,
      run_cons, run_nil] using h

theorem held_eq_nil {p : Slot → Option Line} : held p = [] ↔ ∀ slot, p slot = none := by
  constructor
  · intro h slot
    simp only [held, List.append_eq_nil_iff, Option.toList_eq_nil_iff] at h
    cases slot
    · exact h.1.1
    · exact h.1.2
    · exact h.2
  · intro h
    simp [held, h]

/-- **Which lines are written.** If all allocations succeed, then each packet line that was
formatted has been written once, at whatever point the connection is freed, if and only if its
ServerHello and its Finished have been let go: a run that sends a ServerHello has a key exchange
that ends and a ServerHello that gets ready after a ClientHello was processed, and a run in which a
client sends a Finished has a packet of the client after a check of a CertificateVerify. -/
theorem written_iff (lib : X509Lib) (log : LogState) (steps : List SessionStep)
    (ha : ∀ x ∈ steps, allocates x) :
    ((run (Session.step lib) (.start log) steps).lines.filter isPacket).Perm
      (formatted lib log steps) ↔
      (AnyMeet (Session.step lib) (SendsServerHello lib) (.start log) steps →
        AnyMeet (Session.step lib) EndsServerKex (.start log) steps ∧
          AnyMeet (Session.step lib) PreparesServerHello (.start log) steps) ∧
      (AnyMeet (Session.step lib) (SendsFinished lib) (.start log) steps →
        AnyMeet (Session.step lib) (LogsAfterCheck lib) (.start log) steps) := by
  obtain ⟨hperm, -, hslots⟩ := kept_run lib log ha
  have hnone {o : Option Line} {a b : Prop} (h : o.isSome = true ↔ a ∧ ¬ b) :
      o = none ↔ (a → b) := by
    rw [← Option.not_isSome_iff_eq_none, h, not_and, not_not]
  rw [← hnone hslots.serverInitial, ← hnone hslots.clientFinished]
  have hheld : ((run (Session.step lib) (.start log) steps).lines.filter isPacket).Perm
      (formatted lib log steps) ↔
      held (run (Session.step lib) (.start log) steps).timing.pending = [] := by
    constructor
    · intro h
      have hlen := (h.trans hperm.symm).length_eq
      rw [List.length_append] at hlen
      exact List.eq_nil_of_length_eq_zero (by omega)
    · intro h
      rwa [h, List.append_nil] at hperm
  rw [hheld, held_eq_nil]
  constructor
  · intro h
    exact ⟨h _, h _⟩
  · rintro ⟨hi, hf⟩ slot
    cases slot
    · exact hi
    · exact hf
    · exact hslots.serverHandshakeDone

end Runs

/-- A Handshake packet that is sent, with a CRYPTO frame. -/
def sentCrypto (now : OsslTime) (isServer : Bool) (message : Wire.Packet.Bytes) : SessionStep :=
  .packet ⟨now, fun _ => true, true, true, none⟩
    { isServer := isServer, isSend := true, encLevel := .handshake, packetType := some .handshake,
      packetNumber := 0, datagramSize := 1200,
      payload := [6, 0, UInt8.ofNat message.length] ++ message,
      haveCreditBefore := false, creditBefore := 0, creditBeforeUnlimited := false,
      haveCreditAfter := false, creditAfter := 0, creditAfterUnlimited := false,
      clientCreditKnown := false, clientCreditUnlimited := false,
      haveCreditDelta := false, creditDelta := 0 }

/-- A server that sends its ServerHello and then measures it. -/
def serverRun : List SessionStep :=
  [.timing true .serverClientHelloProcessed 1 1, .timing true (.begin .serverKex) 2 2,
    sentCrypto 2 true [2, 0, 0, 1, 3], .timing true (.complete .serverKex) 3 3,
    .timing true .serverHelloReady 4 4]

theorem written_iff_serverRun :
    (formatted noX509 .init serverRun).length = 1 ∧
      ((run (Session.step noX509) (.start .init) serverRun).lines.filter isPacket).Perm
        (formatted noX509 .init serverRun) := by
  refine ⟨by decide +kernel, (written_iff noX509 .init serverRun ?_).mpr ⟨fun _ => ⟨?_, ?_⟩, ?_⟩⟩
  · simp [serverRun, allocates, sentCrypto]
  · exact .inr (.inr (.inr (.inl ⟨by decide +kernel, by decide +kernel, _, _, _, rfl⟩)))
  · exact .inr (.inr (.inr (.inr (.inl ⟨by decide +kernel, by decide +kernel, _, _, _, rfl⟩))))
  · simp [serverRun, AnyMeet, SendsFinished, formats, sentCrypto, finishedSent]

/-- A client that resumes a session checks no CertificateVerify; the line of its Finished is held
and never written. -/
theorem finished_line_lost :
    let steps := [sentCrypto 0 false ([20, 0, 0, 32] ++ List.replicate 32 7)]
    (∀ x ∈ steps, allocates x) ∧ (formatted noX509 .init steps).length = 1 ∧
      (run (Session.step noX509) (.start .init) steps).lines.length = 0 := by
  refine ⟨?_, by decide +kernel, by decide +kernel⟩
  simp [allocates, sentCrypto]

end PapQuic.Log.Conservation
