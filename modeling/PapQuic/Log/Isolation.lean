import PapQuic.Lib.Run
import PapQuic.Log.Notes
import PapQuic.Log.Stream
import PapQuic.Log.Termination

/-! # Connections that share the packet log

The reassembly states and the metadata table of `ssl/quic/quic_debug.c` are static variables: all
connections of a process go through them. So what is printed for a connection `c` may depend on the
others, in two ways. A CRYPTO frame of `c` may be taken for the rest of a message that another
connection left half sent (`lines_differ_after_abandoned_message`), and a fragment printed without a
note of its own takes the note that is in its slot, whoever put it there.

The lines of `c` do not depend on the other connections (`lines_eq_of_same_events`) when at each
packet (`Apart`)

* CRYPTO data comes while a message is half collected only if both are of `c` or neither is;
* no message of `c` whose slot another connection has written (`Foreign`) is cut by the end of a
  CRYPTO frame, and each of them is parsed to a note (`Uncut`);
* the frame lists of the other connections end.

The proof compares a run with the run of the packets of `c` alone. The two agree on the messages
that `c` has half sent and on the slots that no other connection has written (`Rel`), and what `c`
prints depends on nothing else (`Same`). -/

namespace PapQuic.Log.Isolation

open Lib.Printf Lib.Run Wire.Packet Log.Metadata Log.Handshake
open Log.Stream Log.FrameList Log.Termination

variable (lib : X509Lib)

/-! ### Annotations -/

/-- The message types that are printed with an annotation: ClientHello, ServerHello, Certificate and
CertificateVerify. -/
def annotated (hsType : UInt8) : Bool := hsType = 1 ∨ hsType = 2 ∨ hsType = 11 ∨ hsType = 15

/-- The note that the parser of a message finds. -/
def parsedNote (m : HsMessage) : Option Text :=
  (parseHandshakeMessage lib m.hsType m.body).bind TlsHandshakeMetadata.packetNote

/-- What can be printed of a slot: its label, its note, and the detail where that stands in for a
note. -/
def visible (tls : TlsMetadata) (t : UInt8) : Option Text × Option Text × Option Text :=
  ((tls t).label, (tls t).packetNote, if t = 11 ∨ t = 15 then (tls t).detail else none)

theorem emit_congr {tls tls' : TlsMetadata} {t : UInt8} (h : visible tls t = visible tls' t)
    (noted : Bool) :
    packetLogEmitHandshakeFragment tls t (if noted then packetLogSelectNote tls t else none) =
      packetLogEmitHandshakeFragment tls' t (if noted
        then packetLogSelectNote tls' t else none) := by
  simp only [visible, Prod.mk.injEq] at h
  simp only [packetLogEmitHandshakeFragment, packetLogSelectNote, slotNote, h]

theorem record_congr {tls tls' : TlsMetadata} {t' : UInt8} (h : visible tls t' = visible tls' t')
    (t : UInt8) (r : TlsHandshakeMetadata) :
    visible (packetLogRecordMetadata tls t r) t' =
      visible (packetLogRecordMetadata tls' t r) t' := by
  simp only [visible, Prod.mk.injEq] at h
  by_cases he : t' = t
  · subst he
    simp only [visible, packetLogRecordMetadata, Function.update_self, h.1, h.2.1]
    split_ifs at h ⊢
    · rw [h.2.2]
    · rfl
  · simpa [visible, packetLogRecordMetadata, he] using h

theorem parse_unannotated {t : UInt8} {body : Bytes} {r : TlsHandshakeMetadata}
    (ht : annotated t = false) (h : parseHandshakeMessage lib t body = some r) :
    r.label = none ∧ r.packetNote = none := by
  cases Notes.recorded_parse h with
  | plain => exact ⟨rfl, rfl⟩
  | note _ _ hn => cases hn <;> cases ht
  | detail _ h11 =>
    subst h11
    cases ht

/-- The slots of the other types never show anything. -/
theorem visible_process {t : UInt8} (ht : annotated t = false) (tls : TlsMetadata) (t' : UInt8)
    (body : Bytes) :
    visible (packetLogProcessHandshakeMessage lib tls t' body) t = visible tls t := by
  unfold packetLogProcessHandshakeMessage
  rcases hp : parseHandshakeMessage lib t' body with _ | r
  · rfl
  · by_cases he : t = t'
    · subst he
      obtain ⟨hl, hn⟩ := parse_unannotated lib ht hp
      have hdetail : ¬ (t = 11 ∨ t = 15) := by
        rintro (rfl | rfl) <;> cases ht
      simp [visible, packetLogRecordMetadata, hl, hn, hdetail]
    · simp [visible, packetLogRecordMetadata, he]

theorem visible_runCalls {t : UInt8} (ht : annotated t = false) (calls : List HsCall) (o : HsOut) :
    visible (runCalls lib o calls).tls t = visible o.tls t := by
  refine run_invariant (fun o' : HsOut => visible o'.tls t = visible o.tls t) (fun o' call h => ?_)
    calls rfl
  cases call with
  | process t' body => exact (visible_process lib ht o'.tls t' body).trans h
  | event | fragment | handshakeData => exact h

/-! ### Calls that print the same from tables that agree -/

section Same

variable (F : UInt8 → Prop)

/-- The same was printed, and the tables agree on the slots that are not in `F`. -/
structure Alike (o o' : HsOut) : Prop where
  fragments : o.fragments = o'.fragments
  tables : ∀ t, ¬ F t → visible o.tls t = visible o'.tls t

/-- The calls print the same from tables that agree, and leave them so. -/
def Same (calls : List HsCall) : Prop :=
  ∀ o o', Alike F o o' → Alike F (runCalls lib o calls) (runCalls lib o' calls)

variable {F}

theorem Same.append {a b : List HsCall} (ha : Same lib F a) (hb : Same lib F b) :
    Same lib F (a ++ b) := by
  intro o o' h
  simp only [runCalls, List.foldl_append]
  exact hb _ _ (ha o o' h)

theorem same_nil : Same lib F [] := fun _ _ h => h

theorem same_event (t : UInt8) : Same lib F [.event t] := fun _ _ h => ⟨h.fragments, h.tables⟩

theorem same_handshakeData : Same lib F [.handshakeData] :=
  fun _ _ h => ⟨congrArg (· ++ ["HANDSHAKE-DATA".toList]) h.fragments, h.tables⟩

theorem same_process (t : UInt8) (body : Bytes) : Same lib F [.process t body] := by
  refine fun o o' h => ⟨h.fragments, fun t' ht' => ?_⟩
  simp only [runCalls, List.foldl_cons, List.foldl_nil, runCall, packetLogProcessHandshakeMessage]
  split
  · exact record_congr (h.tables t' ht') t _
  · exact h.tables t' ht'

theorem same_fragment {t : UInt8} (ht : ¬ F t) (noted : Bool) : Same lib F [.fragment t noted] := by
  refine fun o o' h => ⟨?_, h.tables⟩
  simp only [runCalls, List.foldl_cons, List.foldl_nil, runCall]
  rw [h.fragments, emit_congr (h.tables t ht)]

/-- A message with a slot in `F` is parsed to a note. -/
def Noted (F : UInt8 → Prop) (m : HsMessage) : Prop := F m.hsType → (parsedNote lib m).isSome

/-- A message that is parsed to a note is printed with it. -/
theorem same_message {m : HsMessage} (hm : Noted lib F m) : Same lib F m.calls := by
  by_cases ht : F m.hsType
  · obtain ⟨n, hn⟩ := Option.isSome_iff_exists.mp (hm ht)
    obtain ⟨r, hr, hrn⟩ := Option.bind_eq_some_iff.mp hn
    refine fun o o' h => ⟨?_, (same_process lib m.hsType m.body o o' h).tables⟩
    simp [runCalls, HsMessage.calls, runCall, packetLogProcessHandshakeMessage, hr,
      packetLogRecordMetadata, hrn, packetLogSelectNote, slotNote, packetLogEmitHandshakeFragment,
      h.fragments]
  · exact (same_process lib _ _).append lib ((same_event lib _).append lib (same_fragment lib ht _))

theorem same_messages : ∀ {msgs : List HsMessage}, (∀ m ∈ msgs, Noted lib F m) →
    Same lib F (callsOf msgs)
  | [], _ => same_nil lib
  | m :: msgs, h => by
    rw [callsOf_cons]
    exact (same_message lib (h m (by simp))).append lib
      (same_messages fun m' hm' => h m' (by simp [hm']))

theorem same_finish (st : PacketLogHsState) : Same lib F (packetLogFinishHsMessage st) := by
  unfold packetLogFinishHsMessage
  split
  · split_ifs
    · exact (same_process lib _ _).append lib (same_event lib _)
    · exact same_event lib _
  · exact same_event lib _

/-! ### Messages of the connection that are not cut -/

/-- What may follow the whole messages in a CRYPTO frame, with the number of bytes that are then
missing: less than a header, or the start of a message with a slot that is not in `F`. -/
inductive CutAfter (F : UInt8 → Prop) : Bytes → ℕ → Prop
  | header {tail : Bytes} (h : tail.length < 4) : CutAfter F tail 0
  | body (m : HsMessage) {k : ℕ} (hk : k < m.body.length) (ht : ¬ F m.hsType) :
    CutAfter F (m.header ++ m.body.take k) (m.body.length - k)

/-- The data of successive CRYPTO frames, where `missing` bytes of a message are still to come: no
message with a slot in `F` is cut, and each is parsed to a note. -/
def Uncut (F : UInt8 → Prop) : ℕ → List Bytes → Prop
  | _, [] => True
  | missing, data :: frames => ∃ msgs tail k, data.drop missing = stream msgs ++ tail ∧
      (∀ m ∈ msgs, Noted lib F m) ∧ CutAfter F tail k ∧ Uncut F (missing - data.length + k) frames

/-- Two reassembly states with the same `missing` bytes of the same message, whose slot is not in
`F`, or without a message. -/
inductive Synced (F : UInt8 → Prop) : ℕ → PacketLogHsState → PacketLogHsState → Prop
  | idle {a b : PacketLogHsState} (ha : a.active = false) (hb : b.active = false) : Synced F 0 a b
  | busy {a : PacketLogHsState} (ha : a.active = true) (hpos : 0 < a.remaining)
      (ht : ¬ F a.hsType) : Synced F a.remaining a a

/-- The loop from a state without a message. -/
theorem append_idle (alloc : Bool) {a b : PacketLogHsState} (ha : a.active = false)
    (hb : b.active = false) {msgs : List HsMessage} {tail : Bytes} {k : ℕ}
    (hm : ∀ m ∈ msgs, Noted lib F m) (hc : CutAfter F tail k) :
    ∃ calls a' b', packetLogAppendHandshakeBytes alloc a (stream msgs ++ tail) = (calls, a') ∧
      packetLogAppendHandshakeBytes alloc b (stream msgs ++ tail) = (calls, b') ∧
      Same lib F calls ∧ Synced F k a' b' := by
  rw [append_stream_append alloc ha, append_stream_append alloc hb]
  have hp := same_messages lib hm
  cases hc with
  | header h4 =>
    by_cases hne : tail = []
    · subst hne
      exact ⟨_, _, _, rfl, rfl, hp.append lib (same_nil lib), .idle ha hb⟩
    · rw [appendHandshakeBytes_eq hne, appendHandshakeBytes_eq hne, hsStep_short alloc ha h4,
        hsStep_short alloc hb h4]
      exact ⟨_, _, _, rfl, rfl, hp.append lib (same_handshakeData lib), .idle ha hb⟩
  | @body m k hk ht =>
    have hne : m.header ++ m.body.take k ≠ [] := by simp [HsMessage.header]
    rw [appendHandshakeBytes_eq hne, appendHandshakeBytes_eq hne, hsStep_start alloc ha m hk,
      hsStep_start alloc hb m hk]
    refine ⟨_, _, _, rfl, rfl, hp.append lib (same_fragment lib ht false), ?_⟩
    have hpos : 0 < (partialState alloc m k).remaining := Nat.sub_pos_of_lt hk
    exact Synced.busy (a := partialState alloc m k) rfl hpos ht

/-- The first round of the loop from a state with a message. -/
theorem hsStep_busy (alloc : Bool) {a : PacketLogHsState} (ha : a.active = true)
    (hpos : 0 < a.remaining) {data : Bytes} (hd : data ≠ []) :
    (data.length < a.remaining ∧ ∃ a', hsStep alloc a data =
      ([.fragment a.hsType false], a', none) ∧
      a'.active = true ∧ a'.remaining = a.remaining - data.length ∧ a'.hsType = a.hsType) ∨
    (a.remaining ≤ data.length ∧ ∃ body, hsStep alloc a data =
      (packetLogFinishHsMessage body ++ [.fragment a.hsType true], resetHsState,
        some (data.drop a.remaining)) ∧ body.hsType = a.hsType) := by
  have hlen : 0 < data.length := List.length_pos_iff.mpr hd
  unfold hsStep
  rw [if_pos ha]
  have hchunk : data.take (min data.length a.remaining) ≠ [] := by
    intro h
    have := congrArg List.length h
    rw [List.length_take, List.length_nil] at this
    omega
  simp only [packetLogAppendHsChunk, if_neg hchunk, afterChunk]
  by_cases hlt : data.length < a.remaining
  · refine .inl ⟨hlt, ?_⟩
    rw [Nat.min_eq_left hlt.le, List.take_length, if_pos (by simp; omega)]
    exact ⟨_, rfl, by simp; omega, rfl, rfl⟩
  · refine .inr ⟨by omega, ?_⟩
    rw [Nat.min_eq_right (by omega), if_neg (by simp; omega)]
    exact ⟨_, rfl, rfl⟩

/-- **One CRYPTO frame of the connection**: the same is printed on both sides, and the states stay
in step. -/
theorem append_synced (alloc : Bool) {missing k : ℕ} {a b : PacketLogHsState}
    (hs : Synced F missing a b) {data tail : Bytes} {msgs : List HsMessage} (hd : data ≠ [])
    (hsplit : data.drop missing = stream msgs ++ tail) (hm : ∀ m ∈ msgs, Noted lib F m)
    (hc : CutAfter F tail k) :
    ∃ calls a' b', packetLogAppendHandshakeBytes alloc a data = (calls, a') ∧
      packetLogAppendHandshakeBytes alloc b data = (calls, b') ∧
      Same lib F calls ∧ Synced F (missing - data.length + k) a' b' := by
  cases hs with
  | idle ha hb =>
    rw [List.drop_zero] at hsplit
    rw [hsplit, Nat.zero_sub, Nat.zero_add]
    exact append_idle lib alloc ha hb hm hc
  | busy ha hpos ht =>
    rcases hsStep_busy alloc ha hpos hd with ⟨hlt, a', hst, ha', hr, ht'⟩ | ⟨hle, body, hst, hb⟩
    · -- the frame ends before the message does
      have hnil : stream msgs ++ tail = [] := by rw [← hsplit]; exact List.drop_of_length_le hlt.le
      have hk : k = 0 := by
        cases hc with
        | header => rfl
        | body m _ _ => simp [HsMessage.header] at hnil
      rw [appendHandshakeBytes_eq hd, hst, hk, Nat.add_zero, ← hr]
      exact ⟨_, a', a', rfl, rfl, same_fragment lib ht false,
        .busy ha' (by omega) (by rw [ht']; exact ht)⟩
    · -- the message ends in the frame, and the loop goes on without one
      obtain ⟨calls, a', b', h1, h2, hp, hs⟩ :=
        append_idle lib alloc (a := resetHsState) (b := resetHsState) rfl rfl hm hc
      rw [h1] at h2
      rw [appendHandshakeBytes_eq hd, hst, hsplit, Nat.sub_eq_zero_of_le hle, Nat.zero_add]
      simp only [h1]
      refine ⟨_, a', b', rfl, ?_,
        ((same_finish lib _).append lib (same_fragment lib ht true)).append lib hp, hs⟩
      rw [(Prod.mk.inj h2).2]

end Same

/-! ### The frames of a packet -/

/-- The data a frame gives to the reassembly state of its packet, when it gives any. -/
def frameData (event : EventKey) : LoggedFrame × ℕ → Option Bytes
  | (.crypto f, _) =>
    if (event.encLevel = .initial ∨ event.encLevel = .handshake) ∧ f.data ≠ [] then some f.data
    else none
  | _ => none

/-- A frame without such data is printed the same in every state, and changes neither the reassembly
states nor the metadata table. -/
theorem logFrame_of_none (event : EventKey) {f : LoggedFrame × ℕ}
    (h : frameData event f = none) (alloc : Bool) :
    (∀ s t, (logFrame lib alloc event s f.2 f.1).1 = (logFrame lib alloc event t f.2 f.1).1) ∧
      ∀ s, (logFrame lib alloc event s f.2 f.1).2.log.hsState = s.log.hsState ∧
        (logFrame lib alloc event s f.2 f.1).2.log.tlsMetadata = s.log.tlsMetadata := by
  rcases f with ⟨frame, size⟩
  cases frame with
  | crypto f =>
    rcases hl : event.encLevel <;>
      simp_all [frameData, logFrame, packetLogAppendCryptoFragments, runCalls]
  | padding | ack | stream | ping | newToken | newConnId | connClose | pathChallenge
  | pathResponse | handshakeDone | unknown => simp [logFrame]

/-- A frame with such data: what is printed, the reassembly state and the table. -/
theorem logFrame_of_some (event : EventKey) {f : LoggedFrame × ℕ} {data : Bytes}
    (h : frameData event f = some data) (alloc : Bool) (s : SpecState) {calls : List HsCall}
    {st : PacketLogHsState} {o : HsOut}
    (hr : packetLogAppendHandshakeBytes alloc (s.log.hsState event) data = (calls, st))
    (ho : runCalls lib ⟨s.log.tlsMetadata, s.mask, []⟩ calls = o) :
    (logFrame lib alloc event s f.2 f.1).1 =
        .crypto (if o.fragments = [] then ["CRYPTO-DATA".toList] else o.fragments) f.2 ∧
      (logFrame lib alloc event s f.2 f.1).2.log.hsState =
        Function.update s.log.hsState event st ∧
      (logFrame lib alloc event s f.2 f.1).2.log.tlsMetadata = o.tls := by
  rcases f with ⟨frame, size⟩
  cases frame with
  | crypto f =>
    simp only [frameData, Option.ite_none_right_eq_some, Option.some.injEq] at h
    obtain ⟨⟨hl, -⟩, rfl⟩ := h
    rcases hl with hl | hl <;>
      simp only [logFrame, packetLogAppendCryptoFragments, hl, hr, ho, and_self]
  | padding | ack | stream | ping | newToken | newConnId | connClose | pathChallenge
  | pathResponse | handshakeDone | unknown => simp [frameData] at h

theorem ne_nil_of_frameData {event : EventKey} {f : LoggedFrame × ℕ} {data : Bytes}
    (h : frameData event f = some data) : data ≠ [] := by
  unfold frameData at h
  split at h
  · simp only [Option.ite_none_right_eq_some, Option.some.injEq] at h
    exact h.2 ▸ h.1.2
  · cases h

/-- What a frame leaves as it was: the other reassembly states, and what is visible for messages
that are not annotated. -/
theorem logFrame_frame (event : EventKey) (f : LoggedFrame × ℕ) (alloc : Bool)
    (s : SpecState) :
    (∀ key, key ≠ event →
      (logFrame lib alloc event s f.2 f.1).2.log.hsState key = s.log.hsState key) ∧
    ∀ t, annotated t = false →
      visible (logFrame lib alloc event s f.2 f.1).2.log.tlsMetadata t =
        visible s.log.tlsMetadata t := by
  rcases hf : frameData event f with _ | data
  · obtain ⟨h1, h2⟩ := (logFrame_of_none lib event hf alloc).2 s
    rw [h1, h2]
    exact ⟨fun _ _ => rfl, fun _ _ => rfl⟩
  · obtain ⟨-, h1, h2⟩ := logFrame_of_some lib event hf alloc s rfl rfl
    rw [h1, h2]
    exact ⟨fun key hk => Function.update_of_ne hk _ _, fun t ht => visible_runCalls lib ht _ _⟩

theorem logFrames_frame (event : EventKey) (alloc : ℕ → Bool) :
    ∀ (fs : List (LoggedFrame × ℕ)) (i : ℕ) (s : SpecState),
      (∀ key, key ≠ event →
        (logFrames lib event alloc i s fs).2.log.hsState key = s.log.hsState key) ∧
      ∀ t, annotated t = false →
        visible (logFrames lib event alloc i s fs).2.log.tlsMetadata t = visible s.log.tlsMetadata t
  | [], _, _ => ⟨fun _ _ => rfl, fun _ _ => rfl⟩
  | f :: fs, i, s => by
    obtain ⟨h1, h2⟩ := logFrame_frame lib event f (alloc i) s
    obtain ⟨h3, h4⟩ := logFrames_frame event alloc fs (i + 1)
      (logFrame lib (alloc i) event s f.2 f.1).2
    exact ⟨fun key hk => (h3 key hk).trans (h1 key hk), fun t ht => (h4 t ht).trans (h2 t ht)⟩

/-- Frames without data are printed the same in every state, and leave every reassembly state as it
was. -/
theorem logFrames_of_nil (event : EventKey) (alloc : ℕ → Bool) :
    ∀ (fs : List (LoggedFrame × ℕ)) (i : ℕ) (s t : SpecState),
      fs.filterMap (frameData event) = [] →
      (logFrames lib event alloc i s fs).1 = (logFrames lib event alloc i t fs).1 ∧
        (logFrames lib event alloc i s fs).2.log.hsState = s.log.hsState ∧
        (logFrames lib event alloc i s fs).2.log.tlsMetadata = s.log.tlsMetadata
  | [], _, _, _, _ => ⟨rfl, rfl, rfl⟩
  | f :: fs, i, s, t, h => by
    rcases hf : frameData event f with _ | data
    · rw [List.filterMap_cons_none hf] at h
      obtain ⟨hspec, hsame⟩ := logFrame_of_none lib event hf (alloc i)
      obtain ⟨h1, h2, h3⟩ := logFrames_of_nil event alloc fs (i + 1)
        (logFrame lib (alloc i) event s f.2 f.1).2 (logFrame lib (alloc i) event t f.2 f.1).2 h
      exact ⟨congrArg₂ List.cons (hspec s t) h1, h2.trans (hsame s).1, h3.trans (hsame s).2⟩
    · rw [List.filterMap_cons_some hf] at h
      cases h

/-- **The frames of a packet of the connection**: the same is printed on both sides, and what agreed
still does. -/
theorem logFrames_synced {F : UInt8 → Prop} (event : EventKey) (alloc : ℕ → Bool) :
    ∀ (fs : List (LoggedFrame × ℕ)) (i missing : ℕ) (s t : SpecState),
      (∀ m, ¬ F m → visible s.log.tlsMetadata m = visible t.log.tlsMetadata m) →
      Synced F missing (s.log.hsState event) (t.log.hsState event) →
      Uncut lib F missing (fs.filterMap (frameData event)) →
      (logFrames lib event alloc i s fs).1 = (logFrames lib event alloc i t fs).1 ∧
        (∀ m, ¬ F m → visible (logFrames lib event alloc i s fs).2.log.tlsMetadata m =
          visible (logFrames lib event alloc i t fs).2.log.tlsMetadata m) ∧
        ∃ missing', Synced F missing' ((logFrames lib event alloc i s fs).2.log.hsState event)
          ((logFrames lib event alloc i t fs).2.log.hsState event)
  | [], _, missing, _, _, htls, hs, _ => ⟨rfl, htls, missing, hs⟩
  | f :: fs, i, missing, s, t, htls, hs, hu => by
    rcases hf : frameData event f with _ | data
    · rw [List.filterMap_cons_none hf] at hu
      obtain ⟨hspec, hsame⟩ := logFrame_of_none lib event hf (alloc i)
      rw [← (hsame s).1, ← (hsame t).1] at hs
      rw [← (hsame s).2, ← (hsame t).2] at htls
      obtain ⟨h1, h2⟩ := logFrames_synced event alloc fs (i + 1) missing _ _ htls hs hu
      exact ⟨congrArg₂ List.cons (hspec s t) h1, h2⟩
    · rw [List.filterMap_cons_some hf] at hu
      obtain ⟨msgs, tail, k, hsplit, hm, hc, hu⟩ := hu
      obtain ⟨calls, a', b', ha, hb, hp, hsync⟩ :=
        append_synced lib (alloc i) hs (ne_nil_of_frameData hf) hsplit hm hc
      obtain ⟨hs1, hs2, hs3⟩ := logFrame_of_some lib event hf (alloc i) s ha rfl
      obtain ⟨ht1, ht2, ht3⟩ := logFrame_of_some lib event hf (alloc i) t hb rfl
      have halike := hp ⟨s.log.tlsMetadata, s.mask, []⟩ ⟨t.log.tlsMetadata, t.mask, []⟩ ⟨rfl, htls⟩
      have hsync' : Synced F (missing - data.length + k)
          ((logFrame lib (alloc i) event s f.2 f.1).2.log.hsState event)
          ((logFrame lib (alloc i) event t f.2 f.1).2.log.hsState event) := by
        rw [hs2, ht2, Function.update_self, Function.update_self]
        exact hsync
      obtain ⟨h1, h2⟩ := logFrames_synced event alloc fs (i + 1) _ _ _
        (by rw [hs3, ht3]; exact halike.tables) hsync' hu
      have hhead : (logFrame lib (alloc i) event s f.2 f.1).1 =
          (logFrame lib (alloc i) event t f.2 f.1).1 := by
        rw [hs1, ht1, halike.fragments]
      exact ⟨congrArg₂ List.cons hhead h1, h2⟩

/-! ### A process with several connections -/

/-- A packet that is logged: its connection, and what `ossl_quic_packet_log` reads of it here. -/
structure ConnEvent (ι : Type) where
  conn : ι
  key : EventKey
  alloc : ℕ → Bool
  payload : Bytes

/-- The static variables of the log, and two that the program does not have: which connection gave a
reassembly state data last, and which connections have changed what a slot of the table shows. -/
structure Process (ι : Type) where
  log : LogState
  owner : EventKey → Option ι
  writers : UInt8 → List ι

def Process.init (ι : Type) : Process ι := ⟨LogState.init, fun _ => none, fun _ => []⟩

variable {ι : Type} [DecidableEq ι]

/-- The data that a packet gives to the reassembly state, CRYPTO frame by CRYPTO frame. -/
def ConnEvent.handshakeData (e : ConnEvent ι) : List Bytes :=
  ((payloadFrames e.payload.length e.payload).elim [] Prod.fst).filterMap (frameData e.key)

/-- The frame list of a packet. `none` when it never ends: as many rounds as the payload has bytes
are enough for one that does (`appendFrames_ends`). -/
def frameList (p : Process ι) (e : ConnEvent ι) : Option FramesResult :=
  packetLogAppendFrames lib e.key e.alloc e.payload.length ⟨0, p.log⟩ e.payload

/-- The connections that have written a slot, after `c` has made `tls` into `tls'`. -/
def writersAfter (c : ι) (tls tls' : TlsMetadata) (writers : UInt8 → List ι) (t : UInt8) : List ι :=
  if visible tls' t = visible tls t then writers t else c :: writers t

omit [DecidableEq ι] in
theorem subset_writersAfter (c : ι) (tls tls' : TlsMetadata) (writers : UInt8 → List ι)
    (t : UInt8) : writers t ⊆ writersAfter c tls tls' writers t := by
  unfold writersAfter
  split_ifs
  · exact List.Subset.refl _
  · exact List.subset_cons_self _ _

/-- A packet is logged; `none` is a process that is stuck in an endless frame list. -/
def logStep (s : Option (Process ι)) (e : ConnEvent ι) : Option (Process ι) :=
  s.bind fun p => (frameList lib p e).map fun r =>
    { log := r.state.log
      owner := if e.handshakeData = [] then p.owner
        else Function.update p.owner e.key (some e.conn)
      writers := writersAfter e.conn p.log.tlsMetadata r.state.log.tlsMetadata p.writers }

/-- What is printed for a packet of `c`: its specifications, and whether decoding went to the
end. -/
def lineOf (c : ι) (s : Option (Process ι)) (e : ConnEvent ι) :
    List (List FrameSpec × Bool) :=
  if e.conn = c then
    ((s.bind fun p => frameList lib p e).map fun r => (r.specs, r.ok)).toList
  else []

/-- The frame lists on the lines of `c`. -/
def linesOf (c : ι) (s : Option (Process ι)) (history : List (ConnEvent ι)) :
    List (List FrameSpec × Bool) :=
  outputs (logStep lib) (lineOf lib c) s history

/-- The bytes that are missing of the message in a reassembly state. -/
def missing (st : PacketLogHsState) : ℕ := if st.active then st.remaining else 0

/-- Another connection than `c` has written the slot of an annotated message. -/
def Foreign (c : ι) (p : Process ι) (t : UInt8) : Prop :=
  annotated t = true ∧ ∃ i ∈ p.writers t, i ≠ c

omit [DecidableEq ι] in
/-- What others have written stays so. -/
theorem Foreign.mono {c : ι} {p p' : Process ι} {t : UInt8} (h : Foreign c p t)
    (hw : p.writers t ⊆ p'.writers t) : Foreign c p' t := by
  obtain ⟨ht, i, hi, hne⟩ := h
  exact ⟨ht, i, hw hi, hne⟩

/-- The packet does not mix what `c` sends or receives with what the others do. -/
structure ApartAt (c : ι) (p : Process ι) (e : ConnEvent ι) : Prop where
  /-- Data comes to a half collected message of the same side only. -/
  same_side : e.handshakeData ≠ [] → (p.log.hsState e.key).active = true →
    (p.owner e.key = some c ↔ e.conn = c)
  /-- No message of `c` that is going on has a slot that others have written. -/
  kept : e.conn = c → e.handshakeData ≠ [] → (p.log.hsState e.key).active = true →
    ¬ Foreign c p (p.log.hsState e.key).hsType
  /-- No message of `c` with such a slot is cut, and each is parsed to a note. -/
  uncut : e.conn = c → Uncut lib (Foreign c p) (missing (p.log.hsState e.key)) e.handshakeData
  /-- The frame lists of the others end. -/
  ends : e.conn ≠ c → ∀ rest, FrameStart e.payload rest → ¬ OverlongPadding rest

def Apart (c : ι) (s : Option (Process ι)) (e : ConnEvent ι) : Prop :=
  ∀ p, s = some p → ApartAt lib c p e

/-- `c` has a half collected message in the reassembly state. -/
def Holds (c : ι) (p : Process ι) (key : EventKey) : Prop :=
  (p.log.hsState key).active = true ∧ p.owner key = some c

/-- A process, and one that has logged the packets of `c` only. -/
structure Rel (c : ι) (p q : Process ι) : Prop where
  tables : ∀ t, ¬ Foreign c p t → visible p.log.tlsMetadata t = visible q.log.tlsMetadata t
  held : ∀ key,
    (Holds c p key ∧ 0 < (p.log.hsState key).remaining ∧
      q.log.hsState key = p.log.hsState key) ∨
    (¬ Holds c p key ∧ (q.log.hsState key).active = false)

/-- Both are stuck, or neither is. -/
def RelOpt (c : ι) (s t : Option (Process ι)) : Prop :=
  (s = none ∧ t = none) ∨ ∃ p q, s = some p ∧ t = some q ∧ Rel c p q

omit [DecidableEq ι] in
theorem frameList_eq (p : Process ι) (e : ConnEvent ι) :
    frameList lib p e = (payloadFrames e.payload.length e.payload).map fun o =>
      ⟨(logFrames lib e.key e.alloc 0 ⟨0, p.log⟩ o.1).1, o.2,
        (logFrames lib e.key e.alloc 0 ⟨0, p.log⟩ o.1).2⟩ :=
  appendFrames_eq_logFrames _ _ _ _ _ _

omit [DecidableEq ι] in
theorem handshakeData_eq {e : ConnEvent ι} {fs : List (LoggedFrame × ℕ)} {ok : Bool}
    (h : payloadFrames e.payload.length e.payload = some (fs, ok)) :
    e.handshakeData = fs.filterMap (frameData e.key) := by
  simp [ConnEvent.handshakeData, h]

omit [DecidableEq ι] in
/-- A packet of another connection. -/
theorem rel_other {c : ι} {p q : Process ι} (h : Rel c p q) {e : ConnEvent ι}
    (hc : e.conn ≠ c) (ha : ApartAt lib c p e) : RelOpt c (logStep lib (some p) e) (some q) := by
  obtain ⟨r, hr, -⟩ := appendFrames_ends lib e.key e.alloc ⟨0, p.log⟩ (ha.ends hc)
  rcases hf : payloadFrames e.payload.length e.payload with _ | ⟨fs, ok⟩
  · rw [appendFrames_eq_logFrames, hf] at hr
    cases hr
  obtain ⟨hkey, hvis⟩ := logFrames_frame lib e.key e.alloc fs 0 ⟨0, p.log⟩
  refine .inr ⟨_, q, by rw [logStep, Option.bind_some, frameList_eq, hf]; rfl, rfl,
    fun t ht => ?_, fun key => ?_⟩
  · -- a slot that shows something else now has been written by the other connection
    have hold := h.tables t fun hfor => ht (hfor.mono (subset_writersAfter ..))
    rcases hann : annotated t with _ | _
    · exact (hvis t hann).trans hold
    · by_contra hne
      refine ht ⟨hann, e.conn, ?_, hc⟩
      dsimp only [writersAfter]
      rw [if_neg fun hsame => hne (hsame.trans hold)]
      exact List.mem_cons_self
  have hd := handshakeData_eq hf
  unfold Holds
  dsimp only
  split_ifs with hnil
  · -- the packet has no data for a reassembly state
    rw [hd] at hnil
    rw [(logFrames_of_nil lib e.key e.alloc fs 0 ⟨0, p.log⟩ ⟨0, p.log⟩ hnil).2.1]
    exact h.held key
  by_cases hk : key = e.key
  · subst hk
    refine .inr ⟨fun hh => hc ?_, ?_⟩
    · simpa using hh.2
    · rcases h.held e.key with ⟨hold, -⟩ | hold
      · exact absurd ((ha.same_side hnil hold.1).mp hold.2) hc
      · exact hold.2
  · rw [hkey key hk, Function.update_of_ne hk]
    exact h.held key

omit [DecidableEq ι] in
/-- Where a packet of `c` brings data, the two processes are in step. -/
theorem Rel.synced {lib : X509Lib} {c : ι} {p q : Process ι} (h : Rel c p q) {e : ConnEvent ι}
    (hc : e.conn = c) (ha : ApartAt lib c p e) (hd : e.handshakeData ≠ []) :
    Synced (Foreign c p) (missing (p.log.hsState e.key)) (p.log.hsState e.key)
      (q.log.hsState e.key) := by
  unfold missing
  rcases h.held e.key with ⟨hold, hpos, heq⟩ | ⟨hno, hq⟩
  · rw [if_pos hold.1, heq]
    exact .busy hold.1 hpos (ha.kept hc hd hold.1)
  · have hp : (p.log.hsState e.key).active = false := by
      rcases hact : (p.log.hsState e.key).active with _ | _
      · rfl
      · exact absurd ⟨hact, (ha.same_side hd hact).mpr hc⟩ hno
    rw [if_neg (by simp [hp])]
    exact .idle hp hq

/-- A packet of `c`. -/
theorem rel_own {c : ι} {p q : Process ι} (h : Rel c p q) {e : ConnEvent ι}
    (hc : e.conn = c) (ha : ApartAt lib c p e) :
    lineOf lib c (some p) e = lineOf lib c (some q) e ∧
      RelOpt c (logStep lib (some p) e) (logStep lib (some q) e) := by
  unfold lineOf logStep
  simp only [if_pos hc, Option.bind_some, frameList_eq]
  rcases hf : payloadFrames e.payload.length e.payload with _ | ⟨fs, ok⟩
  · exact ⟨rfl, .inl ⟨rfl, rfl⟩⟩
  have hd := handshakeData_eq hf
  by_cases hnil : e.handshakeData = []
  · have hnil' := hd ▸ hnil
    obtain ⟨hspec, hp, htp⟩ :=
      logFrames_of_nil lib e.key e.alloc fs 0 ⟨0, p.log⟩ ⟨0, q.log⟩ hnil'
    obtain ⟨-, hq, htq⟩ := logFrames_of_nil lib e.key e.alloc fs 0 ⟨0, q.log⟩ ⟨0, q.log⟩ hnil'
    refine ⟨by simp [hspec], .inr ⟨_, _, rfl, rfl, fun t ht => ?_, fun key => ?_⟩⟩
    · simp only [htp, htq]
      exact h.tables t fun hfor => ht (hfor.mono (subset_writersAfter ..))
    · unfold Holds
      simp only [if_pos hnil, hp, hq]
      exact h.held key
  · obtain ⟨hspec, htab, m, hs⟩ := logFrames_synced lib e.key e.alloc fs 0 _ ⟨0, p.log⟩
      ⟨0, q.log⟩ h.tables (h.synced hc ha hnil) (hd ▸ ha.uncut hc)
    refine ⟨by simp [hspec], .inr ⟨_, _, rfl, rfl, fun t ht => htab t fun hfor =>
      ht (hfor.mono (subset_writersAfter ..)), fun key => ?_⟩⟩
    unfold Holds
    simp only [if_neg hnil]
    have hkp := (logFrames_frame lib e.key e.alloc fs 0 ⟨0, p.log⟩).1
    have hkq := (logFrames_frame lib e.key e.alloc fs 0 ⟨0, q.log⟩).1
    by_cases hk : key = e.key
    · subst hk
      rw [Function.update_self, hc]
      generalize (logFrames lib e.key e.alloc 0 ⟨0, p.log⟩ fs).2.log.hsState e.key = a at hs ⊢
      generalize (logFrames lib e.key e.alloc 0 ⟨0, q.log⟩ fs).2.log.hsState e.key = b at hs ⊢
      cases hs with
      | idle ha hb => exact .inr ⟨by simp [ha], hb⟩
      | busy ha hpos ht => exact .inl ⟨⟨ha, rfl⟩, hpos, rfl⟩
    · rw [hkp key hk, hkq key hk, Function.update_of_ne hk]
      exact h.held key

/-- The lines of `c` are those of its own packets alone. -/
theorem linesOf_filter (c : ι) {history : List (ConnEvent ι)}
    (h : AllMeet (logStep lib) (Apart lib c) (some (Process.init ι)) history) :
    linesOf lib c (some (Process.init ι)) history =
      linesOf lib c (some (Process.init ι)) (history.filter fun e => e.conn = c) := by
  refine outputs_eq_filter (RelOpt c) ?_ ?_ ?_ h
  · rintro s t e (⟨rfl, rfl⟩ | ⟨p, q, rfl, rfl, hr⟩) ho hcond
    · exact ⟨rfl, .inl ⟨rfl, rfl⟩⟩
    · exact rel_own lib hr (by simpa using ho) (hcond p rfl)
  · rintro s t e (⟨rfl, rfl⟩ | ⟨p, q, rfl, rfl, hr⟩) ho hcond
    · exact ⟨by simp [lineOf], .inl ⟨rfl, rfl⟩⟩
    · have hc : e.conn ≠ c := by simpa using ho
      exact ⟨by simp [lineOf, hc], rel_other lib hr hc (hcond p rfl)⟩
  · refine .inr ⟨_, _, rfl, rfl, fun _ _ => rfl, fun key => .inr ⟨?_, rfl⟩⟩
    rintro ⟨hact, -⟩
    cases hact

/-- **Isolation.** In two histories with the same packets of `c`, whose packets all keep `c` apart
from the others, the lines of `c` have the same frame lists. -/
theorem lines_eq_of_same_events (c : ι) (history history' : List (ConnEvent ι))
    (hsame : (history.filter fun e => e.conn = c) = history'.filter fun e => e.conn = c)
    (h : AllMeet (logStep lib) (Apart lib c) (some (Process.init ι)) history)
    (h' : AllMeet (logStep lib) (Apart lib c) (some (Process.init ι)) history') :
    linesOf lib c (some (Process.init ι)) history =
      linesOf lib c (some (Process.init ι)) history' := by
  rw [linesOf_filter lib c h, linesOf_filter lib c h', hsame]

/-- A packet a server receives at the Handshake level, with one CRYPTO frame of at most 63 bytes. -/
def handshakePacket (conn : ℕ) (data : Bytes) : ConnEvent ℕ :=
  ⟨conn, ⟨true, false, .handshake⟩, fun _ => true, 0x06 :: 0x00 :: UInt8.ofNat data.length :: data⟩

/-- A Finished message. -/
def finishedData : Bytes := [0x14, 0x00, 0x00, 0x01, 0x07]

/-- A CertificateVerify message of a signature of one byte. -/
def verifyData (hi lo : UInt8) : Bytes := [0x0f, 0x00, 0x00, 0x05, hi, lo, 0x00, 0x01, 0xaa]

/-- Two connections that sign with different schemes. The slot of CertificateVerify is the other
connection's when the message of this one comes. -/
theorem lines_eq_of_same_events_verify :
    linesOf noX509 0 (some (Process.init ℕ))
        [handshakePacket 1 (verifyData 0x04 0x03),
          handshakePacket 0 (verifyData 0x08 0x04 ++ finishedData)] =
      linesOf noX509 0 (some (Process.init ℕ))
        [handshakePacket 0 (verifyData 0x08 0x04 ++ finishedData)] := by
  have huncut (p : Process ℕ) :
      Uncut noX509 (Foreign 0 p) 0 [verifyData 0x08 0x04 ++ finishedData] := by
    refine ⟨[⟨0x0f, [0x08, 0x04, 0x00, 0x01, 0xaa], by decide⟩, ⟨0x14, [7], by decide⟩], [], 0,
      by decide, ?_, .header (by decide), trivial⟩
    simp only [List.mem_cons, List.not_mem_nil, or_false, forall_eq_or_imp, forall_eq]
    exact ⟨fun _ => by decide, fun hfor => absurd hfor.1 (by decide)⟩
  have hends : ∀ rest, FrameStart (handshakePacket 1 (verifyData 0x04 0x03)).payload rest →
      ¬ OverlongPadding rest := by
    rintro rest ⟨-, hr⟩
    cases hr with
    | refl => decide
    | step _ hs hr =>
      obtain rfl : _ = [] := (Option.some.inj hs).symm
      cases hr with
      | refl => decide
      | step hne _ _ => exact absurd rfl hne
  refine lines_eq_of_same_events noX509 0 _ _ rfl ⟨?_, ?_, trivial⟩ ⟨?_, trivial⟩ <;>
    (rintro p hp; cases hp)
  · exact ⟨fun _ h => (by cases h), fun h => (by cases h), fun h => (by cases h), fun _ => hends⟩
  · exact ⟨fun _ h => absurd h (by decide), fun _ _ h => absurd h (by decide), fun _ => huncut _,
      fun h => absurd rfl h⟩
  · exact ⟨fun _ h => (by cases h), fun _ _ h => (by cases h), fun _ => huncut _,
      fun h => absurd rfl h⟩

/-- A connection that stops after two bytes of a Certificate of 32 bytes turns the Finished message
of the next connection into a piece of that Certificate. -/
theorem lines_differ_after_abandoned_message :
    let abandoned := handshakePacket 1 [0x0b, 0x00, 0x00, 0x20, 0x01, 0x02]
    let finished := handshakePacket 0 finishedData
    ([abandoned, finished].filter fun e => e.conn = 0) = [finished].filter (fun e => e.conn = 0) ∧
    linesOf noX509 0 (some (Process.init ℕ)) [finished] =
      [([.crypto ["Finished".toList] 8], true)] ∧
    linesOf noX509 0 (some (Process.init ℕ)) [abandoned, finished] =
      [([.crypto ["Certificate".toList] 8], true)] :=
  ⟨rfl, by decide +kernel, by decide +kernel⟩

end PapQuic.Log.Isolation
