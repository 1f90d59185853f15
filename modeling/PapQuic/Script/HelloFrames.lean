import PapQuic.Log.Conservation
import PapQuic.Log.Isolation
import PapQuic.Script.HelloSize

/-! # Hello messages that are spread over CRYPTO frames

A ClientHello or ServerHello reaches the log of the client in one or more CRYPTO frames
(`carriers`). Each of them is printed as a frame of its own with its own size, and
`extract_tls_sizes` takes the size of one of them. So what it returns is the sum of the sizes if and
only if one frame has the whole message (`helloSize_eq_sum_iff`): a message in a single frame is
printed under its name, while of two or more frames at most one is counted.

The proof follows a line of the log back to the step that formatted it (`exists_formats`): there the
reassembly state of the stream is still idle if no data came before (`idle_run`). -/

namespace PapQuic.Script.HelloFrames

open Lib.Printf Lib.Run Lib.Consume Lib.Re Lib.TextFile Wire.Packet Wire.Frames
open Log.Names Log.Metadata Log.Handshake Log.Stream Log.FrameList Log.Lines Log.Timing Log.Notes
open Log.Chars Log.Output Log.Conservation Log.Isolation Script.HelloSize

inductive Hello
  | client | server
  deriving DecidableEq, Repr

def Hello.name : Hello → String
  | .client => "ClientHello"
  | .server => "ServerHello"

def Hello.hsType : Hello → UInt8
  | .client => 1
  | .server => 2

/-- Where the client logs the message. -/
def Hello.key : Hello → EventKey
  | .client => ⟨false, true, .initial⟩
  | .server => ⟨false, false, .initial⟩

/-- The size that the script has for the message. -/
def Hello.size (sizes : TlsSizes) : Hello → ℕ
  | .client => sizes.clientHello
  | .server => sizes.serverHello

/-- The CRYPTO frames of a packet that carry handshake data: the data, and the size of the frame. -/
def carried (event : PacketLogEvent) : List (Bytes × ℕ) :=
  match payloadFrames event.payload.length event.payload with
  | some (fs, _) => fs.filterMap fun f => (frameData event.toEventKey f).map (·, f.2)
  | none => []

/-- The same for all packets of a stream. -/
def carriers (key : EventKey) (events : List PacketLogEvent) : List (Bytes × ℕ) :=
  events.flatMap fun event => if event.toEventKey = key then carried event else []

/-- The packet events of a run. -/
def events (steps : List SessionStep) : List PacketLogEvent :=
  steps.filterMap fun
    | .packet _ event => some event
    | .timing .. => none

/-- The packets of a log. -/
def logged (log : List Line) : List PacketLogEvent :=
  log.filterMap fun
    | .packet l => some l.event
    | .internal _ => none

theorem isWord_name (h : Hello) : IsWord h.name := by
  cases h
  · exact isWord_clientHello
  · exact isWord_serverHello

/-! ### From a line to its step -/

section Origin

variable {lib : X509Lib}

/-- The line was formatted by a step of the run. -/
def Formatted (lib : X509Lib) (steps : List SessionStep) : Line → Prop
  | .packet l => ∃ pre x post mask, steps = pre ++ x :: post ∧
      formats lib (run (Session.step lib) .new pre) x = some (l, mask)
  | .internal _ => True

theorem Formatted.concat {steps : List SessionStep} {l : Line} (h : Formatted lib steps l)
    (x : SessionStep) : Formatted lib (steps ++ [x]) l := by
  cases l with
  | internal => trivial
  | packet l =>
    obtain ⟨pre, y, post, mask, rfl, hf⟩ := h
    exact ⟨pre, y, post ++ [x], mask, by simp, hf⟩

/-- **Every line**, written or held, was formatted by a step. -/
theorem formatted_run (lib : X509Lib) (steps : List SessionStep) :
    (∀ l ∈ (run (Session.step lib) .new steps).lines, Formatted lib steps l) ∧
      ∀ slot l, (run (Session.step lib) .new steps).timing.pending slot = some l →
        Formatted lib steps l := by
  induction steps using List.reverseRecOn with
  | nil => simp [Session.new, Session.start, HandshakeTiming.init]
  | append_singleton steps x ih =>
    obtain ⟨hl, hheld⟩ := ih
    have hl' := fun l hm => (hl l hm).concat x
    have hheld' := fun slot l hm => (hheld slot l hm).concat x
    have hr : run (Session.step lib) .new (steps ++ [x]) =
        (run (Session.step lib) .new steps).step lib x := by simp
    rw [hr]
    cases x with
    | packet inp event =>
      rcases hf : formats lib (run (Session.step lib) .new steps) (.packet inp event)
        with _ | ⟨l, mask⟩
      · obtain ⟨he, ht⟩ := step_of_formats_none hf
        rw [he, ht]
        exact ⟨hl', hheld'⟩
      · obtain ⟨-, he, ht⟩ := step_of_formats hf
        have hline : Formatted lib (steps ++ [.packet inp event]) (.packet l) :=
          ⟨steps, _, [], mask, rfl, hf⟩
        obtain ⟨hout, hslots⟩ := (logs_logPacket event.toEventKey inp mask (.packet l)
          (run (Session.step lib) .new steps).timing).forall (fun _ => trivial) hline hheld'
        rw [he, ht]
        exact ⟨List.forall_mem_append.mpr ⟨hl', hout⟩, hslots⟩
    | timing isServer call now lineNow =>
      rcases step_timing lib (run (Session.step lib) .new steps) isServer call now lineNow with
        he | ⟨-, out, timing, hm, he⟩ <;> rw [he]
      · exact ⟨hl', hheld'⟩
      · have hgood (l : InternalLine) :
            Formatted lib (steps ++ [.timing isServer call now lineNow]) (.internal l) := trivial
        obtain ⟨hout, hslots⟩ := hm.forall hgood hheld'
        exact ⟨List.forall_mem_append.mpr ⟨hl', hout⟩, hslots⟩

/-- What a step formats. -/
theorem exists_formats {s : Session} {x : SessionStep} {l : PacketLine} {mask : ℕ}
    (h : formats lib s x = some (l, mask)) :
    ∃ inp fs ok, x = .packet inp l.event ∧
      payloadFrames l.event.payload.length l.event.payload = some (fs, ok) ∧
      l.specs = (logFrames lib l.event.toEventKey inp.hsAlloc 0 ⟨0, s.log⟩ fs).1 := by
  cases x with
  | timing => cases h
  | packet inp event =>
    simp only [formats] at h
    split_ifs at h
    obtain ⟨r, hr, he⟩ := Option.map_eq_some_iff.mp h
    cases he
    rw [appendFrames_eq_logFrames] at hr
    obtain ⟨⟨fs, ok⟩, hfs, rfl⟩ := Option.map_eq_some_iff.mp hr
    exact ⟨inp, fs, ok, rfl, hfs, rfl⟩

end Origin

/-! ### The frames that carry a message -/

section Carriers

variable {key : EventKey}

theorem carriers_append (a b : List PacketLogEvent) :
    carriers key (a ++ b) = carriers key a ++ carriers key b := List.flatMap_append

theorem events_append (a b : List SessionStep) : events (a ++ b) = events a ++ events b :=
  List.filterMap_append

theorem carriers_cons (event : PacketLogEvent) (l : List PacketLogEvent) :
    carriers key (event :: l) =
      (if event.toEventKey = key then carried event else []) ++ carriers key l := rfl

theorem events_packet (inp : LogInput) (event : PacketLogEvent) (post : List SessionStep) :
    events (.packet inp event :: post) = event :: events post := rfl

theorem carried_eq {event : PacketLogEvent} {fs : List (LoggedFrame × ℕ)} {ok : Bool}
    (h : payloadFrames event.payload.length event.payload = some (fs, ok)) :
    carried event = fs.filterMap fun f => (frameData event.toEventKey f).map (·, f.2) := by
  rw [carried, h]

theorem mem_carriers {event : PacketLogEvent} {l : List PacketLogEvent} (he : event ∈ l)
    (hk : event.toEventKey = key) {c : Bytes × ℕ} (hc : c ∈ carried event) : c ∈ carriers key l :=
  List.mem_flatMap.mpr ⟨event, he, by simpa [hk] using hc⟩

/-- A CRYPTO frame takes at least one byte. -/
theorem decodeSized_pos {pkt rest : Bytes} {f : FrameCrypto} {n : ℕ}
    (h : decodeSized pkt = some ((.crypto f, n), rest)) : 0 < n := by
  obtain ⟨⟨frame, rest'⟩, hd, he⟩ := Option.map_eq_some_iff.mp h
  cases he
  have hne : pkt ≠ [] := by
    rintro rfl
    rw [show decodeLoggedFrame [] = none from rfl] at hd
    cases hd
  have ho : ¬ OverlongPadding pkt := by
    rintro ⟨hp, -⟩
    have hpad : decodeLoggedFrame pkt =
        some (.padding (decodePadding pkt).1, (decodePadding pkt).2) := by
      rw [decodeLoggedFrame, hp]
      rfl
    rw [hpad] at hd
    cases hd
  have := decodeLoggedFrame_length ho hne hd
  omega

theorem carried_pos {event : PacketLogEvent} {c : Bytes × ℕ} (hc : c ∈ carried event) :
    0 < c.2 := by
  unfold carried at hc
  split at hc
  · rename_i fs ok hfs
    obtain ⟨⟨frame, n⟩, hf, he⟩ := List.mem_filterMap.mp hc
    obtain ⟨data, hdata, rfl⟩ := Option.map_eq_some_iff.mp he
    cases frame with
    | crypto f =>
      unfold payloadFrames at hfs
      split_ifs at hfs
      · cases hfs
        cases hf
      · split at hfs
        · cases hfs
          cases hf
        · obtain ⟨pkt, rest, hd⟩ := mem_parse hfs _ hf
          exact decodeSized_pos hd
    | _ => cases hdata
  · cases hc

end Carriers

/-! ### The state of a stream before its first data -/

theorem filterMap_frameData_eq_nil {event : PacketLogEvent} {fs : List (LoggedFrame × ℕ)}
    (h : fs.filterMap (fun f => (frameData event.toEventKey f).map (·, f.2)) = []) :
    fs.filterMap (frameData event.toEventKey) = [] := by
  rw [List.filterMap_eq_nil_iff] at h ⊢
  intro f hf
  exact Option.map_eq_none_iff.mp (h f hf)

theorem step_hsState (lib : X509Lib) {key : EventKey} (s : Session) (x : SessionStep)
    (h : carriers key (events [x]) = []) :
    (s.step lib x).log.hsState key = s.log.hsState key := by
  cases x with
  | timing isServer call now lineNow =>
    rcases step_timing lib s isServer call now lineNow with he | ⟨-, out, timing, -, he⟩ <;> rw [he]
  | packet inp event =>
    rcases step_packet lib s inp event with ⟨-, he⟩ | he
      | ⟨-, r, out, timing, hr, -, he⟩ <;> rw [he]
    rw [appendFrames_eq_logFrames] at hr
    obtain ⟨⟨fs, ok⟩, hfs, rfl⟩ := Option.map_eq_some_iff.mp hr
    by_cases hk : event.toEventKey = key
    · have hnil : carried event = [] := by
        rw [events_packet, carriers_cons, if_pos hk] at h
        exact (List.append_eq_nil_iff.mp h).1
      rw [carried_eq hfs] at hnil
      have := (logFrames_of_nil lib event.toEventKey inp.hsAlloc fs 0 ⟨0, s.log⟩ ⟨0, s.log⟩
        (filterMap_frameData_eq_nil hnil)).2.1
      exact congrFun this key
    · exact (logFrames_frame lib event.toEventKey inp.hsAlloc fs 0 ⟨0, s.log⟩).1 key (Ne.symm hk)

/-- **As long as no data has come** the state is the one of the start. -/
theorem idle_run (lib : X509Lib) {key : EventKey} : ∀ {steps : List SessionStep},
    carriers key (events steps) = [] →
    ((run (Session.step lib) .new steps).log.hsState key).active = false := by
  intro steps
  induction steps using List.reverseRecOn with
  | nil => exact fun _ => rfl
  | append_singleton steps x ih =>
    intro h
    rw [events_append, carriers_append] at h
    obtain ⟨h1, h2⟩ := List.append_eq_nil_iff.mp h
    rw [run_append]
    change ((Session.step lib (run (Session.step lib) .new steps) x).log.hsState key).active = false
    rw [step_hsState lib _ x h2]
    exact ih h1

/-! ### Under which name a frame is printed -/

/-- A frame without data is not printed under the name of a message. -/
theorem shown_of_none (lib : X509Lib) (h : Hello) {event : EventKey} {f : LoggedFrame × ℕ}
    (hf : frameData event f = none) (alloc : Bool) (s : SpecState) :
    shown h.name (logFrame lib alloc event s f.2 f.1).1 = none := by
  have hother : ∀ text ∈ ["CRYPTO-DATA".toList, "0RTT-DATA".toList, "1RTT-DATA".toList],
      startsWithName h.name [text] = false := by
    cases h <;> decide
  have hnone (text : Text) (ht : text ∈ ["CRYPTO-DATA".toList, "0RTT-DATA".toList,
      "1RTT-DATA".toList]) : shown h.name (.crypto [text] f.2) = none := by
    rw [shown, hother text ht]
    rfl
  rcases f with ⟨frame, size⟩
  cases frame with
  | crypto f =>
    have hdata : event.encLevel = .initial ∨ event.encLevel = .handshake → f.data = [] := by
      intro hl
      by_contra hd
      simp [frameData, hl, hd] at hf
    cases hl : event.encLevel with
    | initial =>
      have hd := hdata (.inl hl)
      simpa [logFrame, packetLogAppendCryptoFragments, hl, hd, runCalls] using
        hnone "CRYPTO-DATA".toList (by simp)
    | handshake =>
      have hd := hdata (.inr hl)
      simpa [logFrame, packetLogAppendCryptoFragments, hl, hd, runCalls] using
        hnone "CRYPTO-DATA".toList (by simp)
    | zeroRtt =>
      simpa [logFrame, packetLogAppendCryptoFragments, hl] using hnone "0RTT-DATA".toList (by simp)
    | oneRtt =>
      simpa [logFrame, packetLogAppendCryptoFragments, hl] using hnone "1RTT-DATA".toList (by simp)
  | padding | ack | stream | ping | newToken | newConnId | connClose | pathChallenge
  | pathResponse | handshakeDone | unknown => rfl

theorem prefix_emit (tls : TlsMetadata) {t : UInt8}
    (ht : tlsHandshakeFragmentName t ≠ "UNKNOWN".toList) (note : Option Text) :
    tlsHandshakeFragmentName t <+: packetLogEmitHandshakeFragment tls t note := by
  unfold packetLogEmitHandshakeFragment
  split
  · exact ⟨_, by rw [List.append_assoc, List.append_assoc]⟩
  · exact ⟨_, by rw [List.append_assoc, List.append_assoc]⟩
  · rw [if_neg ht]

theorem startsWithName_singleton {name : String} (hn : IsWord name) {f : Text}
    (h : name.toList <+: f) : startsWithName name [f] = true := by
  obtain ⟨g, rfl⟩ := h
  obtain ⟨c, w, hw⟩ := List.exists_cons_of_ne_nil hn.ne_nil
  have hc : isSpace c = false := (hn.chars c (by simp [hw])).1
  have hdrop : (name.toList ++ g).dropWhile isSpace = name.toList ++ g := by
    rw [hw, List.cons_append, List.dropWhile_cons_of_neg (by simp [hc])]
  rw [startsWithName, List.intercalate_singleton, hdrop]
  exact List.isPrefixOf_iff_prefix.mpr (List.prefix_append _ _)

/-- A message in one frame is printed under its name. -/
theorem shown_of_encode (lib : X509Lib) (h : Hello) {m : HsMessage} (hm : m.hsType = h.hsType)
    {event : EventKey} {f : LoggedFrame × ℕ} (hf : frameData event f = some m.encode) (alloc : Bool)
    {s : SpecState} (hs : (s.log.hsState event).active = false) :
    shown h.name (logFrame lib alloc event s f.2 f.1).1 = some f.2 := by
  have happ : packetLogAppendHandshakeBytes alloc (s.log.hsState event) m.encode =
      (m.calls, s.log.hsState event) := by
    have := append_stream alloc hs [m]
    simpa [stream] using this
  obtain ⟨hspec, -, -⟩ := logFrame_of_some lib event hf alloc s happ rfl
  obtain ⟨tls, note, hfrag⟩ : ∃ tls note,
      (runCalls lib ⟨s.log.tlsMetadata, s.mask, []⟩ m.calls).fragments =
        [packetLogEmitHandshakeFragment tls m.hsType note] := ⟨_, _, rfl⟩
  have hname : tlsHandshakeFragmentName m.hsType = h.name.toList := by
    rw [hm]
    cases h <;> decide
  have hpre : h.name.toList <+: packetLogEmitHandshakeFragment tls m.hsType note := by
    rw [← hname]
    refine prefix_emit tls ?_ note
    rw [hname]
    cases h <;> decide
  rw [hspec, hfrag, if_neg (by simp), shown, if_pos (startsWithName_singleton (isWord_name h) hpre)]

section Frames

variable {lib : X509Lib} {event : EventKey} {alloc : ℕ → Bool} {h : Hello}

/-- A size that is found is that of a frame with data. -/
theorem exists_of_shown : ∀ {fs : List (LoggedFrame × ℕ)} {i : ℕ} {s : SpecState} {spec : FrameSpec}
    {n : ℕ}, spec ∈ (logFrames lib event alloc i s fs).1 → shown h.name spec = some n →
      ∃ data, (data, n) ∈ fs.filterMap fun f => (frameData event f).map (·, f.2)
  | [], _, _, _, _, hm, _ => by cases hm
  | f :: fs, i, s, spec, n, hm, hn => by
    have hm' : spec = (logFrame lib (alloc i) event s f.2 f.1).1 ∨
        spec ∈ (logFrames lib event alloc (i + 1)
          (logFrame lib (alloc i) event s f.2 f.1).2 fs).1 :=
      List.mem_cons.mp hm
    rcases hm' with rfl | hm'
    · rcases hf : frameData event f with _ | data
      · rw [shown_of_none lib h hf] at hn
        cases hn
      · refine ⟨data, List.mem_filterMap.mpr ⟨f, by simp, ?_⟩⟩
        have hsize := size_of_shown hn
        rw [(logFrame_of_some lib event hf (alloc i) s rfl rfl).1] at hsize
        rw [hf, Option.map_some, ← hsize, FrameSpec.size]
    · obtain ⟨data, hd⟩ := exists_of_shown hm' hn
      obtain ⟨g, hg, he⟩ := List.mem_filterMap.mp hd
      exact ⟨data, List.mem_filterMap.mpr ⟨g, by simp [hg], he⟩⟩

/-- A packet with the whole message in one frame prints its name. -/
theorem shown_of_single {m : HsMessage} (hm : m.hsType = h.hsType) {n : ℕ} :
    ∀ {fs : List (LoggedFrame × ℕ)} {i : ℕ} {s : SpecState},
      fs.filterMap (fun f => (frameData event f).map (·, f.2)) = [(m.encode, n)] →
      (s.log.hsState event).active = false →
      ∃ spec ∈ (logFrames lib event alloc i s fs).1, shown h.name spec = some n
  | [], _, _, he, _ => by cases he
  | f :: fs, i, s, he, hs => by
    rcases hf : frameData event f with _ | data
    · rw [List.filterMap_cons_none (by rw [hf]; rfl)] at he
      have hsame := ((logFrame_of_none lib event hf (alloc i)).2 s).1
      obtain ⟨spec, hmem, hspec⟩ := shown_of_single hm (i := i + 1)
        (s := (logFrame lib (alloc i) event s f.2 f.1).2) he (by rw [hsame]; exact hs)
      exact ⟨spec, List.mem_cons_of_mem _ hmem, hspec⟩
    · rw [List.filterMap_cons_some (b := (data, f.2)) (by rw [hf]; rfl)] at he
      obtain ⟨hd, -⟩ := List.cons.inj he
      cases hd
      exact ⟨_, List.mem_cons_self, shown_of_encode lib h hm hf (alloc i) hs⟩

end Frames

/-! ### The size that is found -/

/-- One of two or more positive numbers is less than their sum. -/
theorem lt_sum_of_mem {l : List (Bytes × ℕ)} (hpos : ∀ c ∈ l, 0 < c.2) (hl : 1 < l.length)
    {c : Bytes × ℕ} (hc : c ∈ l) : c.2 < (l.map Prod.snd).sum := by
  obtain ⟨a, b, rfl⟩ := List.append_of_mem hc
  have hrest : ∃ d ∈ a ++ b, 0 < d.2 := by
    have hne : a ++ b ≠ [] := by
      rintro hnil
      obtain ⟨rfl, rfl⟩ := List.append_eq_nil_iff.mp hnil
      simp at hl
    obtain ⟨d, hd⟩ := List.exists_mem_of_ne_nil _ hne
    exact ⟨d, hd, hpos d (by rcases List.mem_append.mp hd with h | h <;> simp [h])⟩
  obtain ⟨d, hd, hdpos⟩ := hrest
  have hle := List.single_le_sum (l := (a ++ b).map Prod.snd) (by simp) d.2
    (List.mem_map_of_mem hd)
  simp only [List.map_append, List.map_cons, List.sum_append, List.sum_cons] at hle ⊢
  omega

section Sizes

variable {lib : X509Lib} {h : Hello} {steps : List SessionStep}

theorem event_mem_events {l : PacketLine}
    (hl : Line.packet l ∈ (run (Session.step lib) .new steps).lines) : l.event ∈ events steps := by
  obtain ⟨pre, x, post, mask, rfl, hf⟩ := (formatted_run lib steps).1 _ hl
  obtain ⟨inp, fs, ok, rfl, -, -⟩ := exists_formats hf
  rw [events_append, events_packet]
  simp

/-- No other stream is printed under the name of the message. -/
def OnlyOwn (h : Hello) (log : List Line) : Prop :=
  ∀ l, Line.packet l ∈ log → l.event.toEventKey ≠ h.key → ∀ spec ∈ l.specs, shown h.name spec = none

/-- A size that is found is that of a frame of the message. -/
theorem mem_carriers_of_found
    (hown : OnlyOwn h (run (Session.step lib) .new steps).lines) {n : ℕ}
    (hn : ((run (Session.step lib) .new steps).lines.flatMap specsOf).findSome? (shown h.name) =
      some n) :
    ∃ data, (data, n) ∈ carriers h.key (events steps) := by
  obtain ⟨spec, hfound, hshown⟩ := List.exists_of_findSome?_eq_some hn
  obtain ⟨line, hline, hspec⟩ := List.mem_flatMap.mp hfound
  cases line with
  | internal => cases hspec
  | packet l =>
    have hkey : l.event.toEventKey = h.key := by
      by_contra hk
      rw [hown l hline hk spec hspec] at hshown
      cases hshown
    obtain ⟨pre, x, post, mask, rfl, hf⟩ := (formatted_run lib steps).1 _ hline
    obtain ⟨inp, fs, ok, rfl, hfs, hspecs⟩ := exists_formats hf
    rw [specsOf, hspecs] at hspec
    obtain ⟨data, hd⟩ := exists_of_shown hspec hshown
    exact ⟨data, mem_carriers (event_mem_events hline) hkey (by rw [carried_eq hfs]; exact hd)⟩

/-- A message in one frame is found. -/
theorem exists_found {m : HsMessage} (hm : m.hsType = h.hsType) {n : ℕ}
    (hone : carriers h.key (events steps) = [(m.encode, n)])
    (hlogged : ∀ event ∈ events steps, event.toEventKey = h.key → carried event ≠ [] →
      event ∈ logged (run (Session.step lib) .new steps).lines) :
    ∃ spec ∈ (run (Session.step lib) .new steps).lines.flatMap specsOf,
      shown h.name spec = some n := by
  obtain ⟨event, he, hc⟩ := List.mem_flatMap.mp (hone ▸ List.mem_cons_self :
    (m.encode, n) ∈ carriers h.key (events steps))
  have hkey : event.toEventKey = h.key := by
    by_contra hk
    simp [hk] at hc
  rw [if_pos hkey] at hc
  obtain ⟨line, hline, hev⟩ := List.mem_filterMap.mp
    (hlogged event he hkey (List.ne_nil_of_mem hc))
  cases line with
  | internal => cases hev
  | packet l =>
    obtain rfl : l.event = event := Option.some.inj hev
    obtain ⟨pre, x, post, mask, rfl, hf⟩ := (formatted_run lib steps).1 _ hline
    obtain ⟨inp, fs, ok, rfl, hfs, hspecs⟩ := exists_formats hf
    rw [events_append, events_packet, carriers_append, carriers_cons, if_pos hkey] at hone
    -- the one frame is in this packet, so no data came before it
    have hsplit : carriers h.key (events pre) = [] ∧ carried l.event = [(m.encode, n)] := by
      have hlen := congrArg List.length hone
      have hpos := List.length_pos_of_mem hc
      simp only [List.length_append, List.length_singleton] at hlen
      have hpre : carriers h.key (events pre) = [] := List.length_eq_zero_iff.mp (by omega)
      have hpost : carriers h.key (events post) = [] := List.length_eq_zero_iff.mp (by omega)
      rw [hpre, hpost, List.nil_append, List.append_nil] at hone
      exact ⟨hpre, hone⟩
    rw [carried_eq hfs] at hsplit
    have hidle := idle_run lib hsplit.1
    rw [← hkey] at hidle
    obtain ⟨spec, hspec, hshown⟩ : ∃ spec ∈ l.specs, shown h.name spec = some n := by
      rw [hspecs]
      exact shown_of_single hm hsplit.2 hidle
    exact ⟨spec, List.mem_flatMap.mpr ⟨_, hline, hspec⟩, hshown⟩

end Sizes

/-- **The size of a hello message.** The message is spread over the CRYPTO frames `carriers` of its
stream, the packets with them are in the log of the client, and no other frame of the log is printed
under its name. Then the size that `extract_tls_sizes` returns is the sum of the sizes of these
frames if and only if there is one. -/
theorem helloSize_eq_sum_iff (lib : X509Lib)
    (hlib : ∀ nid name, lib.objNid2sn nid = some name → ∀ c ∈ name, PieceChar c) (h : Hello)
    (m : HsMessage) (hm : m.hsType = h.hsType) (steps : List SessionStep)
    (hsplit : ((carriers h.key (events steps)).map Prod.fst).flatten = m.encode)
    (hlogged : ∀ event ∈ events steps, event.toEventKey = h.key → carried event ≠ [] →
      event ∈ logged (run (Session.step lib) .new steps).lines)
    (hown : OnlyOwn h (run (Session.step lib) .new steps).lines) (serverLog : Option Text) :
    h.size (extractTlsSizes
        (some (writeLines ((run (Session.step lib) .new steps).lines.map Line.text))) serverLog) =
      ((carriers h.key (events steps)).map Prod.snd).sum ↔
    (carriers h.key (events steps)).length = 1 := by
  have hpiece : NamesOf PieceChar lib :=
    ⟨fun c hc => pieceChar_of_specMark c (specMark_of_wordChar hc), hlib⟩
  have hline : NamesOf LineChar lib :=
    namesOf_lineChar fun nid name hn c hc => (hlib nid name hn c hc).2.2
  have hfound : h.size (extractTlsSizes
      (some (writeLines ((run (Session.step lib) .new steps).lines.map Line.text))) serverLog) =
        (((run (Session.step lib) .new steps).lines.flatMap specsOf).findSome?
          (shown h.name)).getD 0 := by
    rw [← sizeIn_log (isWord_name h) (prints_names hpiece steps).lines
      (prints_names hline steps).lines]
    cases h <;> rfl
  rw [hfound]
  have hpos : ∀ c ∈ carriers h.key (events steps), 0 < c.2 := by
    intro c hc
    obtain ⟨event, -, hc⟩ := List.mem_flatMap.mp hc
    split_ifs at hc
    · exact carried_pos hc
    · cases hc
  constructor
  · -- with two or more frames, what is found is 0 or the size of one of them
    intro heq
    by_contra hlen
    have hne : carriers h.key (events steps) ≠ [] := by
      intro hnil
      rw [hnil] at hsplit
      cases hsplit
    have htwo : 1 < (carriers h.key (events steps)).length := by
      have := List.length_pos_of_ne_nil hne
      omega
    rcases hk : ((run (Session.step lib) .new steps).lines.flatMap specsOf).findSome?
        (shown h.name) with _ | k
    · obtain ⟨c, hc⟩ := List.exists_mem_of_ne_nil _ hne
      have hlt := lt_sum_of_mem hpos htwo hc
      rw [hk, Option.getD_none] at heq
      omega
    · obtain ⟨data, hd⟩ := mem_carriers_of_found hown hk
      have hlt := lt_sum_of_mem hpos htwo hd
      rw [hk, Option.getD_some] at heq
      omega
  · -- the only frame is printed under the name, and nothing else is
    intro hone
    obtain ⟨⟨data, n⟩, hc⟩ := List.length_eq_one_iff.mp hone
    obtain rfl : data = m.encode := by simpa [hc] using hsplit
    obtain ⟨spec, hspec, hshown⟩ := exists_found hm hc hlogged
    obtain ⟨k, hk⟩ : ∃ k, ((run (Session.step lib) .new steps).lines.flatMap specsOf).findSome?
        (shown h.name) = some k :=
      Option.isSome_iff_exists.mp (List.findSome?_isSome_iff.mpr ⟨spec, hspec, by simp [hshown]⟩)
    obtain ⟨data, hd⟩ := mem_carriers_of_found hown hk
    rw [hc] at hd ⊢
    obtain ⟨-, rfl⟩ : data = m.encode ∧ k = n := by simpa using hd
    simp [hk]

/-- A ClientHello with one cipher suite and no extensions. -/
def shortHello : HsMessage :=
  ⟨1, [3, 3] ++ List.replicate 32 7 ++ [0, 0, 2, 0x13, 1, 1, 0], by decide⟩

/-- An Initial packet of a client with a CRYPTO frame of less than 64 bytes and PADDING. -/
def initialPacket (packetNumber offset : ℕ) (data : Bytes) : SessionStep :=
  .packet ⟨0, fun _ => true, true, true, none⟩
    { isServer := false
      isSend := true
      encLevel := .initial
      packetType := some .initial
      packetNumber := packetNumber
      datagramSize := 1200
      payload := [6, UInt8.ofNat offset, UInt8.ofNat data.length] ++ data ++ List.replicate 1100 0
      haveCreditBefore := false
      creditBefore := 0
      creditBeforeUnlimited := false
      haveCreditAfter := false
      creditAfter := 0
      creditAfterUnlimited := false
      clientCreditKnown := true
      clientCreditUnlimited := false
      haveCreditDelta := false
      creditDelta := 0 }

/-- The log that a run leaves. -/
def logOf (steps : List SessionStep) : Text :=
  writeLines ((run (Session.step noX509) .new steps).lines.map Line.text)

theorem helloSize_eq_sum_iff_single :
    Hello.client.size (extractTlsSizes (some (logOf [initialPacket 0 0 shortHello.encode])) none) =
        ((carriers Hello.client.key (events [initialPacket 0 0 shortHello.encode])).map
          Prod.snd).sum ↔
      (carriers Hello.client.key (events [initialPacket 0 0 shortHello.encode])).length = 1 := by
  refine helloSize_eq_sum_iff noX509 (fun _ _ h => by cases h) .client shortHello rfl
    [initialPacket 0 0 shortHello.encode] (by decide +kernel) (by decide +kernel) ?_ none
  intro l hl hk
  have hev := event_mem_events hl
  rw [List.mem_singleton.mp hev] at hk
  exact absurd rfl hk

/-- **A ClientHello in two packets**: only the first one is counted. -/
theorem helloSize_of_two_packets :
    let steps := [initialPacket 0 0 (shortHello.encode.take 20),
      initialPacket 1 20 (shortHello.encode.drop 20)]
    ((carriers Hello.client.key (events steps)).map Prod.fst).flatten = shortHello.encode ∧
      (carriers Hello.client.key (events steps)).map Prod.snd = [23, 28] ∧
      (extractTlsSizes (some (logOf steps)) none).clientHello = 23 := by
  decide +kernel

end PapQuic.Script.HelloFrames
