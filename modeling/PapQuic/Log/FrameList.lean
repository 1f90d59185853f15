import PapQuic.Lib.Consume
import PapQuic.Wire.Frames
import PapQuic.Wire.Header
import PapQuic.Log.Handshake

/-! # The frame list of a packet line

`packet_log_append_frames` of `ssl/quic/quic_debug.c` walks over the payload of a packet and prints
one specification for each frame. `packet_log_append_frame_spec` is modelled in two parts: the
`switch` that decodes the frame (`decodeLoggedFrame`), which looks at the payload only, and what is
printed and recorded for it (`logFrame`), where CRYPTO frames go through the reassembly state of
their role, direction and encryption level.

* `decodeLoggedFrame_length`: a decoded frame takes at least one byte, unless it is a PADDING frame
  whose type is not the single byte 0 (`OverlongPadding`); that one takes none
  (`decodeLoggedFrame_overlong`);
* `sum_size_appendFrames`: the sizes shown for a payload that could be decoded add up to its
  length. -/

namespace PapQuic.Log.FrameList

open Lib.Printf Lib.Consume Wire.Packet Wire.Frames Wire.Header Log.Metadata
open Log.Handshake

/-! ### Events and the state of the log -/

/-- The part of `OSSL_QUIC_PACKET_LOG_EVENT` that selects a reassembly state. -/
structure EventKey where
  isServer : Bool
  isSend : Bool
  encLevel : EncLevel
  deriving DecidableEq, Repr

/-- The static variables of the log: `g_hs_state`, `g_tls_metadata`, `g_handshake_done_meta`. -/
structure LogState where
  hsState : EventKey → PacketLogHsState
  tlsMetadata : TlsMetadata
  handshakeDoneDetail : Option Text

/-- The static variables of a fresh process. -/
def LogState.init : LogState := ⟨fun _ => resetHsState, noMetadata, none⟩

/-! ### Decoding -/

/-- A frame as the `switch` of `packet_log_append_frame_spec` decodes it. -/
inductive LoggedFrame
  | padding (padding : ℕ)
  | ack (f : FrameAck)
  | crypto (f : FrameCrypto)
  | stream (f : FrameStream)
  | ping
  | newToken (token : Bytes)
  | newConnId (f : FrameNewConnId)
  | connClose (f : FrameConnClose)
  | pathChallenge (data : ℕ)
  | pathResponse (data : ℕ)
  | handshakeDone
  | unknown (frameType : ℕ)
  deriving DecidableEq, Repr

/-- `PACKET_LOG_MAX_ACK_RANGES`. -/
def packetLogMaxAckRanges : ℕ := 32

/-- The frame at the cursor and what follows it. A frame of any other type takes all that is
left. -/
def decodeLoggedFrame (pkt : Bytes) : Option (LoggedFrame × Bytes) :=
  match peekFrameHeader pkt with
  | none => none
  | some frameType =>
    match FrameKind.ofType frameType with
    | .padding => some (.padding (decodePadding pkt).1, (decodePadding pkt).2)
    | .ack => (decodeFrameAck pkt packetLogMaxAckRanges).map (Prod.map .ack id)
    | .crypto => (decodeFrameCrypto pkt).map (Prod.map .crypto id)
    | .stream => (decodeFrameStream pkt).map (Prod.map .stream id)
    | .ping => (decodeFramePing pkt).map (Prod.mk .ping)
    | .newToken => (decodeFrameNewToken pkt).map (Prod.map .newToken id)
    | .newConnId => (decodeFrameNewConnId pkt).map (Prod.map .newConnId id)
    | .connClose => (decodeFrameConnClose pkt).map (Prod.map .connClose id)
    | .pathChallenge => (decodeFramePathChallenge pkt).map (Prod.map .pathChallenge id)
    | .pathResponse => (decodeFramePathResponse pkt).map (Prod.map .pathResponse id)
    | .handshakeDone => (decodeFrameHandshakeDone pkt).map (Prod.mk .handshakeDone)
    | .other => some (.unknown frameType, [])

/-! ### Specifications -/

/-- What is printed for a frame. -/
inductive FrameSpec
  | padding (size : ℕ)
  | ack (ranges : List AckRange) (more : Bool) (size : ℕ)
  | crypto (fragments : List Text) (size : ℕ)
  | stream (id : ℕ) (fin : Bool) (size : ℕ)
  | ping (size : ℕ)
  | newToken (size : ℕ)
  | newConnId (seq size : ℕ)
  | connClose (error size : ℕ)
  | pathChallenge (size : ℕ)
  | pathResponse (size : ℕ)
  | handshakeDone (size : ℕ)
  | unknown (frameType size : ℕ)
  deriving DecidableEq, Repr

/-- The frame name a specification starts with. -/
def FrameSpec.name : FrameSpec → String
  | .padding _ => "PADDING"
  | .ack .. => "ACK"
  | .crypto .. => "CRYPTO"
  | .stream .. => "STREAM"
  | .ping _ => "PING"
  | .newToken _ => "NEW_TOKEN"
  | .newConnId .. => "NEW_CONNECTION_ID"
  | .connClose .. => "CONNECTION_CLOSE"
  | .pathChallenge _ => "PATH_CHALLENGE"
  | .pathResponse _ => "PATH_RESPONSE"
  | .handshakeDone _ => "HANDSHAKE_DONE"
  | .unknown .. => "UNKNOWN"

/-- The size a specification prints. -/
def FrameSpec.size : FrameSpec → ℕ
  | .padding n | .ack _ _ n | .crypto _ n | .stream _ _ n | .ping n | .newToken n
  | .newConnId _ n | .connClose _ n | .pathChallenge n | .pathResponse n | .handshakeDone n
  | .unknown _ n => n

/-- One range of an ACK frame. -/
def ackRangeText (r : AckRange) : Text :=
  if r.start = r.last then dec r.start else dec r.start ++ "-".toList ++ dec r.last

/-- `packet_log_format_ack_ranges`. -/
def packetLogFormatAckRanges (ranges : List AckRange) (more : Bool) : Text :=
  "RANGE=[".toList ++ [','].intercalate (ranges.map ackRangeText) ++
    (if more then ",...".toList else []) ++ "]".toList

/-- What stands between the name and the size of a specification. -/
def FrameSpec.fields : FrameSpec → Text
  | .ack ranges more _ => packetLogFormatAckRanges ranges more ++ " , ".toList
  | .crypto fragments _ =>
    " \x7b ".toList ++ " | ".toList.intercalate fragments ++ " \x7d , ".toList
  | .stream id fin _ =>
    "ID=".toList ++ dec id ++ (if fin then " , FIN=1".toList else []) ++ " , ".toList
  | .newConnId seq _ => "SEQ=".toList ++ dec seq ++ " , ".toList
  | .connClose error _ => "ERROR=0x".toList ++ hexPad 4 error ++ " , ".toList
  | .unknown frameType _ => "TYPE=0x".toList ++ hexPad 2 frameType ++ " , ".toList
  | _ => []

/-- The printed specification. -/
def FrameSpec.text (s : FrameSpec) : Text :=
  s.name.toList ++ "--(".toList ++ s.fields ++ "SIZE=".toList ++ dec s.size ++ "B)".toList

/-! ### Printing and recording -/

/-- The event mask of the packet and the state of the log. -/
structure SpecState where
  mask : ℕ
  log : LogState

/-- `packet_log_append_crypto_fragments`: the fragments printed for the data of a CRYPTO frame. The
offset of the frame is not looked at. -/
def packetLogAppendCryptoFragments (lib : X509Lib) (alloc : Bool) (event : EventKey)
    (s : SpecState) (data : Bytes) : List Text × SpecState :=
  match event.encLevel with
  | .initial | .handshake =>
    let (calls, hs) := packetLogAppendHandshakeBytes alloc (s.log.hsState event) data
    let o := runCalls lib ⟨s.log.tlsMetadata, s.mask, []⟩ calls
    (o.fragments, ⟨o.mask, { s.log with
      hsState := Function.update s.log.hsState event hs, tlsMetadata := o.tls }⟩)
  | .zeroRtt => (["0RTT-DATA".toList], s)
  | .oneRtt => (["1RTT-DATA".toList], s)

/-- `TLS_EVENT_HANDSHAKE_DONE`. -/
def tlsEventHandshakeDone : ℕ := 0x40

/-- What is printed and recorded for a decoded frame of `size` bytes. -/
def logFrame (lib : X509Lib) (alloc : Bool) (event : EventKey) (s : SpecState) (size : ℕ) :
    LoggedFrame → FrameSpec × SpecState
  | .padding padding => (.padding padding, s)
  | .ack f => (.ack f.ackRanges (f.totalRanges > f.ackRanges.length) size, s)
  | .crypto f =>
    let (fragments, s) := packetLogAppendCryptoFragments lib alloc event s f.data
    (.crypto (if fragments = [] then ["CRYPTO-DATA".toList] else fragments) size, s)
  | .stream f => (.stream f.streamId f.isFin size, s)
  | .ping => (.ping size, s)
  | .newToken _ => (.newToken size, s)
  | .newConnId f => (.newConnId f.seqNum size, s)
  | .connClose f => (.connClose f.errorCode size, s)
  | .pathChallenge _ => (.pathChallenge size, s)
  | .pathResponse _ => (.pathResponse size, s)
  | .handshakeDone =>
    (.handshakeDone size, ⟨s.mask ||| tlsEventHandshakeDone, { s.log with
      handshakeDoneDetail :=
        some (snprintf 128 ("FrameSize=".toList ++ dec size ++ "B".toList)) }⟩)
  | .unknown frameType => (.unknown frameType size, s)

/-- `packet_log_append_frame_spec` on a non-empty remainder, where alone its caller calls it. -/
def packetLogAppendFrameSpec (lib : X509Lib) (event : EventKey) (alloc : Bool) (s : SpecState)
    (pkt : Bytes) : Option (FrameSpec × SpecState × Bytes) :=
  (decodeLoggedFrame pkt).map fun (frame, rest) =>
    let (spec, s) := logFrame lib alloc event s (pkt.length - rest.length) frame
    (spec, s, rest)

/-- The result of `packet_log_append_frames`: the specifications written, the return value, the
event mask and the state of the log. -/
structure FramesResult where
  specs : List FrameSpec
  ok : Bool
  state : SpecState

/-- `packet_log_append_frames`, for at most `fuel` rounds of its loop; `alloc i` says whether memory
is there for the partial message of frame `i`. -/
def packetLogAppendFrames (lib : X509Lib) (event : EventKey) (alloc : ℕ → Bool) (fuel : ℕ)
    (s : SpecState) (payload : Bytes) : Option FramesResult :=
  if payload = [] then some ⟨[], false, s⟩
  else
    match packetBufInit payload with
    | none => some ⟨[], false, s⟩
    | some pkt =>
      (consume (fun i => packetLogAppendFrameSpec lib event (alloc i)) fuel 0 s pkt).map
        fun (specs, ok, s) => ⟨specs, ok, s⟩

/-! ### Decoding first

Which frames a payload has does not depend on the state of the log. -/

/-- The frame at the cursor with the number of bytes it takes. -/
def decodeSized (pkt : Bytes) : Option ((LoggedFrame × ℕ) × Bytes) :=
  (decodeLoggedFrame pkt).map fun (frame, rest) => ((frame, pkt.length - rest.length), rest)

/-- The frames of a payload, and whether they could all be decoded. -/
def payloadFrames (fuel : ℕ) (payload : Bytes) : Option (List (LoggedFrame × ℕ) × Bool) :=
  if payload = [] then some ([], false)
  else
    match packetBufInit payload with
    | none => some ([], false)
    | some pkt => parse decodeSized fuel pkt

/-- What is printed and recorded for the frames of a payload. -/
def logFrames (lib : X509Lib) (event : EventKey) (alloc : ℕ → Bool) :
    ℕ → SpecState → List (LoggedFrame × ℕ) → List FrameSpec × SpecState :=
  handle fun i s f => logFrame lib (alloc i) event s f.2 f.1

/-- The frame list is that of the decoded frames. -/
theorem appendFrames_eq_logFrames (lib : X509Lib) (event : EventKey) (alloc : ℕ → Bool)
    (fuel : ℕ) (s : SpecState) (payload : Bytes) :
    packetLogAppendFrames lib event alloc fuel s payload =
      (payloadFrames fuel payload).map fun o =>
        ⟨(logFrames lib event alloc 0 s o.1).1, o.2, (logFrames lib event alloc 0 s o.1).2⟩ := by
  unfold packetLogAppendFrames payloadFrames
  split_ifs
  · rfl
  rcases packetBufInit payload with _ | pkt
  · rfl
  · have h := consume_eq_parse decodeSized (fun i s f => logFrame lib (alloc i) event s f.2 f.1)
      fun i s l => show packetLogAppendFrameSpec lib event (alloc i) s l = _ by
        simp [packetLogAppendFrameSpec, decodeSized, Function.comp_def]
    simp only [h, Option.map_map]
    rfl

/-! ### Progress -/

/-- The bytes start with a PADDING type in more than one byte. -/
def OverlongPadding (pkt : Bytes) : Prop := peekFrameHeader pkt = some 0 ∧ pkt.head? ≠ some 0

instance (pkt : Bytes) : Decidable (OverlongPadding pkt) :=
  inferInstanceAs (Decidable (_ ∧ _))

/-- What the loop goes on with after the frame at the cursor. -/
def skipFrame (pkt : Bytes) : Option Bytes := (decodeLoggedFrame pkt).map Prod.snd

theorem skips_skipFrame (lib : X509Lib) (event : EventKey) (alloc : ℕ → Bool) :
    Skips (fun i => packetLogAppendFrameSpec lib event (alloc i)) skipFrame := by
  intro i s l _
  simp [packetLogAppendFrameSpec, skipFrame, Function.comp_def]

theorem decodePadding_of_head_ne {pkt : Bytes} (h : pkt.head? ≠ some 0) :
    decodePadding pkt = (0, pkt) := by
  rcases pkt with _ | ⟨b, pkt⟩
  · rfl
  · have hb : b ≠ 0 := by simpa using h
    simp [decodePadding, hb]

/-- A PADDING type in more than one byte is printed as padding of no bytes, and stays. -/
theorem decodeLoggedFrame_overlong {pkt : Bytes} (h : OverlongPadding pkt) :
    decodeLoggedFrame pkt = some (.padding 0, pkt) := by
  rw [decodeLoggedFrame, h.1]
  simp [FrameKind.ofType, decodePadding_of_head_ne h.2]

theorem length_dropWhile_lt {pkt : Bytes} (h : pkt.head? = some 0) :
    (pkt.dropWhile (· = 0)).length < pkt.length := by
  rcases pkt with _ | ⟨b, pkt⟩
  · cases h
  · obtain rfl : b = 0 := by simpa using h
    have := (List.dropWhile_suffix (l := pkt) fun b : UInt8 => decide (b = 0)).length_le
    simp only [decide_true, List.dropWhile_cons_of_pos, List.length_cons]
    omega

/-- A frame that is not an overlong PADDING takes at least one byte. -/
theorem decodeLoggedFrame_length {pkt rest : Bytes} {frame : LoggedFrame}
    (ho : ¬ OverlongPadding pkt) (hne : pkt ≠ [])
    (h : decodeLoggedFrame pkt = some (frame, rest)) : rest.length < pkt.length := by
  unfold decodeLoggedFrame at h
  rcases hp : peekFrameHeader pkt with _ | t
  · rw [hp] at h; cases h
  rw [hp] at h
  simp only at h
  rcases hk : FrameKind.ofType t <;> rw [hk] at h <;> simp only at h
  case padding =>
    obtain rfl := FrameKind.eq_zero_of_ofType hk
    obtain ⟨-, rfl⟩ : _ ∧ (decodePadding pkt).2 = rest := by simpa using h
    exact length_dropWhile_lt (by_contra fun hh => ho ⟨hp, hh⟩)
  case ack => exact (decodeFrameAck_length pkt _).of_map h fun _ => rfl
  case crypto => exact (decodeFrameCrypto_length pkt).of_map h fun _ => rfl
  case stream => exact (decodeFrameStream_length pkt).of_map h fun _ => rfl
  case ping => exact (expectFrameHeader_length pkt _).of_map h fun _ => rfl
  case newToken => exact (decodeFrameNewToken_length pkt).of_map h fun _ => rfl
  case newConnId => exact (decodeFrameNewConnId_length pkt).of_map h fun _ => rfl
  case connClose => exact (decodeFrameConnClose_length pkt).of_map h fun _ => rfl
  case pathChallenge => exact (decodeFramePath_length pkt _).of_map h fun _ => rfl
  case pathResponse => exact (decodeFramePath_length pkt _).of_map h fun _ => rfl
  case handshakeDone => exact (expectFrameHeader_length pkt _).of_map h fun _ => rfl
  case other =>
    cases h
    exact List.length_pos_iff.mpr hne

/-! ### Sizes -/

/-- The size a specification shows is the number of bytes of its frame. PADDING alone shows a number
of its own, that of the zero bytes. -/
theorem size_logFrame (lib : X509Lib) (alloc : Bool) (event : EventKey) (s : SpecState) (size : ℕ) :
    ∀ {frame : LoggedFrame}, (∀ n, frame = .padding n → n = size) →
      (logFrame lib alloc event s size frame).1.size = size
  | .padding n, h => h n rfl
  | .ack _, _ | .crypto _, _ | .stream _, _ | .ping, _ | .newToken _, _ | .newConnId _, _
  | .connClose _, _ | .pathChallenge _, _ | .pathResponse _, _ | .handshakeDone, _
  | .unknown _, _ => rfl

theorem decodePadding_length (pkt : Bytes) :
    (decodePadding pkt).1 + (decodePadding pkt).2.length = pkt.length := by
  rw [decodePadding, ← List.length_append, List.takeWhile_append_dropWhile]

theorem decodeLoggedFrame_padding {pkt rest : Bytes} {n : ℕ}
    (h : decodeLoggedFrame pkt = some (.padding n, rest)) : n + rest.length = pkt.length := by
  unfold decodeLoggedFrame at h
  rcases hp : peekFrameHeader pkt with _ | t
  · rw [hp] at h
    cases h
  rw [hp] at h
  simp only at h
  rcases hk : FrameKind.ofType t <;> rw [hk] at h <;> simp only at h
  case padding =>
    cases h
    exact decodePadding_length pkt
  all_goals simp [Prod.map] at h

/-- What the loop takes for a frame is what its specification shows. -/
theorem packetLogAppendFrameSpec_size {lib : X509Lib} {event : EventKey} {alloc : Bool}
    {s s' : SpecState} {pkt rest : Bytes} {spec : FrameSpec} (hne : pkt ≠ [])
    (h : packetLogAppendFrameSpec lib event alloc s pkt = some (spec, s', rest)) :
    spec.size + rest.length = pkt.length := by
  obtain ⟨⟨frame, r⟩, hd, he⟩ := Option.map_eq_some_iff.mp h
  obtain rfl : r = rest := congrArg (fun o => o.2.2) he
  obtain rfl : (logFrame lib alloc event s (pkt.length - r.length) frame).1 = spec :=
    congrArg Prod.fst he
  have hle : r.length ≤ pkt.length := by
    by_cases ho : OverlongPadding pkt
    · rw [decodeLoggedFrame_overlong ho] at hd
      cases hd
      exact le_rfl
    · exact (decodeLoggedFrame_length ho hne hd).le
  have hpad : ∀ n, frame = .padding n → n = pkt.length - r.length := by
    rintro n rfl
    have := decodeLoggedFrame_padding hd
    omega
  rw [size_logFrame lib alloc event s _ hpad]
  omega

/-- **The sizes of a frame list add up to the payload.** -/
theorem sum_size_appendFrames {lib : X509Lib} {event : EventKey} {alloc : ℕ → Bool} {fuel : ℕ}
    {s : SpecState} {payload : Bytes} {r : FramesResult}
    (h : packetLogAppendFrames lib event alloc fuel s payload = some r) (hok : r.ok = true) :
    (r.specs.map FrameSpec.size).sum = payload.length := by
  unfold packetLogAppendFrames at h
  split_ifs at h with hnil
  · cases h
    cases hok
  rcases hi : packetBufInit payload with _ | pkt
  · rw [hi] at h
    cases h
    cases hok
  · rw [hi] at h
    obtain rfl : payload = pkt := by
      unfold packetBufInit at hi
      split_ifs at hi
      exact Option.some.inj hi
    obtain ⟨⟨specs, ok, s'⟩, hc, rfl⟩ := Option.map_eq_some_iff.mp h
    obtain rfl : ok = true := hok
    exact consume_conserves (fun _ _ _ _ _ _ => packetLogAppendFrameSpec_size) hc

/-- PING, three bytes of PADDING and a frame of an unknown type with all that follows it. -/
theorem sum_size_appendFrames_padded : ∃ r,
    packetLogAppendFrames noX509 ⟨true, false, .oneRtt⟩ (fun _ => true) 3 ⟨0, LogState.init⟩
      [1, 0, 0, 0, 0x11, 7, 7] = some r ∧ r.ok = true ∧ (r.specs.map FrameSpec.size).sum = 7 :=
  ⟨_, rfl, rfl, @sum_size_appendFrames noX509 ⟨true, false, .oneRtt⟩ (fun _ => true) 3
    ⟨0, LogState.init⟩ [1, 0, 0, 0, 0x11, 7, 7] _ rfl rfl⟩

end PapQuic.Log.FrameList
