import PapQuic.Wire.FrameCodec
import PapQuic.Log.FrameList

/-! # What is listed for a sequence of frames

A payload is made of well-formed frames of the types that `doc/packet_logging.md` documents. The log
should print one specification for each frame, in order, with the documented name and the length of
the frame. The `switch` of `packet_log_append_frame_spec` has no case for seven of the documented
types (RETIRE_CONNECTION_ID, MAX_DATA, MAX_STREAM_DATA, MAX_STREAMS, DATA_BLOCKED,
STREAM_DATA_BLOCKED, STREAMS_BLOCKED). The first frame of such a type is printed as `UNKNOWN` and
takes the rest of the payload with it: `listing` says what is printed in every case, and
`appendFrames_lists_iff` that it is the right list exactly when there is no such frame. -/

namespace PapQuic.Log.Listing

open Lib.Consume Wire.Packet Wire.Vlint Wire.Frames Wire.FrameCodec Log.Metadata Log.FrameList

/-- The name that `doc/packet_logging.md` gives a frame. -/
def documentedName : Frame → String
  | .padding _ => "PADDING"
  | .ping => "PING"
  | .ack .. => "ACK"
  | .crypto .. => "CRYPTO"
  | .newToken _ => "NEW_TOKEN"
  | .stream .. => "STREAM"
  | .maxData _ => "MAX_DATA"
  | .maxStreamData .. => "MAX_STREAM_DATA"
  | .maxStreams uni _ => if uni then "MAX_STREAMS_UNI" else "MAX_STREAMS_BIDI"
  | .dataBlocked _ => "DATA_BLOCKED"
  | .streamDataBlocked .. => "STREAM_DATA_BLOCKED"
  | .streamsBlocked uni _ => if uni then "STREAMS_BLOCKED_UNI" else "STREAMS_BLOCKED_BIDI"
  | .newConnId .. => "NEW_CONNECTION_ID"
  | .retireConnId _ => "RETIRE_CONNECTION_ID"
  | .pathChallenge _ => "PATH_CHALLENGE"
  | .pathResponse _ => "PATH_RESPONSE"
  | .connClose .. => "CONNECTION_CLOSE"
  | .handshakeDone => "HANDSHAKE_DONE"

/-- The log has a case for the frame's type. -/
def hasCase : Frame → Bool
  | .maxData _ | .maxStreamData .. | .maxStreams .. | .dataBlocked _ | .streamDataBlocked ..
  | .streamsBlocked .. | .retireConnId _ => false
  | _ => true

/-- What the log lists, by name and size. -/
def listing : List Frame → List (String × ℕ)
  | [] => []
  | f :: frames =>
    if hasCase f then (documentedName f, f.encode.length) :: listing frames
    else [("UNKNOWN", (encodeAll (f :: frames)).length)]

/-- The name and the size printed for a decoded frame of `size` bytes. -/
def listed : LoggedFrame × ℕ → String × ℕ
  | (.padding n, _) => ("PADDING", n)
  | (.ack _, size) => ("ACK", size)
  | (.crypto _, size) => ("CRYPTO", size)
  | (.stream _, size) => ("STREAM", size)
  | (.ping, size) => ("PING", size)
  | (.newToken _, size) => ("NEW_TOKEN", size)
  | (.newConnId _, size) => ("NEW_CONNECTION_ID", size)
  | (.connClose _, size) => ("CONNECTION_CLOSE", size)
  | (.pathChallenge _, size) => ("PATH_CHALLENGE", size)
  | (.pathResponse _, size) => ("PATH_RESPONSE", size)
  | (.handshakeDone, size) => ("HANDSHAKE_DONE", size)
  | (.unknown _, size) => ("UNKNOWN", size)

theorem logFrame_listed (lib : X509Lib) (alloc : Bool) (event : EventKey) (s : SpecState)
    (f : LoggedFrame × ℕ) :
    ((logFrame lib alloc event s f.2 f.1).1.name, (logFrame lib alloc event s f.2 f.1).1.size) =
      listed f := by
  rcases f with ⟨frame, size⟩
  cases frame <;> rfl

theorem logFrames_listed (lib : X509Lib) (event : EventKey) (alloc : ℕ → Bool) :
    ∀ (fs : List (LoggedFrame × ℕ)) (i : ℕ) (s : SpecState),
      ((logFrames lib event alloc i s fs).1.map fun spec => (spec.name, spec.size)) = fs.map listed
  | [], _, _ => rfl
  | f :: fs, i, s =>
    congrArg₂ List.cons (logFrame_listed lib (alloc i) event s f) (logFrames_listed lib event alloc
      fs (i + 1) _)

/-! ### One frame -/

theorem length_encode_pos (f : Frame) : 0 < f.encode.length := by
  have h := packetGetQuicVlint_length (get_vlintEncode f.frameType_le [])
  simp only [List.append_nil, List.length_nil] at h
  rw [Frame.encode, List.length_append]
  omega

theorem encodeAll_cons (f : Frame) (frames : List Frame) :
    encodeAll (f :: frames) = f.encode ++ encodeAll frames := by
  simp [encodeAll]

theorem decodeSized_of_decode {f : Frame} {rest : Bytes} {frame : LoggedFrame}
    (h : decodeLoggedFrame (f.encode ++ rest) = some (frame, rest)) :
    decodeSized (f.encode ++ rest) = some ((frame, f.encode.length), rest) := by
  simp [decodeSized, h]

/-- A frame of a type the log has a case for is decoded, and the next one starts at its end. -/
theorem decode_hasCase {f : Frame} {frames : List Frame} (hf : f.WellFormed)
    (he : f.EndsBefore frames) (hc : hasCase f = true) :
    ∃ frame, decodeLoggedFrame (f.encode ++ encodeAll frames) = some (frame, encodeAll frames) ∧
      listed (frame, f.encode.length) = (documentedName f, f.encode.length) := by
  unfold decodeLoggedFrame
  rw [peek_encode]
  cases f with
  | padding n =>
    refine ⟨.padding (n + 1), ?_, ?_⟩
    · simp only [Frame.frameType, FrameKind.ofType, if_true, decodePadding_encode n he]
    · simp [listed, documentedName, Frame.encode, Frame.frameType, Frame.fields, vlintEncode,
        vlintEncodeN, vlintEncodeLen]
  | ping =>
    refine ⟨.ping, ?_, rfl⟩
    have h := expect_vlintEncode (t := 0x01) (by decide) (encodeAll frames)
    exact congrArg (Option.map (Prod.mk LoggedFrame.ping)) h
  | ack largest delay first ranges ecn =>
    obtain ⟨a, ha⟩ := decodeFrameAck_encode hf packetLogMaxAckRanges (encodeAll frames)
    refine ⟨.ack a, ?_, rfl⟩
    have hk : FrameKind.ofType (Frame.ack largest delay first ranges ecn).frameType = .ack := by
      cases ecn <;> rfl
    simp only [hk, ha]
    rfl
  | crypto offset data =>
    refine ⟨_, congrArg (Option.map (Prod.map LoggedFrame.crypto id))
      (decodeFrameCrypto_encode hf (encodeAll frames)), rfl⟩
  | newToken token =>
    refine ⟨_, congrArg (Option.map (Prod.map LoggedFrame.newToken id))
      (decodeFrameNewToken_encode hf (encodeAll frames)), rfl⟩
  | stream id offset hasLen fin data =>
    have hrest : hasLen = false → encodeAll frames = [] := by
      rintro rfl
      rw [show frames = [] from he]
      rfl
    have hk : FrameKind.ofType (Frame.stream id offset hasLen fin data).frameType = .stream := by
      cases offset <;> cases hasLen <;> cases fin <;> rfl
    refine ⟨.stream ⟨id, offset.getD 0, data, hasLen, fin⟩, ?_, rfl⟩
    simp only [hk, decodeFrameStream_encode hf hrest]
    rfl
  | newConnId seq retire connId reset =>
    refine ⟨_, congrArg (Option.map (Prod.map LoggedFrame.newConnId id))
      (decodeFrameNewConnId_encode hf (encodeAll frames)), rfl⟩
  | pathChallenge data =>
    refine ⟨_, congrArg (Option.map (Prod.map LoggedFrame.pathChallenge id))
      (decodeFramePath_encode (t := 0x1a) (by decide) hf (encodeAll frames)), rfl⟩
  | pathResponse data =>
    refine ⟨_, congrArg (Option.map (Prod.map LoggedFrame.pathResponse id))
      (decodeFramePath_encode (t := 0x1b) (by decide) hf (encodeAll frames)), rfl⟩
  | connClose error cause reason =>
    have hk : FrameKind.ofType (Frame.connClose error cause reason).frameType = .connClose := by
      cases cause <;> rfl
    refine ⟨.connClose ⟨cause.isNone, cause.getD 0, error, reason⟩, ?_, rfl⟩
    simp only [hk, decodeFrameConnClose_encode hf]
    rfl
  | handshakeDone =>
    refine ⟨.handshakeDone, ?_, rfl⟩
    have h := expect_vlintEncode (t := 0x1e) (by decide) (encodeAll frames)
    exact congrArg (Option.map (Prod.mk LoggedFrame.handshakeDone)) h
  | maxData | maxStreamData | maxStreams | dataBlocked | streamDataBlocked | streamsBlocked
  | retireConnId => cases hc

/-- Any other frame takes all that is left. -/
theorem decode_other {f : Frame} (hc : hasCase f = false) (rest : Bytes) :
    decodeLoggedFrame (f.encode ++ rest) = some (.unknown f.frameType, []) := by
  have hk : FrameKind.ofType f.frameType = .other := by
    cases f with
    | maxStreams uni | streamsBlocked uni => cases uni <;> rfl
    | maxData | maxStreamData | dataBlocked | streamDataBlocked | retireConnId => rfl
    | padding | ping | ack | crypto | newToken | stream | newConnId | pathChallenge
    | pathResponse | connClose | handshakeDone => cases hc
  simp only [decodeLoggedFrame, peek_encode, hk]

/-! ### A payload -/

theorem parse_listing : ∀ {frames : List Frame} {n : ℕ}, Payload frames → frames.length ≤ n →
    ∃ fs, parse decodeSized n (encodeAll frames) = some (fs, true) ∧ fs.map listed = listing frames
  | [], _, _, _ => ⟨[], by simp [encodeAll, parse], rfl⟩
  | _ :: _, 0, _, hn => by simp at hn
  | f :: frames, n + 1, ⟨hf, he, hp⟩, hn => by
    have hne : f.encode ++ encodeAll frames ≠ [] := by
      have := length_encode_pos f
      intro h
      simp [List.append_eq_nil_iff.mp h] at this
    rw [encodeAll_cons, listing]
    rcases hc : hasCase f with _ | _
    · -- the frame takes the rest, and the loop ends
      have hd : decodeSized (f.encode ++ encodeAll frames) =
          some ((.unknown f.frameType, (f.encode ++ encodeAll frames).length), []) := by
        simp [decodeSized, decode_other hc]
      rw [parse_of_some hne hd]
      exact ⟨[(.unknown f.frameType, (f.encode ++ encodeAll frames).length)], by simp [parse],
        by rw [if_neg (by simp), encodeAll_cons]; rfl⟩
    · obtain ⟨frame, hd, hl⟩ := decode_hasCase hf he hc
      obtain ⟨fs, hfs, hmap⟩ := parse_listing hp (Nat.le_of_succ_le_succ hn)
      rw [parse_of_some hne (decodeSized_of_decode hd), hfs, if_pos rfl]
      exact ⟨(frame, f.encode.length) :: fs, rfl, by rw [List.map_cons, hl, hmap]⟩

theorem length_le_encodeAll : ∀ frames : List Frame, frames.length ≤ (encodeAll frames).length
  | [] => Nat.zero_le _
  | f :: frames => by
    have h1 := length_encode_pos f
    have h2 := length_le_encodeAll frames
    rw [encodeAll_cons, List.length_append, List.length_cons]
    omega

/-- What is printed for a payload. -/
theorem appendFrames_listing (lib : X509Lib) (event : EventKey) (alloc : ℕ → Bool) (s : SpecState)
    {frames : List Frame} (h : Payload frames) :
    ∃ r, packetLogAppendFrames lib event alloc (encodeAll frames).length s (encodeAll frames) =
        some r ∧ (r.specs.map fun spec => (spec.name, spec.size)) =
          if (encodeAll frames).length ≤ sizeMax / 2 then listing frames else [] := by
  rw [appendFrames_eq_logFrames, payloadFrames, packetBufInit]
  rcases frames with _ | ⟨f, frames⟩
  · exact ⟨_, rfl, by simp [encodeAll, logFrames, handle, listing]⟩
  have hne : encodeAll (f :: frames) ≠ [] := by
    have h1 := length_le_encodeAll (f :: frames)
    intro h'
    simp [h'] at h1
  rw [if_neg hne]
  by_cases hl : (encodeAll (f :: frames)).length ≤ sizeMax / 2
  · obtain ⟨fs, hfs, hmap⟩ := parse_listing h (length_le_encodeAll (f :: frames))
    rw [if_neg (by omega), if_pos hl]
    simp only [hfs]
    exact ⟨_, rfl, by rw [← hmap]; exact logFrames_listed lib event alloc fs 0 s⟩
  · rw [if_pos (by omega), if_neg hl]
    exact ⟨_, rfl, rfl⟩

theorem documentedName_ne_unknown (f : Frame) : documentedName f ≠ "UNKNOWN" := by
  cases f <;> simp only [documentedName] <;> (try split_ifs) <;> decide

theorem listing_eq_iff : ∀ frames : List Frame,
    (listing frames = frames.map fun f => (documentedName f, f.encode.length)) ↔
      ∀ f ∈ frames, hasCase f = true
  | [] => by simp [listing]
  | f :: frames => by
    have ih := listing_eq_iff frames
    rw [listing, List.map_cons]
    rcases hc : hasCase f with _ | _
    · have hn := documentedName_ne_unknown f
      simp [hc, hn.symm]
    · simp [hc, ih]

/-- **The frame list of a payload of well-formed frames** has one specification for each frame, in
order, with the documented name and the length of the frame, exactly when the log has a case for
the type of each of them (and the payload is not too long for a `PACKET`). -/
theorem appendFrames_lists_iff (lib : X509Lib) (event : EventKey) (alloc : ℕ → Bool)
    (s : SpecState) (frames : List Frame) (h : Payload frames) :
    (∃ r, packetLogAppendFrames lib event alloc (encodeAll frames).length s (encodeAll frames) =
        some r ∧ (r.specs.map fun spec => (spec.name, spec.size)) =
          frames.map fun f => (documentedName f, f.encode.length)) ↔
      (∀ f ∈ frames, hasCase f = true) ∧ (encodeAll frames).length ≤ sizeMax / 2 := by
  obtain ⟨r, hr, hspecs⟩ := appendFrames_listing lib event alloc s h
  rw [← listing_eq_iff, hr]
  simp only [Option.some.injEq, exists_eq_left', hspecs]
  by_cases hl : (encodeAll frames).length ≤ sizeMax / 2
  · simp [hl]
  · rcases frames with _ | ⟨f, frames⟩
    · exact absurd (Nat.zero_le _) hl
    · simp [hl]

/-- An ACK, a CRYPTO frame and padding. -/
theorem appendFrames_lists_initial :
    ∃ r, packetLogAppendFrames noX509 ⟨true, false, .initial⟩ (fun _ => true) 14
        ⟨0, LogState.init⟩
        (encodeAll [.ack 5 0 1 [(0, 1)] none, .crypto 0 [0x01, 0x00], .padding 1]) = some r ∧
      (r.specs.map fun spec => (spec.name, spec.size)) =
        [("ACK", 7), ("CRYPTO", 5), ("PADDING", 2)] :=
  (appendFrames_lists_iff noX509 ⟨true, false, .initial⟩ (fun _ => true) ⟨0, LogState.init⟩
    [.ack 5 0 1 [(0, 1)] none, .crypto 0 [0x01, 0x00], .padding 1]
    ⟨⟨by decide, by decide, by decide, by decide, ⟨by decide, by decide, trivial⟩, by simp⟩,
      trivial, (by decide : 0 + 2 ≤ vlintMax), trivial, trivial, trivial, trivial⟩).mpr
    ⟨by decide, by decide⟩

/-- A MAX_DATA frame before a PING: one `UNKNOWN` for both. -/
theorem appendFrames_max_data :
    Payload [.maxData 5, .ping] ∧
    ([Frame.maxData 5, .ping].map fun f => (documentedName f, f.encode.length)) =
      [("MAX_DATA", 2), ("PING", 1)] ∧
    ((packetLogAppendFrames noX509 ⟨true, false, .oneRtt⟩ (fun _ => true) 3 ⟨0, LogState.init⟩
      (encodeAll [.maxData 5, .ping])).map FramesResult.specs) = some [.unknown 0x10 3] :=
  ⟨⟨(by decide : 5 ≤ vlintMax), trivial, trivial, trivial, trivial⟩, by decide, by decide +kernel⟩

end PapQuic.Log.Listing
