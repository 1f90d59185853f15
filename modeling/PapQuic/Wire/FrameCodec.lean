import PapQuic.Wire.Frames

/-! # Frames and their encodings

The QUIC frames of the types that `doc/packet_logging.md` names, with their wire format: a frame
type and fields, all integers in their minimal encoding. A maximal run of PADDING bytes is one
frame. `Payload` says which sequences of frames make a packet payload: a run of PADDING is maximal,
and a STREAM frame without a length field comes last. This is what the decoders are measured
against: `decode…_encode` says for each of them that it reads its frame back and stops at its end,
whatever follows. -/

namespace PapQuic.Wire.FrameCodec

open Wire.Packet Wire.Vlint Wire.Frames

/-- A frame. -/
inductive Frame
  /-- A run of `n + 1` bytes. -/
  | padding (n : ℕ)
  | ping
  /-- The further ranges are given by gap and length, the ECN counts only when there are some. -/
  | ack (largest delay first : ℕ) (ranges : List (ℕ × ℕ)) (ecn : Option (ℕ × ℕ × ℕ))
  | crypto (offset : ℕ) (data : Bytes)
  | newToken (token : Bytes)
  | stream (id : ℕ) (offset : Option ℕ) (hasLen fin : Bool) (data : Bytes)
  | maxData (max : ℕ)
  | maxStreamData (id max : ℕ)
  | maxStreams (uni : Bool) (max : ℕ)
  | dataBlocked (max : ℕ)
  | streamDataBlocked (id max : ℕ)
  | streamsBlocked (uni : Bool) (max : ℕ)
  | newConnId (seq retire : ℕ) (connId reset : Bytes)
  | retireConnId (seq : ℕ)
  | pathChallenge (data : Bytes)
  | pathResponse (data : Bytes)
  /-- The type of the frame at fault only in a close of the transport. -/
  | connClose (error : ℕ) (cause : Option ℕ) (reason : Bytes)
  | handshakeDone
  deriving DecidableEq, Repr

namespace Frame

/-- The frame type. -/
def frameType : Frame → ℕ
  | padding _ => 0x00
  | ping => 0x01
  | ack _ _ _ _ ecn => if ecn.isSome then 0x03 else 0x02
  | crypto .. => 0x06
  | newToken _ => 0x07
  | stream _ offset hasLen fin _ =>
    0x08 + (if offset.isSome then 4 else 0) + (if hasLen then 2 else 0) + (if fin then 1 else 0)
  | maxData _ => 0x10
  | maxStreamData .. => 0x11
  | maxStreams uni _ => if uni then 0x13 else 0x12
  | dataBlocked _ => 0x14
  | streamDataBlocked .. => 0x15
  | streamsBlocked uni _ => if uni then 0x17 else 0x16
  | newConnId .. => 0x18
  | retireConnId _ => 0x19
  | pathChallenge _ => 0x1a
  | pathResponse _ => 0x1b
  | connClose _ cause _ => if cause.isSome then 0x1c else 0x1d
  | handshakeDone => 0x1e

/-- A byte string with its length before it. -/
def withLen (data : Bytes) : Bytes := vlintEncode data.length ++ data

/-- Gaps and lengths. -/
def encodeRanges (ranges : List (ℕ × ℕ)) : Bytes :=
  ranges.flatMap fun r => vlintEncode r.1 ++ vlintEncode r.2

/-- What follows the frame type. -/
def fields : Frame → Bytes
  | padding n => List.replicate n 0
  | ping | handshakeDone => []
  | ack largest delay first ranges ecn =>
    vlintEncode largest ++ vlintEncode delay ++ vlintEncode ranges.length ++ vlintEncode first ++
      encodeRanges ranges ++
      ecn.elim [] fun c => vlintEncode c.1 ++ vlintEncode c.2.1 ++ vlintEncode c.2.2
  | crypto offset data => vlintEncode offset ++ withLen data
  | newToken token => withLen token
  | stream id offset hasLen _ data =>
    vlintEncode id ++ offset.elim [] vlintEncode ++ if hasLen then withLen data else data
  | maxData v | maxStreams _ v | dataBlocked v | streamsBlocked _ v | retireConnId v =>
    vlintEncode v
  | maxStreamData id v | streamDataBlocked id v => vlintEncode id ++ vlintEncode v
  | newConnId seq retire connId reset =>
    vlintEncode seq ++ vlintEncode retire ++ UInt8.ofNat connId.length :: connId ++ reset
  | pathChallenge data | pathResponse data => data
  | connClose error cause reason =>
    vlintEncode error ++ cause.elim [] vlintEncode ++ withLen reason

/-- The bytes of a frame. -/
def encode (f : Frame) : Bytes := vlintEncode f.frameType ++ f.fields

/-- Each further range lies below the one before it, with the gap between them. -/
def AckChain : ℕ → List (ℕ × ℕ) → Prop
  | _, [] => True
  | smallest, (gap, len) :: ranges =>
    gap + 2 ≤ smallest ∧ len ≤ smallest - gap - 2 ∧ AckChain (smallest - gap - 2 - len) ranges

/-- Integers that can be encoded, and fields that fit each other. -/
def WellFormed : Frame → Prop
  | padding _ | ping | handshakeDone => True
  | ack largest delay first ranges ecn =>
    largest ≤ vlintMax ∧ delay ≤ vlintMax ∧ ranges.length ≤ vlintMax ∧ first ≤ largest ∧
      AckChain (largest - first) ranges ∧
      ∀ c, ecn = some c → c.1 ≤ vlintMax ∧ c.2.1 ≤ vlintMax ∧ c.2.2 ≤ vlintMax
  | crypto offset data => offset + data.length ≤ vlintMax
  | newToken token => token.length ≤ vlintMax
  | stream id offset _ _ data => id ≤ vlintMax ∧ offset.getD 0 + data.length ≤ vlintMax
  | maxData v | maxStreams _ v | dataBlocked v | streamsBlocked _ v | retireConnId v =>
    v ≤ vlintMax
  | maxStreamData id v | streamDataBlocked id v => id ≤ vlintMax ∧ v ≤ vlintMax
  | newConnId seq retire connId reset =>
    seq ≤ vlintMax ∧ retire ≤ seq ∧ 1 ≤ connId.length ∧ connId.length ≤ 20 ∧ reset.length = 16
  | pathChallenge data | pathResponse data => data.length = 8
  | connClose error cause reason =>
    error ≤ vlintMax ∧ (∀ t, cause = some t → t ≤ vlintMax) ∧ reason.length ≤ vlintMax

end Frame

/-- The bytes of a sequence of frames. -/
def encodeAll (frames : List Frame) : Bytes := frames.flatMap Frame.encode

/-- The frame ends where the next ones start: a run of PADDING is not followed by more of it, and a
STREAM frame that has no length takes all there is. -/
def Frame.EndsBefore : Frame → List Frame → Prop
  | .padding _, next :: _ => next.frameType ≠ 0
  | .stream _ _ false _ _, next => next = []
  | _, _ => True

/-- A sequence of frames that makes a payload. -/
def Payload : List Frame → Prop
  | [] => True
  | f :: frames => f.WellFormed ∧ f.EndsBefore frames ∧ Payload frames

/-! ### The frame type -/

theorem Frame.frameType_lt (f : Frame) : f.frameType < 0x40 := by
  cases f <;> simp only [Frame.frameType] <;> (try split_ifs) <;> omega

theorem Frame.frameType_le (f : Frame) : f.frameType ≤ vlintMax :=
  f.frameType_lt.le.trans (by decide)

theorem peek_vlintEncode {t : ℕ} (ht : t ≤ vlintMax) (rest : Bytes) :
    peekFrameHeader (vlintEncode t ++ rest) = some t := by
  rw [peekFrameHeader, peek_eq_get, get_vlintEncode ht]
  rfl

theorem peek_encode (f : Frame) (rest : Bytes) :
    peekFrameHeader (f.encode ++ rest) = some f.frameType := by
  rw [Frame.encode, List.append_assoc, peek_vlintEncode f.frameType_le]

theorem expect_vlintEncode {t : ℕ} (ht : t ≤ vlintMax) (rest : Bytes) :
    expectFrameHeader (vlintEncode t ++ rest) t = some rest := by
  simp [expectFrameHeader, get_vlintEncode ht]

theorem expectMask_vlintEncode {t e m : ℕ} (ht : t ≤ vlintMax)
    (hm : t &&& (2 ^ 64 - 1 - m) = e) (rest : Bytes) :
    expectFrameHeaderMask (vlintEncode t ++ rest) e m = some (t, rest) := by
  simp only [expectFrameHeaderMask, get_vlintEncode ht, Option.bind_eq_bind, Option.bind_some, hm]
  exact if_neg (by simp)

theorem getVlintIf_some {v d : ℕ} (hv : v ≤ vlintMax) (rest : Bytes) :
    getVlintIf true d (vlintEncode v ++ rest) = some (v, rest) := by
  simp [getVlintIf, get_vlintEncode hv]

/-! ### The decoders read their frames back -/

theorem vlintMax_le_sizeMax : vlintMax ≤ sizeMax := by decide

/-- The lower ends that the decoder works with are never below the true ones: once its array is full
it does not carry them on. -/
theorem decodeAckRanges_encode (k : ℕ) : ∀ (ranges : List (ℕ × ℕ)) (i smallest start : ℕ)
    (rest : Bytes), smallest ≤ vlintMax → smallest ≤ start → Frame.AckChain smallest ranges →
    ∃ r, decodeAckRanges k ranges.length i start (Frame.encodeRanges ranges ++ rest) =
      some (r, rest)
  | [], _, _, _, _, _, _, _ => ⟨[], rfl⟩
  | (gap, len) :: ranges, i, smallest, start, rest, hmax, hle, ⟨hgap, hlen, hchain⟩ => by
    have hg : gap ≤ vlintMax := by omega
    have hl : len ≤ vlintMax := by omega
    simp only [Frame.encodeRanges, List.flatMap_cons, List.append_assoc, List.length_cons,
      decodeAckRanges, get_vlintEncode hg, get_vlintEncode hl, Option.bind_eq_bind,
      Option.bind_some]
    rw [if_neg (by omega), if_neg (by omega)]
    split_ifs
    · obtain ⟨r, hr⟩ := decodeAckRanges_encode k ranges (i + 1) _ (start - gap - 2 - len) rest
        (by omega) (by omega) hchain
      rw [Frame.encodeRanges] at hr
      exact ⟨_, by rw [hr]; rfl⟩
    · obtain ⟨r, hr⟩ := decodeAckRanges_encode k ranges (i + 1) _ start rest
        (by omega) (by omega) hchain
      exact ⟨r, hr⟩

theorem getEcnCounts_encode {ecn : Option (ℕ × ℕ × ℕ)}
    (h : ∀ c, ecn = some c → c.1 ≤ vlintMax ∧ c.2.1 ≤ vlintMax ∧ c.2.2 ≤ vlintMax)
    (rest : Bytes) :
    getEcnCounts ecn.isSome
      (ecn.elim [] (fun c => vlintEncode c.1 ++ vlintEncode c.2.1 ++ vlintEncode c.2.2) ++ rest) =
      some rest := by
  rcases ecn with _ | ⟨a, b, c⟩
  · rfl
  · obtain ⟨h1, h2, h3⟩ := h _ rfl
    simp [getEcnCounts, getVlintIf_some h1, getVlintIf_some h2, getVlintIf_some h3]

theorem decodeFrameAck_encode {largest delay first : ℕ} {ranges : List (ℕ × ℕ)}
    {ecn : Option (ℕ × ℕ × ℕ)} (h : (Frame.ack largest delay first ranges ecn).WellFormed)
    (k : ℕ) (rest : Bytes) :
    ∃ f, decodeFrameAck ((Frame.ack largest delay first ranges ecn).encode ++ rest) k =
      some (f, rest) := by
  obtain ⟨hl, hd, hn, hf, hchain, hecn⟩ := h
  have htype : (Frame.ack largest delay first ranges ecn).frameType &&&
      (2 ^ 64 - 1 - 1) = 0x02 := by
    cases ecn <;> simp [Frame.frameType]
  have hisecn : ((Frame.ack largest delay first ranges ecn).frameType == 0x03) = ecn.isSome := by
    cases ecn <;> rfl
  obtain ⟨r, hr⟩ := decodeAckRanges_encode k ranges 0 (largest - first) (largest - first)
    (ecn.elim [] (fun c => vlintEncode c.1 ++ vlintEncode c.2.1 ++ vlintEncode c.2.2) ++ rest)
    (by omega) le_rfl hchain
  refine ⟨⟨⟨largest - first, largest⟩ :: r, ranges.length + 1⟩, ?_⟩
  rw [decodeFrameAck, Frame.encode, List.append_assoc,
    expectMask_vlintEncode (Frame.frameType_le _) htype]
  simp only [Frame.fields, List.append_assoc, get_vlintEncode hl, get_vlintEncode hd,
    get_vlintEncode hn, get_vlintEncode (hf.trans hl), Option.bind_eq_bind, Option.bind_some]
  rw [if_neg (by omega), if_neg (by have := vlintMax_le_sizeMax; omega)]
  simp only [List.append_assoc] at hr
  rw [hr]
  have he := getEcnCounts_encode hecn rest
  simp only [List.append_assoc] at he
  simp only [Option.bind_some, hisecn, he]

/-- A byte string after its length. -/
theorem getBytes_withLen {data : Bytes} (h : data.length ≤ vlintMax) (rest : Bytes) :
    packetGetQuicVlint (Frame.withLen data ++ rest) = some (data.length, data ++ rest) := by
  rw [Frame.withLen, List.append_assoc, get_vlintEncode h]

theorem decodeFrameCrypto_encode {offset : ℕ} {data : Bytes}
    (h : (Frame.crypto offset data).WellFormed) (rest : Bytes) :
    decodeFrameCrypto ((Frame.crypto offset data).encode ++ rest) =
      some (⟨offset, data⟩, rest) := by
  have h' : offset + data.length ≤ vlintMax := h
  have hmax : ¬ offset + data.length > 2 ^ 62 - 1 := by unfold vlintMax at h'; omega
  rw [decodeFrameCrypto, Frame.encode, List.append_assoc,
    show (Frame.crypto offset data).frameType = 0x06 from rfl,
    expect_vlintEncode (by decide)]
  simp only [Frame.fields, List.append_assoc, get_vlintEncode (show offset ≤ vlintMax by omega),
    getBytes_withLen (show data.length ≤ vlintMax by omega), Option.bind_eq_bind,
    Option.bind_some]
  rw [if_neg (by have := vlintMax_le_sizeMax; omega), if_neg hmax]
  simp

theorem decodeFrameNewToken_encode {token : Bytes} (h : (Frame.newToken token).WellFormed)
    (rest : Bytes) :
    decodeFrameNewToken ((Frame.newToken token).encode ++ rest) = some (token, rest) := by
  have h' : token.length ≤ vlintMax := h
  rw [decodeFrameNewToken, Frame.encode, List.append_assoc,
    show (Frame.newToken token).frameType = 0x07 from rfl, expect_vlintEncode (by decide)]
  simp only [Frame.fields, getBytes_withLen h', Option.bind_eq_bind, Option.bind_some]
  rw [if_neg (by have := vlintMax_le_sizeMax; omega)]
  simp

/-- The three bits of a STREAM type. -/
theorem streamType_bits (id : ℕ) (offset : Option ℕ) (hasLen fin : Bool) (data : Bytes) :
    let t := (Frame.stream id offset hasLen fin data).frameType
    t &&& (2 ^ 64 - 1 - 0x07) = 0x08 ∧ (t &&& 0x04 != 0) = offset.isSome ∧
      (t &&& 0x02 != 0) = hasLen ∧ (t &&& 0x01 != 0) = fin := by
  cases offset <;> cases hasLen <;> cases fin <;> simp [Frame.frameType]

theorem getVlintIf_isSome {v : Option ℕ} (hv : v.getD 0 ≤ vlintMax) (rest : Bytes) :
    getVlintIf v.isSome 0 (v.elim [] vlintEncode ++ rest) = some (v.getD 0, rest) := by
  rcases v with _ | v
  · rfl
  · exact getVlintIf_some hv rest

/-- A STREAM frame without a length takes all there is. -/
theorem decodeFrameStream_encode {id : ℕ} {offset : Option ℕ} {hasLen fin : Bool} {data : Bytes}
    (h : (Frame.stream id offset hasLen fin data).WellFormed) {rest : Bytes}
    (hrest : hasLen = false → rest = []) :
    decodeFrameStream ((Frame.stream id offset hasLen fin data).encode ++ rest) =
      some (⟨id, offset.getD 0, data, hasLen, fin⟩, rest) := by
  obtain ⟨hid, hdata⟩ := h
  obtain ⟨ht, ho, hl, hf⟩ := streamType_bits id offset hasLen fin data
  have hmax : ¬ offset.getD 0 + data.length > 2 ^ 62 - 1 := by unfold vlintMax at hdata; omega
  have hlen : getVlintIf hasLen ((if hasLen then Frame.withLen data else data) ++ rest).length
      ((if hasLen then Frame.withLen data else data) ++ rest) =
        some (data.length, data ++ rest) := by
    cases hasLen with
    | false => simp [getVlintIf, hrest rfl]
    | true => exact getBytes_withLen (by omega) rest
  rw [decodeFrameStream, Frame.encode, List.append_assoc,
    expectMask_vlintEncode (Frame.frameType_le _) ht]
  simp only [Frame.fields, List.append_assoc, get_vlintEncode hid, Option.bind_eq_bind,
    Option.bind_some, ho, hl, hf]
  rw [getVlintIf_isSome (by omega)]
  simp only [Option.bind_some, hlen]
  rw [if_neg hmax]
  simp

theorem decodeFrameNewConnId_encode {seq retire : ℕ} {connId reset : Bytes}
    (h : (Frame.newConnId seq retire connId reset).WellFormed) (rest : Bytes) :
    decodeFrameNewConnId ((Frame.newConnId seq retire connId reset).encode ++ rest) =
      some (⟨seq, retire, connId, reset⟩, rest) := by
  obtain ⟨hs, hr, h1, h20, h16⟩ := h
  have hlen : (UInt8.ofNat connId.length).toNat = connId.length := by
    rw [toNat_ofNat_mod]; omega
  have hreset : packetGetBytes (reset ++ rest) 16 = some (reset, rest) := by
    rw [← h16]; exact packetGetBytes_append reset rest
  rw [decodeFrameNewConnId, Frame.encode, List.append_assoc,
    show (Frame.newConnId seq retire connId reset).frameType = 0x18 from rfl,
    expect_vlintEncode (by decide)]
  simp only [Frame.fields, List.append_assoc, get_vlintEncode hs, get_vlintEncode (hr.trans hs),
    Option.bind_eq_bind, Option.bind_some, List.cons_append]
  rw [if_neg (by omega)]
  simp only [packetGet1, hlen, Option.bind_some]
  rw [if_neg (by omega)]
  simp [hreset]

theorem decodeFramePath_encode {t : ℕ} (ht : t ≤ vlintMax) {data : Bytes} (h : data.length = 8)
    (rest : Bytes) :
    decodeFramePath t (vlintEncode t ++ data ++ rest) = some (netOrder data, rest) := by
  rw [decodeFramePath, List.append_assoc, expect_vlintEncode ht, Option.bind_eq_bind,
    Option.bind_some, packetGetNet8, packetGetNet, if_neg (by simp [h]), ← h, List.take_left,
    List.drop_left]

theorem decodeFrameConnClose_encode {error : ℕ} {cause : Option ℕ} {reason : Bytes}
    (h : (Frame.connClose error cause reason).WellFormed) (rest : Bytes) :
    decodeFrameConnClose ((Frame.connClose error cause reason).encode ++ rest) =
      some (⟨cause.isNone, cause.getD 0, error, reason⟩, rest) := by
  obtain ⟨he, hc, hr⟩ := h
  have htype : (Frame.connClose error cause reason).frameType &&& (2 ^ 64 - 1 - 1) = 0x1c := by
    cases cause <;> simp [Frame.frameType]
  have happ : ((Frame.connClose error cause reason).frameType &&& 1 != 0) = cause.isNone := by
    cases cause <;> simp [Frame.frameType]
  have hcause : cause.getD 0 ≤ vlintMax := by
    rcases cause with _ | t
    · exact Nat.zero_le _
    · exact hc t rfl
  rw [decodeFrameConnClose, Frame.encode, List.append_assoc,
    expectMask_vlintEncode (Frame.frameType_le _) htype]
  simp only [Frame.fields, List.append_assoc, get_vlintEncode he, Option.bind_eq_bind,
    Option.bind_some, happ, Option.not_isNone]
  rw [getVlintIf_isSome hcause]
  simp only [Option.bind_some, getBytes_withLen hr]
  rw [if_neg (by have := vlintMax_le_sizeMax; omega)]
  simp

/-- A run of PADDING ends where the next frame starts. -/
theorem decodePadding_encode (n : ℕ) {frames : List Frame}
    (h : (Frame.padding n).EndsBefore frames) :
    decodePadding ((Frame.padding n).encode ++ encodeAll frames) = (n + 1, encodeAll frames) := by
  have hzeros : (Frame.padding n).encode = List.replicate (n + 1) 0 := rfl
  have hnext : ∀ b ∈ (encodeAll frames).head?, b ≠ 0 := by
    rcases frames with _ | ⟨f, frames⟩
    · simp [encodeAll]
    · intro b hb hb0
      have hp := peek_encode f (encodeAll frames)
      have hd : encodeAll (f :: frames) = f.encode ++ encodeAll frames := by simp [encodeAll]
      rw [← hd] at hp
      rcases he : encodeAll (f :: frames) with _ | ⟨b', bs⟩
      · rw [he] at hb; cases hb
      · rw [he] at hb hp
        obtain rfl : b' = b := by simpa using hb
        subst hb0
        -- a first byte 0 is the frame type 0
        have h0 : peekFrameHeader (0 :: bs) = some 0 := by
          simp [peekFrameHeader, packetPeekQuicVlintEx, vlintDecodeUnchecked, vlintDecodeLen]
        rw [h0] at hp
        exact h (Option.some.inj hp).symm
  have hdrop : (encodeAll frames).dropWhile (· = 0) = encodeAll frames ∧
      (encodeAll frames).takeWhile (· = 0) = [] := by
    rcases he : encodeAll frames with _ | ⟨b, bs⟩
    · exact ⟨rfl, rfl⟩
    · have hb : b ≠ 0 := hnext b (by rw [he]; rfl)
      simp [hb]
  unfold decodePadding
  rw [hzeros, List.takeWhile_append_of_pos (by simp), List.dropWhile_append_of_pos (by simp),
    hdrop.1, hdrop.2]
  simp

end PapQuic.Wire.FrameCodec
