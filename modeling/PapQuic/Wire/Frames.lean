import PapQuic.Wire.Vlint

/-! # Decoding QUIC frames

The decoders of `ssl/quic/quic_wire.c` that the packet log calls. Each reads the frame type again
(the caller has only peeked at it), then its fields, and returns the frame and what follows it.

* `FrameKind.ofType` groups the frame types as the `switch` of the packet log does.
* `decodeFrame…_length`: a decoder that succeeds has taken at least the bytes of the type.
* `decodePadding` takes the zero bytes at the cursor, and nothing at all when there is none. -/

namespace PapQuic.Wire.Frames

open Wire.Packet Wire.Vlint

/-! ### Frame types -/

/-- The cases of the packet log's `switch` over frame types. -/
inductive FrameKind
  | padding | ack | crypto | stream | ping | newToken | newConnId | connClose
  | pathChallenge | pathResponse | handshakeDone | other
  deriving DecidableEq, Repr

/-- The case a frame type falls into. -/
def FrameKind.ofType (t : ℕ) : FrameKind :=
  if t = 0x00 then .padding
  else if t = 0x01 then .ping
  else if t = 0x02 ∨ t = 0x03 then .ack
  else if t = 0x06 then .crypto
  else if t = 0x07 then .newToken
  else if 0x08 ≤ t ∧ t ≤ 0x0f then .stream
  else if t = 0x18 then .newConnId
  else if t = 0x1a then .pathChallenge
  else if t = 0x1b then .pathResponse
  else if t = 0x1c ∨ t = 0x1d then .connClose
  else if t = 0x1e then .handshakeDone
  else .other

theorem FrameKind.eq_zero_of_ofType {t : ℕ} (h : FrameKind.ofType t = .padding) : t = 0 := by
  by_contra ht
  simp [FrameKind.ofType, ht, ite_eq_iff] at h

/-- `ossl_quic_wire_peek_frame_header`, called with no interest in minimality. -/
def peekFrameHeader (pkt : Bytes) : Option ℕ := (packetPeekQuicVlintEx pkt).map Prod.fst

/-- `expect_frame_header_mask`. -/
def expectFrameHeaderMask (pkt : Bytes) (expected maskBits : ℕ) : Option (ℕ × Bytes) := do
  let (actual, pkt) ← packetGetQuicVlint pkt
  if actual &&& (2 ^ 64 - 1 - maskBits) ≠ expected then none else some (actual, pkt)

/-- `expect_frame_header`. -/
def expectFrameHeader (pkt : Bytes) (expected : ℕ) : Option Bytes := do
  let (actual, pkt) ← packetGetQuicVlint pkt
  if actual ≠ expected then none else some pkt

/-- A field that is present only under a condition, with the value it has when absent. -/
def getVlintIf (present : Bool) (absent : ℕ) (pkt : Bytes) : Option (ℕ × Bytes) :=
  if present then packetGetQuicVlint pkt else some (absent, pkt)

/-! ### ACK -/

/-- An inclusive range of packet numbers. -/
structure AckRange where
  start : ℕ
  last : ℕ
  deriving DecidableEq, Repr

/-- The part of `OSSL_QUIC_FRAME_ACK` the packet log reads, with `total_ranges`. -/
structure FrameAck where
  ackRanges : List AckRange
  totalRanges : ℕ
  deriving DecidableEq, Repr

/-- The loop over the further ranges: `n` ranges to go, `i` done. The lower end of a range is
carried on only while there is room for the range in the array of `numAckRanges`. -/
def decodeAckRanges (numAckRanges : ℕ) : ℕ → ℕ → ℕ → Bytes → Option (List AckRange × Bytes)
  | 0, _, _, pkt => some ([], pkt)
  | n + 1, i, start, pkt => do
    let (gap, pkt) ← packetGetQuicVlint pkt
    let (len, pkt) ← packetGetQuicVlint pkt
    if start < gap + 2 then none
    else
      let last := start - gap - 2
      if len > last then none
      else if i + 1 < numAckRanges then do
        let (ranges, pkt) ← decodeAckRanges numAckRanges n (i + 1) (last - len) pkt
        some (⟨last - len, last⟩ :: ranges, pkt)
      else decodeAckRanges numAckRanges n (i + 1) start pkt

/-- The three counters of an ACK frame with ECN. -/
def getEcnCounts (present : Bool) (pkt : Bytes) : Option Bytes := do
  let (_ect0, pkt) ← getVlintIf present 0 pkt
  let (_ect1, pkt) ← getVlintIf present 0 pkt
  let (_ecnce, pkt) ← getVlintIf present 0 pkt
  some pkt

/-- `ossl_quic_wire_decode_frame_ack`, with room for `numAckRanges ≥ 1` ranges. -/
def decodeFrameAck (pkt : Bytes) (numAckRanges : ℕ) : Option (FrameAck × Bytes) := do
  let (frameType, pkt) ← expectFrameHeaderMask pkt 0x02 1
  let (largestAckd, pkt) ← packetGetQuicVlint pkt
  let (_ackDelayRaw, pkt) ← packetGetQuicVlint pkt
  let (ackRangeCount, pkt) ← packetGetQuicVlint pkt
  let (firstAckRange, pkt) ← packetGetQuicVlint pkt
  if firstAckRange > largestAckd then none
  else if ackRangeCount > sizeMax then none
  else do
    let start := largestAckd - firstAckRange
    let (ranges, pkt) ← decodeAckRanges numAckRanges ackRangeCount 0 start pkt
    let pkt ← getEcnCounts (frameType == 0x03) pkt
    some (⟨⟨start, largestAckd⟩ :: ranges, ackRangeCount + 1⟩, pkt)

/-! ### The other frames -/

/-- `OSSL_QUIC_FRAME_CRYPTO`. -/
structure FrameCrypto where
  offset : ℕ
  data : Bytes
  deriving DecidableEq, Repr

/-- `ossl_quic_wire_decode_frame_crypto`, with `nodata = 0`. -/
def decodeFrameCrypto (pkt : Bytes) : Option (FrameCrypto × Bytes) := do
  let pkt ← expectFrameHeader pkt 0x06
  let (offset, pkt) ← packetGetQuicVlint pkt
  let (len, pkt) ← packetGetQuicVlint pkt
  if len > sizeMax then none
  else if offset + len > 2 ^ 62 - 1 then none
  else do
    let (data, pkt) ← packetGetBytes pkt len
    some (⟨offset, data⟩, pkt)

/-- `ossl_quic_wire_decode_frame_new_token`. -/
def decodeFrameNewToken (pkt : Bytes) : Option (Bytes × Bytes) := do
  let pkt ← expectFrameHeader pkt 0x07
  let (tokenLen, pkt) ← packetGetQuicVlint pkt
  if tokenLen > sizeMax then none else packetGetBytes pkt tokenLen

/-- `OSSL_QUIC_FRAME_STREAM`. -/
structure FrameStream where
  streamId : ℕ
  offset : ℕ
  data : Bytes
  hasExplicitLen : Bool
  isFin : Bool
  deriving DecidableEq, Repr

/-- `ossl_quic_wire_decode_frame_stream`, with `nodata = 0`. -/
def decodeFrameStream (pkt : Bytes) : Option (FrameStream × Bytes) := do
  let (frameType, pkt) ← expectFrameHeaderMask pkt 0x08 0x07
  let (streamId, pkt) ← packetGetQuicVlint pkt
  let (offset, pkt) ← getVlintIf (frameType &&& 0x04 != 0) 0 pkt
  let hasExplicitLen := frameType &&& 0x02 != 0
  let isFin := frameType &&& 0x01 != 0
  let (len, pkt) ← getVlintIf hasExplicitLen pkt.length pkt
  if offset + len > 2 ^ 62 - 1 then none
  else do
    let (data, pkt) ← packetGetBytes pkt len
    some (⟨streamId, offset, data, hasExplicitLen, isFin⟩, pkt)

/-- `OSSL_QUIC_FRAME_NEW_CONN_ID`. -/
structure FrameNewConnId where
  seqNum : ℕ
  retirePriorTo : ℕ
  connId : Bytes
  statelessReset : Bytes
  deriving DecidableEq, Repr

/-- `ossl_quic_wire_decode_frame_new_conn_id`. -/
def decodeFrameNewConnId (pkt : Bytes) : Option (FrameNewConnId × Bytes) := do
  let pkt ← expectFrameHeader pkt 0x18
  let (seqNum, pkt) ← packetGetQuicVlint pkt
  let (retirePriorTo, pkt) ← packetGetQuicVlint pkt
  if seqNum < retirePriorTo then none
  else do
    let (len, pkt) ← packetGet1 pkt
    if len < 1 ∨ len > 20 then none
    else do
      let (connId, pkt) ← packetGetBytes pkt len
      let (statelessReset, pkt) ← packetGetBytes pkt 16
      some (⟨seqNum, retirePriorTo, connId, statelessReset⟩, pkt)

/-- `ossl_quic_wire_decode_frame_path_challenge` and `…_path_response`. -/
def decodeFramePath (frameType : ℕ) (pkt : Bytes) : Option (ℕ × Bytes) := do
  let pkt ← expectFrameHeader pkt frameType
  packetGetNet8 pkt

def decodeFramePathChallenge : Bytes → Option (ℕ × Bytes) := decodeFramePath 0x1a

def decodeFramePathResponse : Bytes → Option (ℕ × Bytes) := decodeFramePath 0x1b

/-- `OSSL_QUIC_FRAME_CONN_CLOSE`. -/
structure FrameConnClose where
  isApp : Bool
  frameType : ℕ
  errorCode : ℕ
  reason : Bytes
  deriving DecidableEq, Repr

/-- `ossl_quic_wire_decode_frame_conn_close`. -/
def decodeFrameConnClose (pkt : Bytes) : Option (FrameConnClose × Bytes) := do
  let (frameType, pkt) ← expectFrameHeaderMask pkt 0x1c 1
  let (errorCode, pkt) ← packetGetQuicVlint pkt
  let isApp := frameType &&& 1 != 0
  let (closeType, pkt) ← getVlintIf (!isApp) 0 pkt
  let (reasonLen, pkt) ← packetGetQuicVlint pkt
  if reasonLen > sizeMax then none
  else do
    let (reason, pkt) ← packetGetBytes pkt reasonLen
    some (⟨isApp, closeType, errorCode, reason⟩, pkt)

/-- `ossl_quic_wire_decode_frame_ping`. -/
def decodeFramePing (pkt : Bytes) : Option Bytes := expectFrameHeader pkt 0x01

/-- `ossl_quic_wire_decode_frame_handshake_done`. -/
def decodeFrameHandshakeDone (pkt : Bytes) : Option Bytes := expectFrameHeader pkt 0x1e

/-- `ossl_quic_wire_decode_padding`: the number of zero bytes at the cursor, and the rest. -/
def decodePadding (pkt : Bytes) : ℕ × Bytes :=
  ((pkt.takeWhile (· = 0)).length, pkt.dropWhile (· = 0))

/-! ### Decoders make progress -/

section Leaves

variable {α β : Type} {left : α → Bytes} {left' : β → Bytes} {n : ℕ} {r r' : Option α}

/-- A decoder that succeeds leaves fewer than `n` bytes. -/
def Leaves (left : α → Bytes) (n : ℕ) (r : Option α) : Prop := ∀ a, r = some a → (left a).length < n

theorem leaves_pure {a : α} : Leaves left ((left a).length + 1) (some a) := by
  rintro _ ⟨⟩
  exact Nat.lt_succ_self _

theorem Leaves.ite {c : Prop} [Decidable c] (h : Leaves left n r) (h' : Leaves left n r') :
    Leaves left n (if c then r else r') := by
  split_ifs
  · exact h
  · exact h'

/-- A check that can fail. -/
theorem Leaves.unless {c : Prop} [Decidable c] (h : Leaves left n r) :
    Leaves left n (if c then none else r) :=
  Leaves.ite (fun _ h => by cases h) h

/-- What follows a decoder takes no bytes back. -/
theorem Leaves.bind {k : α → Option β} (h : Leaves left n r)
    (hk : ∀ a, Leaves left' ((left a).length + 1) (k a)) : Leaves left' n (r.bind k) := by
  intro b hb
  obtain ⟨a, ha, hb⟩ := Option.bind_eq_some_iff.mp hb
  exact (Nat.lt_succ_iff.mp (hk a b hb)).trans_lt (h a ha)

theorem Leaves.of_map {f : α → β × Bytes} {b : β} {rest : Bytes} (h : Leaves left n r)
    (hb : r.map f = some (b, rest)) (hf : ∀ a, (f a).2 = left a) : rest.length < n := by
  obtain ⟨a, ha, hb⟩ := Option.map_eq_some_iff.mp hb
  rw [show rest = left a from (congrArg Prod.snd hb).symm.trans (hf a)]
  exact h a ha

end Leaves

variable (pkt : Bytes)

theorem vlint_length : Leaves Prod.snd (pkt.length + 1) (packetGetQuicVlint pkt) :=
  fun _ h => (packetGetQuicVlint_length h).trans (Nat.lt_succ_self _)

theorem expectFrameHeaderMask_length (e m : ℕ) :
    Leaves Prod.snd pkt.length (expectFrameHeaderMask pkt e m) :=
  Leaves.bind (fun _ => packetGetQuicVlint_length) fun ⟨_, _⟩ =>
    .unless leaves_pure

theorem expectFrameHeader_length (e : ℕ) : Leaves id pkt.length (expectFrameHeader pkt e) :=
  Leaves.bind (fun _ => packetGetQuicVlint_length) fun ⟨_, _⟩ =>
    .unless leaves_pure

theorem packetGetBytes_length (k : ℕ) :
    Leaves Prod.snd (pkt.length + 1) (packetGetBytes pkt k) := by
  rintro ⟨d, rest⟩ h
  obtain ⟨-, rfl⟩ := packetGetBytes_eq_some.mp h
  simp only [List.length_append]
  omega

theorem getVlintIf_length (c : Bool) (d : ℕ) :
    Leaves Prod.snd (pkt.length + 1) (getVlintIf c d pkt) :=
  (vlint_length pkt).ite leaves_pure

theorem decodeAckRanges_length (k : ℕ) : ∀ (n i s : ℕ) (pkt : Bytes),
    Leaves Prod.snd (pkt.length + 1) (decodeAckRanges k n i s pkt)
  | 0, _, _, _ => leaves_pure
  | n + 1, _, _, pkt =>
    (vlint_length pkt).bind fun ⟨_, p⟩ => (vlint_length p).bind fun ⟨_, p⟩ =>
      .unless (.unless (.ite
        ((decodeAckRanges_length k n _ _ p).bind fun ⟨_, _⟩ => leaves_pure)
        (decodeAckRanges_length k n _ _ p)))

theorem getEcnCounts_length (c : Bool) : Leaves id (pkt.length + 1) (getEcnCounts c pkt) :=
  (getVlintIf_length pkt c 0).bind fun ⟨_, p⟩ => (getVlintIf_length p c 0).bind fun ⟨_, p⟩ =>
    (getVlintIf_length p c 0).bind fun ⟨_, _⟩ => leaves_pure

theorem decodeFrameAck_length (k : ℕ) : Leaves Prod.snd pkt.length (decodeFrameAck pkt k) :=
  (expectFrameHeaderMask_length pkt _ _).bind fun ⟨_, p⟩ => (vlint_length p).bind fun ⟨_, p⟩ =>
    (vlint_length p).bind fun ⟨_, p⟩ => (vlint_length p).bind fun ⟨_, p⟩ =>
      (vlint_length p).bind fun ⟨_, p⟩ => .unless (.unless
        ((decodeAckRanges_length k _ _ _ p).bind fun ⟨_, p⟩ =>
          (getEcnCounts_length p _).bind fun _ => leaves_pure))

theorem decodeFrameCrypto_length : Leaves Prod.snd pkt.length (decodeFrameCrypto pkt) :=
  (expectFrameHeader_length pkt _).bind fun p => (vlint_length p).bind fun ⟨_, p⟩ =>
    (vlint_length p).bind fun ⟨_, p⟩ => .unless (.unless
      ((packetGetBytes_length p _).bind fun ⟨_, _⟩ => leaves_pure))

theorem decodeFrameNewToken_length : Leaves Prod.snd pkt.length (decodeFrameNewToken pkt) :=
  (expectFrameHeader_length pkt _).bind fun p => (vlint_length p).bind fun ⟨_, p⟩ =>
    .unless (packetGetBytes_length p _)

theorem decodeFrameStream_length : Leaves Prod.snd pkt.length (decodeFrameStream pkt) :=
  (expectFrameHeaderMask_length pkt _ _).bind fun ⟨_, p⟩ => (vlint_length p).bind fun ⟨_, p⟩ =>
    (getVlintIf_length p _ _).bind fun ⟨_, p⟩ => (getVlintIf_length p _ _).bind fun ⟨_, p⟩ =>
      .unless ((packetGetBytes_length p _).bind fun ⟨_, _⟩ => leaves_pure)

theorem packetGet1_length : Leaves Prod.snd (pkt.length + 1) (packetGet1 pkt) := by
  intro _ h
  rcases pkt with _ | ⟨a, pkt⟩
  · cases h
  · cases h
    simp only [List.length_cons]
    omega

theorem decodeFrameNewConnId_length : Leaves Prod.snd pkt.length (decodeFrameNewConnId pkt) :=
  (expectFrameHeader_length pkt _).bind fun p => (vlint_length p).bind fun ⟨_, p⟩ =>
    (vlint_length p).bind fun ⟨_, p⟩ => .unless
      ((packetGet1_length p).bind fun ⟨_, p⟩ => .unless
        ((packetGetBytes_length p _).bind fun ⟨_, p⟩ =>
          (packetGetBytes_length p _).bind fun ⟨_, _⟩ => leaves_pure))

theorem decodeFramePath_length (t : ℕ) : Leaves Prod.snd pkt.length (decodeFramePath t pkt) :=
  (expectFrameHeader_length pkt t).bind fun p _ h => by
    have := packetGetNet_length h
    simp only [id]
    omega

theorem decodeFrameConnClose_length : Leaves Prod.snd pkt.length (decodeFrameConnClose pkt) :=
  (expectFrameHeaderMask_length pkt _ _).bind fun ⟨_, p⟩ => (vlint_length p).bind fun ⟨_, p⟩ =>
    (getVlintIf_length p _ _).bind fun ⟨_, p⟩ => (vlint_length p).bind fun ⟨_, p⟩ =>
      .unless ((packetGetBytes_length p _).bind fun ⟨_, _⟩ => leaves_pure)

end PapQuic.Wire.Frames
