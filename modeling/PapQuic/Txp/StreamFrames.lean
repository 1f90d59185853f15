import PapQuic.Transport.FlowControl
import PapQuic.Transport.SendStream
import PapQuic.Txp.FrameLength
import PapQuic.Wire.FrameCodec

/-! # The STREAM frames of a packet

`txp_generate_stream_frames` of `quic_txp.c` puts the pending ranges of a send stream into a packet
that is being made up, range by range, as long as there is room and credit. It looks one range
ahead, because a frame may go without its length only if nothing follows it.

`generate_spec` says what comes of it: the frames carry the bytes of the stream at their offsets, in
ascending order and out of what is to be transmitted, they fit into the packet, and all but the last
of them have a length. Where no byte of the packet is kept back no assertion fails
(`generate_isSome`); where one is, `generate_fails_of_exact_fit` tells when one does. -/

namespace PapQuic.Txp.StreamFrames

open Lib.Ranges Wire.Packet Wire.Vlint Wire.FrameCodec Transport.IntegerSet Transport.FlowControl
open Transport.SendStream FrameLength

/-- `struct tx_helper`: the room in a packet. -/
structure TxHelper where
  maxPpl : ℕ
  reserve : ℕ
  bytesAppended : ℕ
  reserveAllowed : Bool
  doneImplicit : Bool
  deriving DecidableEq

/-- `tx_helper_get_space_left`. -/
def getSpaceLeft (h : TxHelper) : ℕ :=
  h.maxPpl - (if h.reserveAllowed then 0 else h.reserve) - h.bytesAppended

/-- `OSSL_QUIC_FRAME_STREAM`, without the data. -/
structure Shdr where
  streamId : ℕ
  offset : ℕ
  len : ℕ
  hasExplicitLen : Bool
  isFin : Bool
  deriving DecidableEq

/-- `ossl_quic_wire_get_encoded_frame_len_stream_hdr`. -/
def getEncodedFrameLenStreamHdr (f : Shdr) : ℕ :=
  let b := vlintEncodeLen f.streamId
  let c := vlintEncodeLen f.offset
  let d := vlintEncodeLen f.len
  if b = 0 ∨ (f.offset > 0 ∧ c = 0) ∨ (f.hasExplicitLen ∧ d = 0) then 0
  else 1 + b + (if f.offset > 0 then c else 0) + (if f.hasExplicitLen then d else 0)

/-- `ossl_quic_wire_encode_frame_stream_hdr`, in `maxSize` bytes. -/
def encodeFrameStreamHdr (f : Shdr) (maxSize : ℕ) : Option Bytes :=
  let frameType := 0x08 + (if f.offset ≠ 0 then 4 else 0) + (if f.hasExplicitLen then 2 else 0) +
    (if f.isFin then 1 else 0)
  let hdr := vlintEncode frameType ++ vlintEncode f.streamId ++
    (if f.offset ≠ 0 then vlintEncode f.offset else []) ++
    (if f.hasExplicitLen then vlintEncode f.len else [])
  if f.streamId ≤ vlintMax ∧ f.offset ≤ vlintMax ∧ f.len ≤ vlintMax ∧ hdr.length ≤ maxSize
    then some hdr
  else none

/-- `determine_stream_len`. -/
def determineStreamLen (shdr : Shdr) (spaceLeft : ℕ) : Option (ℕ × ℕ) :=
  let baseHdrLen := getEncodedFrameLenStreamHdr { shdr with len := 0 }
  if baseHdrLen = 0 then none
  else determineLen spaceLeft shdr.len (if shdr.hasExplicitLen then baseHdrLen - 1 else baseHdrLen)

/-- `QUIC_TXPIM_CHUNK`. -/
structure Chunk where
  streamId : ℕ
  start : ℕ
  last : ℕ
  hasFin : Bool
  deriving DecidableEq

/-- `MAX_ALLOC_CHUNKS`: where `ossl_quic_txpim_pkt_append_chunk` fails. -/
def maxAllocChunks : ℕ := 512

/-- What `txp_generate_stream_frames` is called with: the stream and its controllers, the credit
that streams before it took, whether a stream follows, and `force_pad` of the packet. -/
structure Args where
  id : ℕ
  sstream : Sstream
  txfc : Txfc
  conn : Txfc
  connConsumed : ℕ
  nextStream : Bool
  forcePad : Bool

/-- `struct chunk_info`. -/
structure ChunkInfo where
  shdr : StreamFrame
  origLen : ℕ

/-- `fc_limit` of `txp_plan_stream_chunk`. -/
def Args.fcLimit (a : Args) : Option ℕ :=
  (txfcGetCredit a.txfc (some a.conn) a.connConsumed).map (a.txfc.swm + ·)

/-- `txp_plan_stream_chunk`: the chunk if it is valid. The outer `none`: an assertion fails. -/
def planStreamChunk (a : Args) (skip : ℕ) : Option (Option ChunkInfo) :=
  match getStreamFrame a.sstream skip with
  | none => some none
  | some shdr =>
    if ¬ (shdr.len > 0 ∨ shdr.isFin = true) then none
    else a.fcLimit.map fun fcLimit =>
      let clamped := if shdr.len > 0 ∧ shdr.offset + shdr.len > fcLimit then
        { shdr with
          len := if fcLimit ≤ shdr.offset then 0 else fcLimit - shdr.offset, isFin := false }
        else shdr
      if clamped.len = 0 ∧ clamped.isFin = false then none else some ⟨clamped, shdr.len⟩

/-- A frame in the packet: its header and the bytes of its parts of memory. -/
structure Sent where
  shdr : Shdr
  data : Bytes
  deriving DecidableEq

/-- The packet being made up: the frames appended to it, its chunks, and what the caller is told. -/
structure Gen where
  h : TxHelper
  frames : List Sent
  chunks : List Chunk
  packetFull : Bool
  fcNewHwm : ℕ
  deriving DecidableEq

/-- How a round of the loop ends. -/
inductive Round where
  | fatal
  | done (st : Gen)
  /-- On to the next chunk, unless this one was the last of the stream. -/
  | next (st : Gen) (wasFin : Bool)

/-- The chunk that is logged for a frame. -/
def Sent.chunk (s : Sent) : Chunk :=
  ⟨s.shdr.streamId, s.shdr.offset, u64Pred (s.shdr.offset + s.shdr.len), s.shdr.isFin⟩

/-- The packet with one more frame, of `n` bytes: the byte that was kept back is no longer
needed. -/
def Gen.add (st : Gen) (s : Sent) (n : ℕ) : Gen :=
  { h := { st.h with
      bytesAppended := st.h.bytesAppended + n
      reserveAllowed := true
      doneImplicit := !s.shdr.hasExplicitLen }
    frames := st.frames ++ [s]
    chunks := st.chunks ++ [s.chunk]
    packetFull := st.packetFull || !s.shdr.hasExplicitLen
    fcNewHwm := if s.shdr.len > 0 ∧ s.shdr.offset + s.shdr.len > st.fcNewHwm then
      s.shdr.offset + s.shdr.len else st.fcNewHwm }

/-- The frame is committed to: its header is encoded, and the chunk is logged. -/
def appendFrame (a : Args) (st : Gen) (c : ChunkInfo) (len : ℕ) (explicit : Bool) : Round :=
  let shdr : Shdr := ⟨a.id, c.shdr.offset, len, explicit, c.shdr.isFin && !decide (len < c.origLen)⟩
  match encodeFrameStreamHdr shdr (getSpaceLeft st.h) with
  | none => .done { st with packetFull := true }
  | some hdr =>
    let data := (adjustIov len 0 c.shdr.iov).flatten
    if st.chunks.length = maxAllocChunks then .fatal
    else if len < c.origLen then .done (st.add ⟨shdr, data⟩ (hdr.length + data.length))
    else .next (st.add ⟨shdr, data⟩ (hdr.length + data.length)) c.shdr.isFin

/-- A round of the loop, once the chunk is loaded and the one after it as well. -/
def round (a : Args) (st : Gen) (c : ChunkInfo) (following : Bool) : Round :=
  let spaceLeft := getSpaceLeft st.h
  let shdr : Shdr := ⟨a.id, c.shdr.offset, c.shdr.len, false, c.shdr.isFin⟩
  match determineStreamLen shdr spaceLeft with
  | none => .done { st with packetFull := true }
  | some (hdrLenImplicit, payloadLenImplicit) =>
    let canFillPayload := decide (hdrLenImplicit + payloadLenImplicit ≥ spaceLeft)
    let couldHaveFollowingChunk := a.nextStream || following
    if (canFillPayload || !couldHaveFollowingChunk) && !a.forcePad then
      appendFrame a st c payloadLenImplicit false
    else
      match determineStreamLen { shdr with hasExplicitLen := true } spaceLeft with
      | none => .done { st with packetFull := true }
      | some (_, payloadLenExplicit) => appendFrame a st c payloadLenExplicit true

/-- The chunk of a round: none once the end of the stream was sent. -/
def chunkAt (a : Args) (wasFin : Bool) (i : ℕ) : Option (Option ChunkInfo) :=
  if wasFin then some none else planStreamChunk a i

variable {i : ℕ} {c : ChunkInfo}

theorem chunkAt_le {a : Args} {wasFin : Bool} (h : chunkAt a wasFin i = some (some c)) :
    i ≤ a.sstream.newSet.length := by
  rw [chunkAt] at h
  split_ifs at h
  · cases h
  · by_contra hlt
    have hnone : a.sstream.newSet.reverse[i]? = none := by
      rw [List.getElem?_eq_none_iff, List.length_reverse]
      omega
    rw [planStreamChunk, getStreamFrame, hnone] at h
    simp only at h
    rw [if_pos (by omega)] at h
    cases h

theorem generate_decreasing {a : Args} {wasFin : Bool} (h : chunkAt a wasFin i = some (some c)) :
    a.sstream.newSet.length + 1 - (i + 1) < a.sstream.newSet.length + 1 - i := by
  have := chunkAt_le h
  omega

/-- The loop of `txp_generate_stream_frames` from chunk `i` on. `none`: it returns 0. -/
def generateLoop (a : Args) (wasFin : Bool) (i : ℕ) (st : Gen) : Option Gen :=
  match _h : chunkAt a wasFin i with
  | none => none
  | some none => some st
  | some (some c) =>
    if getSpaceLeft st.h < 3 then some { st with packetFull := true }
    else if st.h.doneImplicit then none
    else match planStreamChunk a (i + 1) with
      | none => none
      | some following =>
        match round a st c following.isSome with
        | .fatal => none
        | .done st' => some st'
        | .next st' fin => generateLoop a fin (i + 1) st'
termination_by a.sstream.newSet.length + 1 - i
decreasing_by exact generate_decreasing _h

/-- Out of chunks. -/
theorem generateLoop_of_out {a : Args} {wasFin : Bool} {st : Gen}
    (h : chunkAt a wasFin i = some none) : generateLoop a wasFin i st = some st := by
  rw [generateLoop]
  split
  · rename_i hc
    rw [h] at hc
    cases hc
  · rfl
  · rename_i hc
    rw [h] at hc
    cases hc

/-- A round with a chunk. -/
theorem generateLoop_of_chunk {a : Args} {wasFin : Bool} {st : Gen}
    (h : chunkAt a wasFin i = some (some c)) : generateLoop a wasFin i st =
      if getSpaceLeft st.h < 3 then some { st with packetFull := true }
      else if st.h.doneImplicit then none
      else match planStreamChunk a (i + 1) with
        | none => none
        | some following =>
          match round a st c following.isSome with
          | .fatal => none
          | .done st' => some st'
          | .next st' fin => generateLoop a fin (i + 1) st' := by
  rw [generateLoop]
  split
  · rename_i hc
    rw [h] at hc
    cases hc
  · rename_i hc
    rw [h] at hc
    cases hc
  · rename_i d hc
    rw [h] at hc
    obtain rfl := Option.some.inj (Option.some.inj hc)
    rfl

/-- `txp_generate_stream_frames`. -/
def generateStreamFrames (a : Args) (st : Gen) : Option Gen :=
  match planStreamChunk a 0, planStreamChunk a 1 with
  | none, _ => none
  | some none, _ => some { st with fcNewHwm := a.txfc.swm }
  | some (some _), none => none
  | some (some _), some _ => generateLoop a false 0 { st with fcNewHwm := a.txfc.swm }

/-! ### Headers -/

/-- The frame as it stands on the wire. -/
def Sent.frame (s : Sent) : Frame :=
  .stream s.shdr.streamId (if s.shdr.offset = 0 then none else some s.shdr.offset)
    s.shdr.hasExplicitLen s.shdr.isFin s.data

theorem length_vlintEncode {v : ℕ} (h : v ≤ vlintMax) :
    (vlintEncode v).length = vlintEncodeLen v := by
  unfold vlintEncode vlintEncodeN vlintEncodeLen
  split_ifs <;> first | rfl | omega

section
variable {f : Shdr} (hid : f.streamId ≤ vlintMax) (hoff : f.offset ≤ vlintMax)
    (hlen : f.len ≤ vlintMax)
include hid hoff hlen

theorem getEncodedFrameLenStreamHdr_eq :
    getEncodedFrameLenStreamHdr f = 1 + vlintEncodeLen f.streamId +
      (if f.offset > 0 then vlintEncodeLen f.offset else 0) +
      (if f.hasExplicitLen then vlintEncodeLen f.len else 0) := by
  have hb := vlintEncodeLen_pos hid
  have hc := vlintEncodeLen_pos hoff
  have hd := vlintEncodeLen_pos hlen
  unfold getEncodedFrameLenStreamHdr
  rw [if_neg]
  rintro (h | h | h) <;> omega

/-- A header is encoded if its length fits, and with the data it is the frame. -/
theorem encodeFrameStreamHdr_eq {maxSize : ℕ} (hsize : getEncodedFrameLenStreamHdr f ≤ maxSize) :
    ∃ hdr, encodeFrameStreamHdr f maxSize = some hdr ∧ hdr.length = getEncodedFrameLenStreamHdr f ∧
      ∀ data : Bytes, data.length = f.len → hdr ++ data = (Sent.mk f data).frame.encode := by
  rw [getEncodedFrameLenStreamHdr_eq hid hoff hlen] at hsize ⊢
  have htype : ∀ t ≤ 15, (vlintEncode t).length = 1 := fun t ht => by
    rw [length_vlintEncode (by unfold vlintMax; omega)]
    exact if_pos (by omega)
  generalize hdr_eq : vlintEncode (0x08 + (if f.offset ≠ 0 then 4 else 0) +
    (if f.hasExplicitLen then 2 else 0) + (if f.isFin then 1 else 0)) ++ vlintEncode f.streamId ++
    (if f.offset ≠ 0 then vlintEncode f.offset else []) ++
    (if f.hasExplicitLen then vlintEncode f.len else []) = hdr
  have hlength : hdr.length = 1 + vlintEncodeLen f.streamId +
      (if f.offset > 0 then vlintEncodeLen f.offset else 0) +
      (if f.hasExplicitLen then vlintEncodeLen f.len else 0) := by
    rw [← hdr_eq]
    simp only [List.length_append, length_vlintEncode hid]
    rw [htype _ (by split_ifs <;> omega)]
    congr 1
    · congr 1
      by_cases h0 : f.offset = 0
      · simp [h0]
      · rw [if_pos h0, if_pos (by omega), length_vlintEncode hoff]
    · split_ifs
      · exact length_vlintEncode hlen
      · rfl
  refine ⟨hdr, ?_, hlength, fun data hdata => ?_⟩
  · simp only [encodeFrameStreamHdr, hdr_eq]
    exact if_pos ⟨hid, hoff, hlen, by omega⟩
  · rw [← hdr_eq]
    by_cases h0 : f.offset = 0 <;> rcases hex : f.hasExplicitLen with _ | _ <;>
      simp [Sent.frame, Frame.encode, Frame.frameType, Frame.fields, Frame.withLen, h0, hex, hdata]

end

/-! ### Chunks -/

/-- The frame is a piece of a pending range, from its beginning, within the limit. -/
structure FrameOf (a : Args) (limit : ℕ) (f : StreamFrame) (s : Sent) : Prop where
  id : s.shdr.streamId = a.id
  offset : s.shdr.offset = f.offset
  len : s.shdr.len ≤ f.len
  data : s.data = f.iov.flatten.take s.shdr.len
  fin : s.shdr.isFin = true → f.isFin = true ∧ s.shdr.len = f.len
  nonempty : s.shdr.len = 0 → s.shdr.isFin = true
  within : 0 < s.shdr.len → s.shdr.offset + s.shdr.len ≤ limit

/-- What a planned chunk is. -/
structure PlanOf (limit : ℕ) (f : StreamFrame) (c : ChunkInfo) : Prop where
  offset : c.shdr.offset = f.offset
  len : c.shdr.len ≤ f.len
  iov : c.shdr.iov = f.iov
  orig : c.origLen = f.len
  fin : c.shdr.isFin = true → f.isFin = true ∧ c.shdr.len = f.len
  nonempty : c.shdr.len = 0 → c.shdr.isFin = true
  within : 0 < c.shdr.len → c.shdr.offset + c.shdr.len ≤ limit

section
variable {a : Args} {data : Bytes} {limit : ℕ}

theorem planStreamChunk_spec (hinv : Inv a.sstream data) (hlimit : a.fcLimit = some limit) (i : ℕ) :
    ∃ r, planStreamChunk a i = some r ∧ ∀ c, r = some c →
      ∃ f, getStreamFrame a.sstream i = some f ∧ PlanOf limit f c := by
  unfold planStreamChunk
  rcases hf : getStreamFrame a.sstream i with _ | f
  · exact ⟨none, rfl, by simp⟩
  · have hempty := (hinv.frame_eq hf).2.2.2.2
    simp only [hlimit, Option.map_some]
    rw [if_neg (not_not.mpr ((Nat.eq_zero_or_pos f.len).elim (fun h => Or.inr (hempty h)) Or.inl))]
    refine ⟨_, rfl, fun c hc => ⟨f, rfl, ?_⟩⟩
    split_ifs at hc with hclamp hle hzero hzero hzero
    · simp at hzero
    · rw [← Option.some.inj hc]
      simp only [and_true] at hzero
      exact ⟨rfl, by simp only; omega, rfl, rfl, by simp, fun h => absurd h hzero, fun _ => by
        simp only; omega⟩
    · rw [← Option.some.inj hc]
      exact ⟨rfl, Nat.le_refl _, rfl, rfl, fun h => ⟨h, rfl⟩, fun h => hempty h, fun h => by
        simp only at h ⊢
        omega⟩

/-- What is pending is given out in ascending order. -/
theorem getStreamFrame_ascending {qss : Sstream} (hinv : Inv qss data) {i j : ℕ} (hij : i < j)
    {f g : StreamFrame} (hf : getStreamFrame qss i = some f) (hg : getStreamFrame qss j = some g) :
    f.offset + f.len ≤ g.offset := by
  obtain ⟨-, hfle, -⟩ := hinv.frame_eq hf
  have hhead := hinv.holds.head
  rcases hj : qss.newSet.reverse[j]? with _ | rj
  · -- only the end of the stream follows
    rw [getStreamFrame, hj] at hg
    simp only at hg
    split_ifs at hg
    rw [← Option.some.inj hg]
    simp only
    omega
  · rcases hi : qss.newSet.reverse[i]? with _ | ri
    · rw [List.getElem?_eq_none_iff] at hi
      have := (List.getElem?_eq_some_iff.mp hj).1
      omega
    · obtain ⟨iov, hfi, -⟩ := hinv.getStreamFrame_spec hi
      obtain ⟨iov', hgj, -⟩ := hinv.getStreamFrame_spec hj
      rw [hfi] at hf
      rw [hgj] at hg
      rw [← Option.some.inj hf, ← Option.some.inj hg]
      have hproper := hinv.new_desc.proper ri (mem_reverse_getElem? hi)
      have horder := List.pairwise_iff_getElem.mp (List.pairwise_reverse.mpr hinv.new_desc.order)
      obtain ⟨hilt, hri⟩ := List.getElem?_eq_some_iff.mp hi
      obtain ⟨hjlt, hrj⟩ := List.getElem?_eq_some_iff.mp hj
      have := horder i j hilt hjlt hij
      rw [hri, hrj] at this
      simp only
      omega

/-! ### Rounds -/

/-- What is written fits, with the byte that is kept back. -/
def Room (h : TxHelper) : Prop :=
  h.bytesAppended + (if h.reserveAllowed then 0 else h.reserve) ≤ h.maxPpl

/-- What the loop relies on. -/
structure Setup (a : Args) (data : Bytes) (limit : ℕ) : Prop where
  inv : Inv a.sstream data
  credit : a.fcLimit = some limit
  id : a.id ≤ vlintMax
  length : data.length ≤ vlintMax

theorem appendFrame_spec (hs : Setup a data limit) {f : StreamFrame}
    (hf : getStreamFrame a.sstream i = some f) (hc : PlanOf limit f c) (st : Gen) {n : ℕ}
    (hn : n ≤ c.shdr.len) (hzero : n = 0 → c.shdr.len = 0) (explicit : Bool)
    (hfits : getEncodedFrameLenStreamHdr ⟨a.id, f.offset, n, explicit, false⟩ + n ≤
      getSpaceLeft st.h) :
    (appendFrame a st c n explicit = .fatal ∧ st.chunks.length = maxAllocChunks) ∨
      ∃ s, FrameOf a limit f s ∧ s.shdr.hasExplicitLen = explicit ∧ s.shdr.len = n ∧
        s.frame.encode.length =
          getEncodedFrameLenStreamHdr ⟨a.id, f.offset, n, explicit, false⟩ + n ∧
        appendFrame a st c n explicit =
          if n < f.len then .done (st.add s s.frame.encode.length)
          else .next (st.add s s.frame.encode.length) c.shdr.isFin := by
  obtain ⟨-, hend, -⟩ := hs.inv.frame_eq hf
  have hlength := hs.length
  have hflat : f.iov.flatten.length = f.len := by
    rw [(hs.inv.frame_eq hf).1, List.length_take, List.length_drop]
    omega
  have hcn := hc.len
  generalize hshdr : (⟨a.id, f.offset, n, explicit, c.shdr.isFin && !decide (n < f.len)⟩ :
    Shdr) = shdr
  have hsize : getEncodedFrameLenStreamHdr shdr =
      getEncodedFrameLenStreamHdr ⟨a.id, f.offset, n, explicit, false⟩ := by
    rw [← hshdr]
    rfl
  obtain ⟨hdr, hencode, hhdr, hframe⟩ := @encodeFrameStreamHdr_eq shdr
    (by rw [← hshdr]; exact hs.id) (by rw [← hshdr]; simp only; omega)
    (by rw [← hshdr]; simp only; omega) (getSpaceLeft st.h) (by omega)
  have hdata : (adjustIov n 0 c.shdr.iov).flatten = f.iov.flatten.take n := by
    rw [flatten_adjustIov, hc.iov, Nat.sub_zero]
  have hdlen : (f.iov.flatten.take n).length = n := by
    rw [List.length_take, hflat]
    omega
  have henc := hframe (f.iov.flatten.take n) (by rw [hdlen, ← hshdr])
  have hlen : (Sent.mk shdr (f.iov.flatten.take n)).frame.encode.length =
      getEncodedFrameLenStreamHdr ⟨a.id, f.offset, n, explicit, false⟩ + n := by
    rw [← henc, List.length_append, hhdr, hsize, hdlen]
  unfold appendFrame
  simp only [hc.offset, hc.orig, hshdr, hencode, hdata, hhdr, hsize, hdlen]
  by_cases hfull : st.chunks.length = maxAllocChunks
  · exact Or.inl ⟨if_pos hfull, hfull⟩
  · refine Or.inr ⟨⟨shdr, f.iov.flatten.take n⟩, ?_, by rw [← hshdr], by rw [← hshdr], hlen, ?_⟩
    · subst hshdr
      refine ⟨rfl, rfl, hn.trans hcn, rfl, fun hfin => ?_, fun h0 => ?_, fun hpos => ?_⟩
      · simp only [Bool.and_eq_true, Bool.not_eq_true', decide_eq_false_iff_not] at hfin
        exact ⟨(hc.fin hfin.1).1, by simp only; omega⟩
      · simp only at h0
        have hfin := hc.nonempty (hzero h0)
        have := (hc.fin hfin).2
        simp only [hfin, Bool.true_and, Bool.not_eq_true', decide_eq_false_iff_not]
        omega
      · simp only at hpos ⊢
        have := hc.within (by omega)
        have := hc.offset
        omega
    · rw [if_neg hfull, hlen]

theorem determineStreamLen_spec (hs : Setup a data limit) {f : StreamFrame}
    (hoff : c.shdr.offset = f.offset) (hle : f.offset + c.shdr.len ≤ data.length)
    {explicit fin : Bool} {spaceLeft hdrLen n : ℕ}
    (h : determineStreamLen ⟨a.id, c.shdr.offset, c.shdr.len, explicit, fin⟩ spaceLeft =
      some (hdrLen, n)) :
    n ≤ c.shdr.len ∧ (n = 0 → c.shdr.len = 0) ∧ hdrLen + n ≤ spaceLeft ∧
      getEncodedFrameLenStreamHdr ⟨a.id, f.offset, n, explicit, false⟩ +
        (if explicit then 0 else vlintEncodeLen n) = hdrLen := by
  have hlength := hs.length
  have hmax : vlintMax = 2 ^ 62 - 1 := rfl
  have hoffset : f.offset ≤ vlintMax := by omega
  have hbase := getEncodedFrameLenStreamHdr_eq (f := ⟨a.id, f.offset, 0, explicit, fin⟩)
    hs.id hoffset (Nat.zero_le _)
  simp only [determineStreamLen, hoff] at h
  rw [if_neg (by rw [hbase]; omega)] at h
  obtain ⟨hn, hzero, hhdr, hfits, -⟩ := (determineLen_spec _ _ _ (by omega)).1 _ _ h
  refine ⟨hn, hzero, hfits, ?_⟩
  rw [hhdr, hbase, getEncodedFrameLenStreamHdr_eq hs.id hoffset (by simp only; omega)]
  have hone : vlintEncodeLen 0 = 1 := rfl
  cases explicit with
  | false => simp
  | true =>
    simp only [if_true, hone]
    omega

/-- **A round** adds one frame of the chunk, unless nothing fits. A frame without a length either
fills the room or is the last one. -/
theorem round_spec (hs : Setup a data limit) {f : StreamFrame}
    (hf : getStreamFrame a.sstream i = some f) (hc : PlanOf limit f c) (st : Gen)
    (following : Bool) :
    round a st c following = .done { st with packetFull := true } ∨
      (round a st c following = .fatal ∧ st.chunks.length = maxAllocChunks) ∨
      ∃ s, FrameOf a limit f s ∧ s.frame.encode.length ≤ getSpaceLeft st.h ∧
        s.shdr.len ≤ s.frame.encode.length ∧
        (round a st c following = .done (st.add s s.frame.encode.length) ∨
          round a st c following = .next (st.add s s.frame.encode.length) c.shdr.isFin ∧
          (s.shdr.hasExplicitLen = false → following = false ∨
            s.frame.encode.length + vlintEncodeLen s.shdr.len = getSpaceLeft st.h)) := by
  obtain ⟨-, hend, -⟩ := hs.inv.frame_eq hf
  have hcn := hc.len
  unfold round
  simp only
  rcases himp : determineStreamLen ⟨a.id, c.shdr.offset, c.shdr.len, false, c.shdr.isFin⟩
    (getSpaceLeft st.h) with _ | ⟨hdrLen, n⟩
  · exact Or.inl rfl
  · obtain ⟨hn, hzero, hfits, hbase⟩ := determineStreamLen_spec hs hc.offset (by omega) himp
    simp only [Bool.false_eq_true, if_false] at hbase
    simp only
    split_ifs with hchoice
    · rcases appendFrame_spec hs hf hc st hn hzero false (by omega)
        with hfatal | ⟨s, hs, hex, hlen, henc, heq⟩
      · exact Or.inr (Or.inl hfatal)
      · refine Or.inr (Or.inr ⟨s, hs, by omega, by omega, ?_⟩)
        rw [heq]
        split_ifs
        · exact Or.inl rfl
        · refine Or.inr ⟨rfl, fun _ => ?_⟩
          simp only [Bool.and_eq_true, Bool.or_eq_true, decide_eq_true_eq, Bool.not_eq_true',
            Bool.or_eq_false_iff] at hchoice
          rcases hchoice.1 with hfill | hnone
          · rw [hlen]
            exact Or.inr (by omega)
          · exact Or.inl hnone.2
    · rcases hexp : determineStreamLen ⟨a.id, c.shdr.offset, c.shdr.len, true, c.shdr.isFin⟩
        (getSpaceLeft st.h) with _ | ⟨hdrLen', n'⟩
      · exact Or.inl rfl
      · obtain ⟨hn, hzero, hfits, hbase⟩ := determineStreamLen_spec hs hc.offset (by omega) hexp
        simp only [if_true] at hbase
        rcases appendFrame_spec hs hf hc st hn hzero true (by omega) with
          hfatal | ⟨s, hs, hex, hlen, henc, heq⟩
        · exact Or.inr (Or.inl hfatal)
        · refine Or.inr (Or.inr ⟨s, hs, by omega, by omega, ?_⟩)
          simp only [heq]
          split_ifs
          · exact Or.inl rfl
          · exact Or.inr ⟨rfl, fun hno => by rw [hex] at hno; cases hno⟩

/-! ### The loop -/

/-- What the loop did from chunk `i` on: it appended these frames. -/
structure Appended (a : Args) (limit i : ℕ) (st st' : Gen) (frames : List Sent) : Prop where
  frames_eq : st'.frames = st.frames ++ frames
  chunks_eq : st'.chunks = st.chunks ++ frames.map Sent.chunk
  isFrame : ∀ s ∈ frames, ∃ j f, i ≤ j ∧ getStreamFrame a.sstream j = some f ∧ FrameOf a limit f s
  ascending : frames.Pairwise fun s t => s.shdr.offset + s.shdr.len ≤ t.shdr.offset
  explicit : frames.Pairwise fun s _ => s.shdr.hasExplicitLen = true
  bytes : st'.h.bytesAppended = st.h.bytesAppended + (encodeAll (frames.map Sent.frame)).length
  room : st'.h.bytesAppended ≤ st'.h.maxPpl
  hwm : ∀ s ∈ frames, 0 < s.shdr.len → s.shdr.offset + s.shdr.len ≤ st'.fcNewHwm
  hwm_ge : st.fcNewHwm ≤ st'.fcNewHwm
  hwm_le : st'.fcNewHwm ≤ max st.fcNewHwm limit
  hwm_from : st'.fcNewHwm = st.fcNewHwm ∨ ∃ s ∈ frames, s.shdr.offset + s.shdr.len = st'.fcNewHwm
  count : frames.length ≤ a.sstream.newSet.length + 1 - i

theorem Room.le {h : TxHelper} (hr : Room h) : h.bytesAppended ≤ h.maxPpl :=
  (Nat.le_add_right _ _).trans hr

theorem Room.add {st : Gen} (hr : Room st.h) (s : Sent) {n : ℕ} (hn : n ≤ getSpaceLeft st.h) :
    Room (st.add s n).h := by
  unfold Room getSpaceLeft at *
  simp only [Gen.add, if_true]
  omega

theorem appended_nil (st : Gen) (hr : Room st.h) (i : ℕ) (full : Bool) :
    Appended a limit i st { st with packetFull := full } [] :=
  ⟨by simp, by simp, by simp, .nil, .nil, by simp [encodeAll], hr.le, by simp, Nat.le_refl _,
    Nat.le_max_left _ _, Or.inl rfl, Nat.zero_le _⟩

/-- One frame, and what the loop does from the next chunk on. -/
theorem Appended.cons (hinv : Inv a.sstream data) (hi : i ≤ a.sstream.newSet.length)
    {f : StreamFrame} (hf : getStreamFrame a.sstream i = some f) {s : Sent}
    (hs : FrameOf a limit f s) {st st' : Gen} {frames : List Sent}
    (h : Appended a limit (i + 1) (st.add s s.frame.encode.length) st' frames)
    (hlast : s.shdr.hasExplicitLen = false → frames = []) :
    Appended a limit i st st' (s :: frames) where
  frames_eq := by rw [h.frames_eq]; simp [Gen.add]
  chunks_eq := by rw [h.chunks_eq]; simp [Gen.add]
  isFrame t ht := by
    rcases List.mem_cons.mp ht with rfl | ht
    · exact ⟨i, f, Nat.le_refl _, hf, hs⟩
    · obtain ⟨j, g, hj, hg, hgt⟩ := h.isFrame t ht
      exact ⟨j, g, by omega, hg, hgt⟩
  ascending := by
    refine List.pairwise_cons.mpr ⟨fun t ht => ?_, h.ascending⟩
    obtain ⟨j, g, hj, hg, hgt⟩ := h.isFrame t ht
    have := getStreamFrame_ascending hinv (by omega : i < j) hf hg
    have := hs.offset
    have := hs.len
    have := hgt.offset
    omega
  explicit := by
    refine List.pairwise_cons.mpr ⟨fun t ht => ?_, h.explicit⟩
    rcases hex : s.shdr.hasExplicitLen with _ | _
    · rw [hlast hex] at ht
      cases ht
    · rfl
  bytes := by
    rw [h.bytes]
    simp only [Gen.add, List.map_cons, encodeAll, List.flatMap_cons, List.length_append]
    omega
  room := h.room
  hwm t ht hpos := by
    rcases List.mem_cons.mp ht with rfl | ht
    · refine le_trans ?_ h.hwm_ge
      simp only [Gen.add]
      split_ifs <;> omega
    · exact h.hwm t ht hpos
  hwm_ge := by
    refine le_trans ?_ h.hwm_ge
    simp only [Gen.add]
    split_ifs <;> omega
  hwm_le := by
    refine h.hwm_le.trans ?_
    simp only [Gen.add]
    split_ifs with hpos
    · have := hs.within hpos.1
      omega
    · exact Nat.le_refl _
  hwm_from := by
    rcases h.hwm_from with heq | ⟨t, ht, heq⟩
    · rw [heq]
      simp only [Gen.add]
      split_ifs
      · exact Or.inr ⟨s, List.mem_cons_self, rfl⟩
      · exact Or.inl rfl
    · exact Or.inr ⟨t, List.mem_cons_of_mem s ht, heq⟩
  count := by
    have := h.count
    rw [List.length_cons]
    omega

/-- Nothing is kept back, and lengths are encoded in two bytes. -/
def Calm (h : TxHelper) : Prop := (h.reserveAllowed = true ∨ h.reserve = 0) ∧ h.maxPpl < 16384

theorem generateLoop_spec (hs : Setup a data limit) (wasFin : Bool) (i : ℕ) (st : Gen)
    (hroom : Room st.h) :
    (∀ st', generateLoop a wasFin i st = some st' → ∃ frames, Appended a limit i st st' frames ∧
      (st.h.doneImplicit = true → frames = [])) ∧
    (Calm st.h → (st.h.doneImplicit = true → getSpaceLeft st.h < 3 ∨
      chunkAt a wasFin i = some none) →
      st.chunks.length + (a.sstream.newSet.length + 1 - i) ≤ maxAllocChunks →
      ∃ st', generateLoop a wasFin i st = some st') := by
  have hchunk : ∃ r, chunkAt a wasFin i = some r ∧ ∀ c, r = some c →
      ∃ f, getStreamFrame a.sstream i = some f ∧ PlanOf limit f c := by
    unfold chunkAt
    split_ifs
    · exact ⟨none, rfl, by simp⟩
    · exact planStreamChunk_spec hs.inv hs.credit i
  obtain ⟨r, hc, hplan⟩ := hchunk
  rcases r with _ | c
  · rw [generateLoop_of_out hc]
    exact ⟨fun st' h => ⟨[], Option.some.inj h ▸ appended_nil st hroom i _, fun _ => rfl⟩,
      fun _ _ _ => ⟨st, rfl⟩⟩
  · rw [generateLoop_of_chunk hc]
    obtain ⟨f, hf, hof⟩ := hplan c rfl
    have hle := chunkAt_le hc
    split_ifs with hsmall himp
    · exact ⟨fun st' h => ⟨[], Option.some.inj h ▸ appended_nil st hroom i true, fun _ => rfl⟩,
        fun _ _ _ => ⟨_, rfl⟩⟩
    · refine ⟨by simp, fun _ hready _ => ?_⟩
      rcases hready himp with hlt | hnone
      · exact absurd hlt hsmall
      · rw [hc] at hnone
        cases hnone
    · obtain ⟨next, hnext, -⟩ := planStreamChunk_spec hs.inv hs.credit (i + 1)
      have hrounds := round_spec hs hf hof st next.isSome
      simp only [hnext]
      rcases hrounds with hfull | ⟨hfatal, hcount⟩ | ⟨s, hsent, hfits, hlen, hdone | ⟨hgo, hends⟩⟩
      · rw [hfull]
        exact ⟨fun st' h => ⟨[], Option.some.inj h ▸ appended_nil st hroom i true, fun _ => rfl⟩,
          fun _ _ _ => ⟨_, rfl⟩⟩
      · rw [hfatal]
        exact ⟨by simp, fun _ _ hchunks => by omega⟩
      · rw [hdone]
        refine ⟨fun st' h => ⟨[s], ?_, fun h => absurd h himp⟩, fun _ _ _ => ⟨_, rfl⟩⟩
        rw [← Option.some.inj h]
        exact (appended_nil _ (hroom.add s hfits) (i + 1) _).cons hs.inv hle hf hsent fun _ => rfl
      · rw [hgo]
        obtain ⟨hspec, hsome⟩ := generateLoop_spec hs c.shdr.isFin (i + 1)
          (st.add s s.frame.encode.length) (hroom.add s hfits)
        refine ⟨fun st' h => ?_, fun hcalm _ hchunks => ?_⟩
        · obtain ⟨frames, happ, hlast⟩ := hspec st' h
          exact ⟨s :: frames, happ.cons hs.inv hle hf hsent fun hex =>
            hlast (by simp [Gen.add, hex]), fun h => absurd h himp⟩
        · refine hsome ⟨Or.inl rfl, hcalm.2⟩ (fun hno => ?_) ?_
          · rcases hends (by simpa [Gen.add] using hno) with hnone | hfill
            · refine Or.inr ?_
              rw [Option.isSome_eq_false_iff, Option.isNone_iff_eq_none] at hnone
              rw [chunkAt]
              split_ifs
              · rfl
              · rw [hnext, hnone]
            · -- what is left is what the length would have taken
              have hspace : getSpaceLeft st.h = st.h.maxPpl - st.h.bytesAppended := by
                unfold getSpaceLeft
                rcases hcalm.1 with hres | hres
                · simp [hres]
                · simp [hres]
              have hmax := hcalm.2
              have := vlintEncodeLen_le_two (by omega : s.shdr.len < 16384)
              refine Or.inl ?_
              simp only [getSpaceLeft, Gen.add, if_true]
              omega
          · simp only [Gen.add, List.length_append, List.length_singleton]
            omega
termination_by a.sstream.newSet.length + 1 - i
decreasing_by exact generate_decreasing hc

end

/-- The frame carries a piece of what is to be transmitted, or the end of the stream. -/
structure Sent.Carries (s : Sent) (qss : Sstream) (data : Bytes) : Prop where
  bytes : s.data = (data.drop s.shdr.offset).take s.shdr.len
  within : s.shdr.offset + s.shdr.len ≤ data.length
  pending : ∀ n, s.shdr.offset ≤ n → n < s.shdr.offset + s.shdr.len → n ∈ cover qss.newSet
  fin : s.shdr.isFin = true → qss.haveFinalSize = true ∧ s.shdr.offset + s.shdr.len = data.length
  nonempty : s.shdr.len = 0 → s.shdr.isFin = true

theorem FrameOf.carries {a : Args} {data : Bytes} {limit j : ℕ} {f : StreamFrame} {s : Sent}
    (hinv : Inv a.sstream data) (hf : getStreamFrame a.sstream j = some f)
    (h : FrameOf a limit f s) : s.Carries a.sstream data := by
  obtain ⟨hflat, hend, hpending, hfin, -⟩ := hinv.frame_eq hf
  have hoff := h.offset
  have hlen := h.len
  refine ⟨?_, by omega, fun n h1 h2 => hpending n (by omega) (by omega), fun hs => ?_, h.nonempty⟩
  · rw [h.data, hflat, List.take_take, Nat.min_eq_left hlen, hoff]
  · obtain ⟨hffin, heq⟩ := h.fin hs
    rw [hoff, heq]
    exact hfin hffin

/-- **The frames of a packet**: they carry pieces of what is to be transmitted, in ascending order,
within the credit of the stream and the connection; as a payload they decode one by one, and they
fit into the packet. The chunks logged are theirs. -/
theorem generate_spec (a : Args) (data : Bytes) (limit : ℕ) (hs : Setup a data limit) (st st' : Gen)
    (hroom : Room st.h) (hgen : generateStreamFrames a st = some st') :
    ∃ frames, st'.frames = st.frames ++ frames ∧ st'.chunks = st.chunks ++ frames.map Sent.chunk ∧
      (∀ s ∈ frames, s.shdr.streamId = a.id ∧ s.Carries a.sstream data ∧
        (0 < s.shdr.len → s.shdr.offset + s.shdr.len ≤ min st'.fcNewHwm limit)) ∧
      frames.Pairwise (fun s t => s.shdr.offset + s.shdr.len ≤ t.shdr.offset) ∧
      Payload (frames.map Sent.frame) ∧
      st'.h.bytesAppended = st.h.bytesAppended + (encodeAll (frames.map Sent.frame)).length ∧
      st'.h.bytesAppended ≤ st'.h.maxPpl ∧
      a.txfc.swm ≤ st'.fcNewHwm ∧ st'.fcNewHwm ≤ max a.txfc.swm limit ∧
      (st'.fcNewHwm = a.txfc.swm ∨ ∃ s ∈ frames, s.shdr.offset + s.shdr.len = st'.fcNewHwm) ∧
      frames.length ≤ a.sstream.newSet.length + 1 := by
  have happ : ∃ frames, Appended a limit 0 { st with fcNewHwm := a.txfc.swm } st' frames := by
    unfold generateStreamFrames at hgen
    split at hgen
    · cases hgen
    · rw [← Option.some.inj hgen]
      exact ⟨[], appended_nil { st with fcNewHwm := a.txfc.swm } hroom 0 _⟩
    · cases hgen
    · obtain ⟨frames, h, -⟩ :=
        (generateLoop_spec hs false 0 { st with fcNewHwm := a.txfc.swm } hroom).1 st' hgen
      exact ⟨frames, h⟩
  obtain ⟨frames, h⟩ := happ
  have hall : ∀ s ∈ frames, s.shdr.streamId = a.id ∧ s.Carries a.sstream data ∧
      (0 < s.shdr.len → s.shdr.offset + s.shdr.len ≤ min st'.fcNewHwm limit) := by
    intro s hsmem
    obtain ⟨j, f, -, hf, hof⟩ := h.isFrame s hsmem
    exact ⟨hof.id, hof.carries hs.inv hf, fun hpos => le_min (h.hwm s hsmem hpos) (hof.within hpos)⟩
  refine ⟨frames, h.frames_eq, h.chunks_eq, hall, h.ascending, ?_, h.bytes, h.room,
    h.hwm_ge, h.hwm_le, h.hwm_from, h.count⟩
  have hlength := hs.length
  have hid := hs.id
  have hexplicit := h.explicit
  clear h
  induction frames with
  | nil => trivial
  | cons s frames ih =>
    obtain ⟨hex, hrest⟩ := List.pairwise_cons.mp hexplicit
    refine ⟨?_, ?_, ih (fun t ht => hall t (List.mem_cons_of_mem _ ht)) hrest⟩
    · obtain ⟨hsid, hcarries, -⟩ := hall s List.mem_cons_self
      have hwithin := hcarries.within
      refine ⟨by rw [hsid]; exact hid, ?_⟩
      have hdlen : s.data.length ≤ s.shdr.len := by
        rw [hcarries.bytes]
        exact List.length_take_le _ _
      split_ifs with h0
      · simp only [Option.getD_none]
        omega
      · simp only [Option.getD_some]
        omega
    · rcases hexp : s.shdr.hasExplicitLen with _ | _
      · rcases frames with _ | ⟨t, frames⟩
        · simp only [Sent.frame, hexp]
          rfl
        · have := hex t List.mem_cons_self
          rw [hexp] at this
          cases this
      · simp only [Sent.frame, hexp]
        trivial

/-- Where nothing is kept back in the packet, there is always an outcome: no assertion fails. -/
theorem generate_isSome (a : Args) (data : Bytes) (limit : ℕ) (hs : Setup a data limit) (st : Gen)
    (hroom : Room st.h) (hcalm : Calm st.h) (himp : st.h.doneImplicit = false)
    (hchunks : st.chunks.length + a.sstream.newSet.length < maxAllocChunks) :
    ∃ st', generateStreamFrames a st = some st' := by
  obtain ⟨r₀, h₀, -⟩ := planStreamChunk_spec hs.inv hs.credit 0
  obtain ⟨r₁, h₁, -⟩ := planStreamChunk_spec hs.inv hs.credit 1
  unfold generateStreamFrames
  rw [h₀, h₁]
  rcases r₀ with _ | c
  · exact ⟨_, rfl⟩
  · refine (generateLoop_spec hs false 0 { st with fcNewHwm := a.txfc.swm } hroom).2 hcalm
      (fun h => ?_) (by simp only; omega)
    rw [himp] at h
    cases h

/-- A stream of 66 bytes of which the last but one is in flight. -/
def gapArgs : Args where
  id := 4
  sstream := ⟨⟨List.replicate 66 0, 66, 0⟩, [⟨65, 65⟩, ⟨0, 63⟩], [], false, false, false, false⟩
  txfc := ⟨0, 100, false⟩
  conn := ⟨0, 100, false⟩
  connConsumed := 0
  nextStream := false
  forcePad := false

theorem gapArgs_setup : Setup gapArgs (List.replicate 66 0) 100 where
  inv :=
    { holds := ⟨rfl, by decide, by decide, by decide, fun n _ h => by
        have hmod : n % gapArgs.sstream.ringBuf.alloc = n := Nat.mod_eq_of_lt h
        rw [hmod]
        rfl⟩
      new_desc := by
        show Descending 1 [⟨65, 65⟩, ⟨0, 63⟩]
        simp only [descending_cons, descending_nil, mem_cover, List.mem_singleton, exists_eq_left]
        simp
        omega
      acked_desc := descending_nil 1
      new_lt := fun n hn => by
        change n ∈ cover [⟨65, 65⟩, ⟨0, 63⟩] at hn
        simp only [mem_cover, List.mem_cons, List.not_mem_nil, or_false, exists_eq_or_imp,
          exists_eq_left, List.length_replicate] at hn ⊢
        omega
      acked_lt := fun n hn => absurd hn (by simp [gapArgs])
      disjoint := fun n _ => by simp [gapArgs]
      culled := fun n hn => absurd hn (Nat.not_lt_zero n)
      sent_fin := fun h => absurd h (by decide)
      acked_fin := fun h => absurd h (by decide) }
  credit := rfl
  id := by decide
  length := by decide

/-! ### A byte that is kept back -/

section
variable {a : Args} {data : Bytes} {limit : ℕ}

/-- A range that the credit covers is planned as it is. -/
theorem planStreamChunk_of_le (hcredit : a.fcLimit = some limit) {f : StreamFrame}
    (hf : getStreamFrame a.sstream i = some f) (hpos : 0 < f.len) (hle : f.offset + f.len ≤ limit) :
    planStreamChunk a i = some (some ⟨f, f.len⟩) := by
  have hclamp : ¬ (f.len > 0 ∧ f.offset + f.len > limit) := by omega
  rw [planStreamChunk, hf]
  simp only [hcredit, Option.map_some, if_neg hclamp]
  rw [if_neg (by simp [hpos]), if_neg (by omega)]

theorem planStreamChunk_isSome (hcredit : a.fcLimit = some limit) {g : StreamFrame}
    (hg : getStreamFrame a.sstream i = some g) (hpos : 0 < g.len) (hlt : g.offset < limit) :
    ∃ d, planStreamChunk a i = some (some d) := by
  by_cases hle : g.offset + g.len ≤ limit
  · exact ⟨_, planStreamChunk_of_le hcredit hg hpos hle⟩
  · refine ⟨⟨{ g with len := limit - g.offset, isFin := false }, g.len⟩, ?_⟩
    have hclamp : g.len > 0 ∧ g.offset + g.len > limit := by omega
    rw [planStreamChunk, hg]
    simp only [hcredit, Option.map_some, if_pos hclamp, if_neg (by omega : ¬ limit ≤ g.offset)]
    rw [if_neg (by simp [hpos]), if_neg (by omega)]

/-- A range that fills the room is not cut: the two bytes its length would take are counted even
where the frame goes without it. -/
theorem determineStreamLen_exact {id offset n spaceLeft : ℕ} (fin : Bool)
    (hbase : 0 < getEncodedFrameLenStreamHdr ⟨id, offset, n, false, false⟩)
    (hlen : 64 ≤ n ∧ n < 16384)
    (hexact : getEncodedFrameLenStreamHdr ⟨id, offset, n, false, false⟩ + 2 + n = spaceLeft) :
    determineStreamLen ⟨id, offset, n, false, fin⟩ spaceLeft =
      some (getEncodedFrameLenStreamHdr ⟨id, offset, n, false, false⟩ + 2, n) := by
  have htwo : vlintEncodeLen n = 2 := by
    unfold vlintEncodeLen
    rw [if_neg (by omega), if_pos (by omega)]
  have hsame : getEncodedFrameLenStreamHdr ⟨id, offset, 0, false, fin⟩ =
      getEncodedFrameLenStreamHdr ⟨id, offset, n, false, false⟩ := by
    simp [getEncodedFrameLenStreamHdr]
  generalize getEncodedFrameLenStreamHdr ⟨id, offset, n, false, false⟩ = base at *
  obtain ⟨hsome, hnone⟩ := determineLen_spec spaceLeft n base (by omega)
  have hfits : Fits spaceLeft base n := by
    unfold Fits
    omega
  simp only [determineStreamLen, hsame]
  rw [if_neg (by omega), if_neg (by simp)]
  rcases hd : determineLen spaceLeft n base with _ | ⟨hdrLen, m⟩
  · exact absurd hfits (hnone hd n (Nat.le_refl _) (by omega))
  · obtain ⟨hm, -, hhdr, -, hbest⟩ := hsome hdrLen m hd
    obtain rfl : m = n := Nat.le_antisymm hm (hbest _ (Nat.le_refl _) hfits)
    rw [hhdr, htwo]

/-- **A packet that must be acknowledged can fail to be made.** One byte is kept back for a PING. A
range that fills the room to the last byte goes without its length, and with the byte that is then
no longer kept back three bytes are left: with another range pending the loop goes on, and the
assertion that nothing follows a frame without a length fails. -/
theorem generate_fails_of_exact_fit (hs : Setup a data limit) (st : Gen) {f g : StreamFrame}
    (hf : getStreamFrame a.sstream 0 = some f) (hg : getStreamFrame a.sstream 1 = some g)
    (hlen : 64 ≤ f.len ∧ f.len < 16384) (hpos : 0 < g.len) (hlt : g.offset < limit)
    (hpad : a.forcePad = false) (himp : st.h.doneImplicit = false)
    (hchunks : st.chunks.length < maxAllocChunks)
    (hkept : st.h.reserveAllowed = false ∧ st.h.reserve = 1)
    (hexact : getEncodedFrameLenStreamHdr ⟨a.id, f.offset, f.len, false, false⟩ + 2 + f.len =
      getSpaceLeft st.h) :
    generateStreamFrames a st = none := by
  obtain ⟨-, hfend, -, hffin, -⟩ := hs.inv.frame_eq hf
  obtain ⟨-, hgend, -⟩ := hs.inv.frame_eq hg
  have hasc := getStreamFrame_ascending hs.inv (by omega : 0 < 1) hf hg
  have hfin : f.isFin = false := by
    rw [Bool.eq_false_iff]
    intro h
    have := (hffin h).2
    omega
  have h0 := planStreamChunk_of_le hs.credit hf (by omega) (by omega)
  obtain ⟨d, h1⟩ := planStreamChunk_isSome hs.credit hg hpos hlt
  have hplan : PlanOf limit f ⟨f, f.len⟩ :=
    ⟨rfl, Nat.le_refl _, rfl, rfl, fun h => ⟨h, rfl⟩, fun h => by simp only at h; omega, fun _ => by
      simp only; omega⟩
  have hlength := hs.length
  have hmax : vlintMax = 2 ^ 62 - 1 := rfl
  have hbase := getEncodedFrameLenStreamHdr_eq (f := ⟨a.id, f.offset, f.len, false, false⟩) hs.id
    (by simp only; omega) (by simp only; omega)
  have hdet := determineStreamLen_exact f.isFin (by omega) hlen hexact
  obtain ⟨s, hsent⟩ : ∃ s, s.shdr.hasExplicitLen = false ∧
    s.frame.encode.length + 2 = getSpaceLeft st.h ∧
      round a { st with fcNewHwm := a.txfc.swm } ⟨f, f.len⟩ true =
        .next (Gen.add { st with fcNewHwm := a.txfc.swm } s s.frame.encode.length) false := by
    rcases appendFrame_spec hs hf hplan { st with fcNewHwm := a.txfc.swm }
      (Nat.le_refl f.len) id false (by simp only; omega) with ⟨-, hfull⟩ | ⟨s, -, hex, -, henc, heq⟩
    · exact absurd hfull (Nat.ne_of_lt hchunks)
    · refine ⟨s, hex, by omega, ?_⟩
      simp only [round, hdet]
      rw [if_pos, heq, if_neg (Nat.lt_irrefl _), hfin]
      simp only [hpad, Bool.not_false, Bool.and_true, Bool.or_eq_true, decide_eq_true_eq]
      exact Or.inl (by omega)
  obtain ⟨hex, henc, hround⟩ := hsent
  have hspace : getSpaceLeft st.h = st.h.maxPpl - 1 - st.h.bytesAppended := by
    rw [getSpaceLeft, hkept.1, hkept.2]
    rfl
  have hloop : generateLoop a false 1
      (Gen.add { st with fcNewHwm := a.txfc.swm } s s.frame.encode.length) = none := by
    rw [generateLoop_of_chunk (by rw [chunkAt, if_neg (by simp), h1]),
      if_neg (by simp only [getSpaceLeft, Gen.add, if_true]; omega),
      if_pos (by simp [Gen.add, hex])]
  rw [generateStreamFrames, h0, h1]
  simp only
  rw [generateLoop_of_chunk (by rw [chunkAt, if_neg (by simp), h0]), if_neg (by simp only; omega),
    if_neg (by simp [himp])]
  simp only [h1, Option.isSome_some, hround, hloop]

end

theorem generate_fails_of_exact_fit_gap :
    generateStreamFrames gapArgs ⟨⟨69, 1, 0, false, false⟩, [], [], false, 0⟩ = none := by
  obtain ⟨iov₀, h₀, -⟩ := gapArgs_setup.inv.getStreamFrame_spec
    (rfl : gapArgs.sstream.newSet.reverse[0]? = _)
  obtain ⟨iov₁, h₁, -⟩ := gapArgs_setup.inv.getStreamFrame_spec
    (rfl : gapArgs.sstream.newSet.reverse[1]? = _)
  exact generate_fails_of_exact_fit gapArgs_setup _ h₀ h₁ (by simp) (by simp) (by simp) rfl rfl
    (by decide) ⟨rfl, rfl⟩ rfl

end PapQuic.Txp.StreamFrames
