import PapQuic.Wire.FrameCodec

/-! # ACK frames in any encoding

QUIC allows a number in a frame to be written in any of the lengths that hold it; only the frame
type has to be minimal. `Encoded` is a number as it stands in a frame, and `Ack` an ACK frame made
of such numbers. `acked` are the packet numbers that the frame acknowledges, as ranges from the
largest to the smallest; the decoder gives these, as long as its array has room for all of them
(`decodeFrameAck_bytes`). -/

namespace PapQuic.Wire.AckFrame

open Wire.Packet Wire.Vlint Wire.Frames Wire.FrameCodec

/-- Bytes that are read as a number, whatever follows them. -/
structure Encoded where
  value : ℕ
  bytes : Bytes
  reads : ∀ rest, packetGetQuicVlint (bytes ++ rest) = some (value, rest)

/-- The shortest encoding. -/
def minimal (value : ℕ) (h : value ≤ vlintMax) : Encoded :=
  ⟨value, vlintEncode value, get_vlintEncode h⟩

/-- The numbers of further ranges: gap and length. -/
abbrev Gap := Encoded × Encoded

/-- Each further range lies below the one before it, with the gap between them. -/
def Descends (smallest : ℕ) (ranges : List Gap) : Prop :=
  Frame.AckChain smallest (ranges.map fun r => (r.1.value, r.2.value))

/-- A well-formed ACK frame. -/
structure Ack where
  largest : Encoded
  delay : Encoded
  count : Encoded
  first : Encoded
  ranges : List Gap
  ecn : Option (Encoded × Encoded × Encoded)
  count_eq : count.value = ranges.length
  first_le : first.value ≤ largest.value
  descends : Descends (largest.value - first.value) ranges

/-- The further ranges below `smallest`. -/
def furtherRanges : ℕ → List (ℕ × ℕ) → List AckRange
  | _, [] => []
  | smallest, (gap, len) :: ranges =>
    ⟨smallest - gap - 2 - len, smallest - gap - 2⟩ ::
      furtherRanges (smallest - gap - 2 - len) ranges

namespace Ack

variable (f : Ack)

/-- The ranges of packet numbers that the frame acknowledges. -/
def acked : List AckRange :=
  ⟨f.largest.value - f.first.value, f.largest.value⟩ ::
    furtherRanges (f.largest.value - f.first.value) (f.ranges.map fun r => (r.1.value, r.2.value))

/-- The bytes of the frame. -/
def bytes : Bytes :=
  vlintEncode (if f.ecn.isSome then 0x03 else 0x02) ++ f.largest.bytes ++ f.delay.bytes ++
    f.count.bytes ++ f.first.bytes ++ f.ranges.flatMap (fun r => r.1.bytes ++ r.2.bytes) ++
    f.ecn.elim [] fun c => c.1.bytes ++ c.2.1.bytes ++ c.2.2.bytes

end Ack

/-! ### Decoding -/

/-- While there is room, the decoder gives the ranges. -/
theorem decodeAckRanges_bytes {k : ℕ} : ∀ {ranges : List Gap} {i smallest : ℕ} (rest : Bytes),
    i + ranges.length < k → Descends smallest ranges →
    decodeAckRanges k ranges.length i smallest
        (ranges.flatMap (fun r => r.1.bytes ++ r.2.bytes) ++ rest) =
      some (furtherRanges smallest (ranges.map fun r => (r.1.value, r.2.value)), rest)
  | [], _, _, _, _, _ => rfl
  | (gap, len) :: ranges, i, smallest, rest, hk, ⟨hgap, hlen, hchain⟩ => by
    have hgap : gap.value + 2 ≤ smallest := hgap
    have hlen : len.value ≤ smallest - gap.value - 2 := hlen
    simp only [List.length_cons] at hk
    have ih := @decodeAckRanges_bytes k ranges (i + 1) (smallest - gap.value - 2 - len.value) rest
      (by omega) hchain
    simp only [List.flatMap_cons, List.append_assoc, List.length_cons, decodeAckRanges, gap.reads,
      len.reads, Option.bind_eq_bind, Option.bind_some]
    rw [if_neg (by omega), if_neg (by omega), if_pos (by omega), ih]
    rfl

theorem getEcnCounts_bytes (ecn : Option (Encoded × Encoded × Encoded)) (rest : Bytes) :
    getEcnCounts ecn.isSome
      (ecn.elim [] (fun c => c.1.bytes ++ c.2.1.bytes ++ c.2.2.bytes) ++ rest) = some rest := by
  rcases ecn with _ | ⟨a, b, c⟩
  · rfl
  · simp [getEcnCounts, getVlintIf, a.reads, b.reads, c.reads]

/-- **The decoder gives the acknowledged ranges** when its array has room for them. -/
theorem decodeFrameAck_bytes (f : Ack) {k : ℕ} (hk : f.acked.length ≤ k) (hmax : k ≤ sizeMax)
    (rest : Bytes) :
    decodeFrameAck (f.bytes ++ rest) k = some (⟨f.acked, f.acked.length⟩, rest) := by
  have hlen : ∀ (smallest : ℕ) (ranges : List (ℕ × ℕ)),
      (furtherRanges smallest ranges).length = ranges.length := by
    intro smallest ranges
    induction ranges generalizing smallest with
    | nil => rfl
    | cons r ranges ih => exact congrArg (· + 1) (ih _)
  have hacked : f.acked.length = f.ranges.length + 1 := by
    rw [Ack.acked, List.length_cons, hlen, List.length_map]
  have hranges := decodeAckRanges_bytes (k := k) (i := 0)
    (f.ecn.elim [] (fun c => c.1.bytes ++ c.2.1.bytes ++ c.2.2.bytes) ++ rest) (by omega) f.descends
  have htype : (if f.ecn.isSome then 0x03 else 0x02) ≤ vlintMax := by split_ifs <;> decide
  have hmask : (if f.ecn.isSome then 0x03 else 0x02) &&& (2 ^ 64 - 1 - 1) = 0x02 := by
    split_ifs <;> decide
  have hisecn : ((if f.ecn.isSome then 0x03 else 0x02) == 0x03) = f.ecn.isSome := by
    cases f.ecn.isSome <;> rfl
  rw [decodeFrameAck, Ack.bytes]
  simp only [List.append_assoc] at hranges ⊢
  rw [expectMask_vlintEncode htype hmask]
  simp only [f.largest.reads, f.delay.reads, f.count.reads, f.first.reads, Option.bind_eq_bind,
    Option.bind_some]
  rw [if_neg (by have := f.first_le; omega), if_neg (by rw [f.count_eq]; omega),
    f.count_eq, hranges]
  have hecn := getEcnCounts_bytes f.ecn rest
  simp only [List.append_assoc] at hecn
  simp only [Option.bind_some, hisecn, hecn, ← hacked]
  rfl

end PapQuic.Wire.AckFrame
