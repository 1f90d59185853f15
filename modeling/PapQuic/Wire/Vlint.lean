import PapQuic.Wire.Packet
import Mathlib.Data.Nat.Bitwise
import Mathlib.Data.FinEnum

/-! # QUIC variable-length integers

The two top bits of the first byte give the length of the encoding (1, 2, 4 or 8 bytes), the other
bits the value in network order. A value below `2^62` has a minimal encoding and up to three longer
ones: the decoder accepts them all, and only `PACKET_peek_quic_vlint_ex` tells them apart. -/

namespace PapQuic.Wire.Vlint

open Wire.Packet

/-- `OSSL_QUIC_VLINT_MAX`. -/
def vlintMax : ℕ := 2 ^ 62 - 1

/-- `ossl_quic_vlint_encode_len`. -/
def vlintEncodeLen (v : ℕ) : ℕ :=
  if v < 64 then 1
  else if v < 16384 then 2
  else if v < 1073741824 then 4
  else if v ≤ vlintMax then 8
  else 0

/-- `ossl_quic_vlint_encode_n`. -/
def vlintEncodeN (v n : ℕ) : Bytes :=
  if n = 1 then [UInt8.ofNat v]
  else if n = 2 then [UInt8.ofNat (0x40 ||| ((v >>> 8) &&& 0x3F)), UInt8.ofNat v]
  else if n = 4 then
    [UInt8.ofNat (0x80 ||| ((v >>> 24) &&& 0x3F)), UInt8.ofNat (v >>> 16), UInt8.ofNat (v >>> 8),
      UInt8.ofNat v]
  else
    [UInt8.ofNat (0xC0 ||| ((v >>> 56) &&& 0x3F)), UInt8.ofNat (v >>> 48), UInt8.ofNat (v >>> 40),
      UInt8.ofNat (v >>> 32), UInt8.ofNat (v >>> 24), UInt8.ofNat (v >>> 16),
      UInt8.ofNat (v >>> 8), UInt8.ofNat v]

/-- `ossl_quic_vlint_encode`. -/
def vlintEncode (v : ℕ) : Bytes := vlintEncodeN v (vlintEncodeLen v)

/-- `ossl_quic_vlint_decode_len`. -/
def vlintDecodeLen (firstByte : UInt8) : ℕ := 1 <<< ((firstByte &&& 0xC0) >>> 6).toNat

/-- `ossl_quic_vlint_decode_unchecked`. -/
def vlintDecodeUnchecked : Bytes → ℕ
  | [] => 0
  | b :: buf =>
    (buf.take (vlintDecodeLen b - 1)).foldl (fun v c => v <<< 8 ||| c.toNat) (b &&& 0x3F).toNat

/-- `PACKET_get_quic_vlint`. -/
def packetGetQuicVlint : Bytes → Option (ℕ × Bytes)
  | [] => none
  | b :: buf =>
    let enclen := vlintDecodeLen b
    if (b :: buf).length < enclen then none
    else some (vlintDecodeUnchecked (b :: buf), (b :: buf).drop enclen)

/-- `PACKET_peek_quic_vlint_ex`: the value, and whether its encoding is minimal. -/
def packetPeekQuicVlintEx : Bytes → Option (ℕ × Bool)
  | [] => none
  | b :: buf =>
    let enclen := vlintDecodeLen b
    if (b :: buf).length < enclen then none
    else
      let data := vlintDecodeUnchecked (b :: buf)
      some (data, enclen == vlintEncodeLen data)

/-! ### Lengths and bits -/

theorem vlintEncodeLen_pos {v : ℕ} (h : v ≤ vlintMax) : 0 < vlintEncodeLen v := by
  unfold vlintEncodeLen
  split_ifs <;> omega

theorem vlintEncodeLen_le_two {v : ℕ} (h : v < 16384) : vlintEncodeLen v ≤ 2 := by
  unfold vlintEncodeLen
  split_ifs <;> omega

theorem vlintEncodeLen_eq_two_iff {v : ℕ} : vlintEncodeLen v = 2 ↔ 64 ≤ v ∧ v < 16384 := by
  unfold vlintEncodeLen
  constructor
  · intro h
    split_ifs at h <;> omega
  · rintro ⟨hge, hlt⟩
    rw [if_neg (by omega), if_pos hlt]

theorem vlintDecodeLen_eq (b : UInt8) : vlintDecodeLen b = 2 ^ (b.toNat / 64) := by
  have h : ∀ b : UInt8, ((b &&& 0xC0) >>> 6).toNat = b.toNat / 64 := by decide +kernel
  unfold vlintDecodeLen
  rw [h, Nat.shiftLeft_eq, one_mul]

theorem vlintDecodeLen_pos (b : UInt8) : 0 < vlintDecodeLen b := by
  rw [vlintDecodeLen_eq]; exact Nat.two_pow_pos _

theorem and_low6 (b : UInt8) : (b &&& 0x3F).toNat = b.toNat % 64 := by
  revert b; decide +kernel

theorem shift_or (v : ℕ) (c : UInt8) : v <<< 8 ||| c.toNat = v * 256 + c.toNat := by
  rw [← Nat.shiftLeft_add_eq_or_of_lt (i := 8) c.toNat_lt, Nat.shiftLeft_eq]

theorem foldl_shift (b : Bytes) (v : ℕ) :
    b.foldl (fun v c => v <<< 8 ||| c.toNat) v = b.foldl (fun v c => v * 256 + c.toNat) v := by
  simp only [shift_or]

/-- A reader of an integer takes at least one byte, whatever the encoding. -/
theorem packetGetQuicVlint_length {pkt rest : Bytes} {v : ℕ}
    (h : packetGetQuicVlint pkt = some (v, rest)) : rest.length < pkt.length := by
  rcases pkt with _ | ⟨b, buf⟩
  · cases h
  · simp only [packetGetQuicVlint] at h
    split_ifs at h with hl
    cases h
    have := vlintDecodeLen_pos b
    rw [List.length_drop, List.length_cons]
    omega

/-- Peeking sees the value the reader then takes. -/
theorem peek_eq_get (pkt : Bytes) :
    (packetPeekQuicVlintEx pkt).map Prod.fst = (packetGetQuicVlint pkt).map Prod.fst := by
  rcases pkt with _ | ⟨b, buf⟩
  · rfl
  · simp only [packetPeekQuicVlintEx, packetGetQuicVlint]
    split_ifs <;> rfl

/-! ### Round trip -/

theorem or_top (k x : ℕ) (hx : x < 64) (hk : k < 4) :
    UInt8.toNat (UInt8.ofNat (k * 64 ||| x)) = k * 64 + x := by
  have h : ∀ k < 4, ∀ x < 64, UInt8.toNat (UInt8.ofNat (k * 64 ||| x)) = k * 64 + x := by
    decide +kernel
  exact h k hk x hx

/-- The first byte of an encoding carries its length class `k` and the top six bits `x`. -/
theorem get_of_first {k x : ℕ} (hx : x < 64) (hk : k < 4) (t rest : Bytes)
    (ht : t.length + 1 = 2 ^ k) :
    packetGetQuicVlint (UInt8.ofNat (k * 64 ||| x) :: t ++ rest) =
      some (t.foldl (fun v c => v * 256 + c.toNat) x, rest) := by
  have hb := or_top k x hx hk
  have hlen : vlintDecodeLen (UInt8.ofNat (k * 64 ||| x)) = t.length + 1 := by
    rw [vlintDecodeLen_eq, hb, ht]
    congr 1; omega
  rw [List.cons_append]
  simp only [packetGetQuicVlint, vlintDecodeUnchecked, hlen, List.length_cons, List.length_append]
  rw [if_neg (by omega), foldl_shift, and_low6, hb]
  simp only [Nat.add_sub_cancel, List.take_left, List.drop_succ_cons, List.drop_left]
  rw [show (k * 64 + x) % 64 = x by omega]

theorem toNat_ofNat_mod (n : ℕ) : (UInt8.ofNat n).toNat = n % 256 := by simp

/-- **Round trip.** The decoder reads back every value the encoder wrote, and stops at its end. -/
theorem get_vlintEncode {v : ℕ} (hv : v ≤ vlintMax) (rest : Bytes) :
    packetGetQuicVlint (vlintEncode v ++ rest) = some (v, rest) := by
  unfold vlintMax at hv
  have h6 : ∀ n, n &&& 0x3F = n % 64 := fun n => Nat.and_two_pow_sub_one_eq_mod n 6
  unfold vlintEncode vlintEncodeLen vlintEncodeN
  have hmax : v ≤ vlintMax := by unfold vlintMax; omega
  simp only [hmax, if_true]
  split_ifs <;> first | omega | skip
  · have := get_of_first (k := 0) (x := v) (by omega) (by omega) [] rest rfl
    simpa using this
  · rw [h6, show (0x40 : ℕ) = 1 * 64 from rfl, get_of_first (Nat.mod_lt _ (by omega)) (by omega)]
    · simp only [List.foldl_cons, List.foldl_nil, toNat_ofNat_mod, Nat.shiftRight_eq_div_pow]
      congr 2; omega
    · rfl
  · rw [h6, show (0x80 : ℕ) = 2 * 64 from rfl, get_of_first (Nat.mod_lt _ (by omega)) (by omega)]
    · simp only [List.foldl_cons, List.foldl_nil, toNat_ofNat_mod, Nat.shiftRight_eq_div_pow]
      congr 2; omega
    · rfl
  · rw [h6, show (0xC0 : ℕ) = 3 * 64 from rfl, get_of_first (Nat.mod_lt _ (by omega)) (by omega)]
    · simp only [List.foldl_cons, List.foldl_nil, toNat_ofNat_mod, Nat.shiftRight_eq_div_pow]
      congr 2; omega
    · rfl

end PapQuic.Wire.Vlint
