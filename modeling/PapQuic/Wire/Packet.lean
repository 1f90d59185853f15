import Mathlib.Algebra.Group.Nat.Defs
import Mathlib.Data.List.Induction
import Mathlib.Tactic.Common

/-! # Byte readers

`PACKET` of `include/internal/packet.h` is a cursor into a byte string. The model keeps the bytes
that remain: a reader returns what it read and the rest, and `none` where the source returns 0. A
failed reader may leave the cursor anywhere in the source; no caller modelled here looks at it. -/

namespace PapQuic.Wire.Packet

/-- A byte string. -/
abbrev Bytes := List UInt8

/-- `SIZE_MAX` of a 64-bit build. -/
def sizeMax : ℕ := 2 ^ 64 - 1

/-- `PACKET_buf_init`. -/
def packetBufInit (buf : Bytes) : Option Bytes :=
  if buf.length > sizeMax / 2 then none else some buf

/-- `PACKET_forward`. -/
def packetForward (pkt : Bytes) (len : ℕ) : Option Bytes :=
  if pkt.length < len then none else some (pkt.drop len)

/-- `PACKET_get_bytes`, and `PACKET_copy_bytes`, which reads the same. -/
def packetGetBytes (pkt : Bytes) (len : ℕ) : Option (Bytes × Bytes) :=
  if pkt.length < len then none else some (pkt.take len, pkt.drop len)

/-- `PACKET_get_1`. -/
def packetGet1 : Bytes → Option (ℕ × Bytes)
  | a :: pkt => some (a.toNat, pkt)
  | [] => none

/-- Bytes in network order. -/
def netOrder (b : Bytes) : ℕ := b.foldl (fun v c => v <<< 8 ||| c.toNat) 0

/-- `PACKET_get_net_2`, `PACKET_get_net_3` and `PACKET_get_net_8`: the next `n` bytes in network
order. -/
def packetGetNet (n : ℕ) (pkt : Bytes) : Option (ℕ × Bytes) :=
  if pkt.length < n then none else some (netOrder (pkt.take n), pkt.drop n)

def packetGetNet2 : Bytes → Option (ℕ × Bytes) := packetGetNet 2

def packetGetNet3 : Bytes → Option (ℕ × Bytes) := packetGetNet 3

def packetGetNet8 : Bytes → Option (ℕ × Bytes) := packetGetNet 8

/-- `PACKET_get_length_prefixed_1`: the vector and the rest. -/
def packetGetLengthPrefixed1 (pkt : Bytes) : Option (Bytes × Bytes) := do
  let (length, tmp) ← packetGet1 pkt
  packetGetBytes tmp length

/-- `PACKET_get_length_prefixed_2`. -/
def packetGetLengthPrefixed2 (pkt : Bytes) : Option (Bytes × Bytes) := do
  let (length, tmp) ← packetGetNet2 pkt
  packetGetBytes tmp length

/-- `PACKET_get_length_prefixed_3`. -/
def packetGetLengthPrefixed3 (pkt : Bytes) : Option (Bytes × Bytes) := do
  let (length, tmp) ← packetGetNet3 pkt
  packetGetBytes tmp length

/-! ### What a reader leaves -/

theorem packetForward_eq_some {pkt rest : Bytes} {len : ℕ} :
    packetForward pkt len = some rest ↔ len ≤ pkt.length ∧ rest = pkt.drop len := by
  unfold packetForward
  split_ifs with h
  · simp; omega
  · simp only [Option.some.injEq]
    exact ⟨fun e => ⟨by omega, e.symm⟩, fun e => e.2.symm⟩

theorem packetGetBytes_eq_some {pkt d rest : Bytes} {len : ℕ} :
    packetGetBytes pkt len = some (d, rest) ↔ d.length = len ∧ pkt = d ++ rest := by
  unfold packetGetBytes
  split_ifs with h
  · simp only [false_iff]
    rintro ⟨rfl, rfl⟩
    rw [List.length_append] at h; omega
  · simp only [Option.some.injEq, Prod.mk.injEq]
    constructor
    · rintro ⟨rfl, rfl⟩
      exact ⟨by simp; omega, (List.take_append_drop _ _).symm⟩
    · rintro ⟨rfl, rfl⟩; simp

theorem packetGetNet_length {n v : ℕ} {pkt rest : Bytes} (h : packetGetNet n pkt = some (v, rest)) :
    rest.length + n = pkt.length := by
  unfold packetGetNet at h
  split_ifs at h with hl
  cases h
  simp; omega

theorem netOrder_lt (b : Bytes) : netOrder b < 2 ^ (8 * b.length) := by
  induction b using List.reverseRecOn with
  | nil => decide
  | append_singleton b c ih =>
    have hc : c.toNat < 2 ^ 8 := c.toNat_lt
    rw [netOrder, List.foldl_append, List.foldl_cons, List.foldl_nil, ← netOrder,
      List.length_append, List.length_singleton, Nat.mul_add, Nat.mul_one]
    refine Nat.or_lt_two_pow ?_ (Nat.lt_of_lt_of_le hc (Nat.pow_le_pow_right (by omega) (by omega)))
    rw [Nat.shiftLeft_eq, Nat.pow_add]
    exact Nat.mul_lt_mul_of_pos_right ih (by decide)

/-- A vector whose length has `n` bytes is shorter than `256 ^ n`. -/
theorem packetGetNet_lt {n v : ℕ} {pkt rest : Bytes} (h : packetGetNet n pkt = some (v, rest)) :
    v < 2 ^ (8 * n) := by
  unfold packetGetNet at h
  split_ifs at h with hl
  cases h
  have := netOrder_lt (pkt.take n)
  rwa [List.length_take, Nat.min_eq_left (by omega)] at this

theorem length_lt_of_prefixed2 {pkt d rest : Bytes}
    (h : packetGetLengthPrefixed2 pkt = some (d, rest)) : d.length < 2 ^ 16 := by
  obtain ⟨⟨len, tmp⟩, hlen, hd⟩ := Option.bind_eq_some_iff.mp h
  rw [(packetGetBytes_eq_some.mp hd).1]
  exact packetGetNet_lt hlen

theorem length_lt_of_prefixed3 {pkt d rest : Bytes}
    (h : packetGetLengthPrefixed3 pkt = some (d, rest)) : d.length < 2 ^ 24 := by
  obtain ⟨⟨len, tmp⟩, hlen, hd⟩ := Option.bind_eq_some_iff.mp h
  rw [(packetGetBytes_eq_some.mp hd).1]
  exact packetGetNet_lt hlen

@[simp] theorem packetForward_append (d rest : Bytes) :
    packetForward (d ++ rest) d.length = some rest := by
  rw [packetForward_eq_some]; simp

@[simp] theorem packetGetBytes_append (d rest : Bytes) :
    packetGetBytes (d ++ rest) d.length = some (d, rest) := by
  rw [packetGetBytes_eq_some]; simp

end PapQuic.Wire.Packet
