import PapQuic.Log.FrameList

/-! # When the frame list ends

The loop of `packet_log_append_frames` has no bound of its own: it goes on while bytes are left. It
ends, and with at most one specification for each byte of the payload, unless it comes to a PADDING
frame whose type is encoded in two, four or eight bytes (`appendFrames_terminates_iff`). The type is
peeked at as a variable-length integer, but `ossl_quic_wire_decode_padding` counts zero bytes, and
finds none where the encoding starts with a length prefix; so the log prints `PADDING--(SIZE=0B)`
for ever (`appendFrames_overlong_padding`). -/

namespace PapQuic.Log.Termination

open Lib.Consume Wire.Packet Log.Metadata Log.FrameList

/-- The remainders of the payload that `packet_log_append_frame_spec` is called on: those at which a
frame starts, when the payload is not too long for a `PACKET`. -/
def FrameStart (payload rest : Bytes) : Prop :=
  packetBufInit payload = some payload ∧ Reaches skipFrame payload rest

theorem packetBufInit_eq (payload : Bytes) :
    packetBufInit payload = none ∨ packetBufInit payload = some payload := by
  unfold packetBufInit
  split_ifs
  · exact .inl rfl
  · exact .inr rfl

theorem skipFrame_length {pkt rest : Bytes} (ho : ¬ OverlongPadding pkt) (hne : pkt ≠ [])
    (h : skipFrame pkt = some rest) : rest.length < pkt.length := by
  obtain ⟨⟨frame, r⟩, hd, rfl⟩ := Option.map_eq_some_iff.mp h
  exact decodeLoggedFrame_length ho hne hd

theorem skipFrame_overlong {pkt : Bytes} (h : OverlongPadding pkt) : skipFrame pkt = some pkt := by
  rw [skipFrame, decodeLoggedFrame_overlong h]; rfl

theorem ne_nil_of_overlong {pkt : Bytes} (h : OverlongPadding pkt) : pkt ≠ [] := by
  rintro rfl
  exact absurd h (by decide)

variable (lib : X509Lib) (event : EventKey) (alloc : ℕ → Bool) (s : SpecState) {payload : Bytes}

/-- Without overlong PADDING the loop ends, after no more rounds than there are bytes. -/
theorem appendFrames_ends (h : ∀ rest, FrameStart payload rest → ¬ OverlongPadding rest) :
    ∃ r, packetLogAppendFrames lib event alloc payload.length s payload = some r ∧
      r.specs.length ≤ payload.length := by
  unfold packetLogAppendFrames
  split_ifs with hnil
  · exact ⟨_, rfl, by simp⟩
  rcases packetBufInit_eq payload with hi | hi
  · rw [hi]; exact ⟨_, rfl, by simp⟩
  · rw [hi]
    obtain ⟨out, ho, hl⟩ := consume_of_progress (skips_skipFrame lib event alloc) payload.length 0 s
      payload le_rfl fun r m hr hne => skipFrame_length (h r ⟨hi, hr⟩) hne
    exact ⟨⟨out.1, out.2.1, out.2.2⟩, by simp [ho], hl⟩

/-- From an overlong PADDING on the loop goes round without end. -/
theorem appendFrames_diverges {rest : Bytes} (hr : FrameStart payload rest)
    (ho : OverlongPadding rest) (fuel : ℕ) :
    packetLogAppendFrames lib event alloc fuel s payload = none := by
  have hnil : payload ≠ [] := by
    rintro rfl
    cases hr.2 with
    | refl => exact ne_nil_of_overlong ho rfl
    | step h _ _ => exact h rfl
  rw [packetLogAppendFrames, if_neg hnil, hr.1]
  simp only [consume_eq_none (skips_skipFrame lib event alloc) hr.2
    (ne_nil_of_overlong ho) (skipFrame_overlong ho), Option.map_none]

/-- **The frame list of a payload ends exactly when no frame of it is an overlong PADDING.** It then
has at most one specification for each byte, and each call that succeeds has taken a byte. -/
theorem appendFrames_terminates_iff (lib : X509Lib) (event : EventKey) (alloc : ℕ → Bool)
    (s : SpecState) (payload : Bytes) :
    ((∃ fuel r, packetLogAppendFrames lib event alloc fuel s payload = some r ∧
        r.specs.length ≤ payload.length) ∧
      ∀ rest, FrameStart payload rest → rest ≠ [] → ∀ a s' spec s'' rest',
        packetLogAppendFrameSpec lib event a s' rest = some (spec, s'', rest') →
          rest'.length < rest.length) ↔
    ∀ rest, FrameStart payload rest → ¬ OverlongPadding rest := by
  constructor
  · rintro ⟨⟨fuel, r, hr, -⟩, -⟩ rest hs ho
    rw [appendFrames_diverges lib event alloc s hs ho fuel] at hr
    cases hr
  · intro h
    obtain ⟨r, hr, hl⟩ := appendFrames_ends lib event alloc s h
    refine ⟨⟨_, r, hr, hl⟩, fun rest hs hne a s' spec s'' rest' hc => ?_⟩
    obtain ⟨⟨frame, m⟩, hd, e⟩ := Option.map_eq_some_iff.mp hc
    cases e
    exact decodeLoggedFrame_length (h rest hs) hne hd

/-- The two bytes `40 00` keep the log busy for ever. -/
theorem appendFrames_overlong_padding :
    ¬ ∃ fuel r, packetLogAppendFrames noX509 ⟨true, false, .initial⟩ (fun _ => true) fuel
      ⟨0, LogState.init⟩ [0x40, 0x00] = some r := by
  rintro ⟨fuel, r, h⟩
  rw [appendFrames_diverges _ _ _ _ ⟨by decide, .refl _⟩ (by decide)] at h
  cases h

end PapQuic.Log.Termination
