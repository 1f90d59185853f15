import PapQuic.Wire.Vlint
import PapQuic.Log.Handshake

/-! # The reassembly loop on a stream of messages

A handshake stream is a concatenation of messages: a type, a length in three bytes and a body. The
loop of `packet_log_append_handshake_bytes` is run on a piece of such a stream. Where the piece
starts between two messages, `feed_between` says exactly what the loop does: the messages that lie
in the piece are processed, and the piece ends

* between two messages, and the state is as it was;
* in the body of a message, and the state holds what has come of it (`partialState`);
* in a header, and the bytes of it that came are printed as `HANDSHAKE-DATA` and forgotten.

`feed_within` is the same for a piece that starts in the body of a message. -/

namespace PapQuic.Log.Stream

open Wire.Packet Wire.Vlint Log.Handshake

/-- A handshake message. Its length fits the three bytes of the header. -/
structure HsMessage where
  hsType : UInt8
  body : Bytes
  body_lt : body.length < 2 ^ 24

/-- The four bytes before the body. -/
def HsMessage.header (m : HsMessage) : Bytes :=
  [m.hsType, UInt8.ofNat (m.body.length / 65536), UInt8.ofNat (m.body.length / 256),
    UInt8.ofNat m.body.length]

def HsMessage.encode (m : HsMessage) : Bytes := m.header ++ m.body

/-- The bytes of a sequence of messages. -/
def stream (msgs : List HsMessage) : Bytes := msgs.flatMap HsMessage.encode

@[simp] theorem stream_nil : stream [] = [] := rfl

variable (m : HsMessage)

@[simp] theorem stream_cons (msgs : List HsMessage) :
    stream (m :: msgs) = m.header ++ (m.body ++ stream msgs) := by
  simp [stream, HsMessage.encode]

@[simp] theorem stream_append (a b : List HsMessage) : stream (a ++ b) = stream a ++ stream b := by
  simp [stream]

@[simp] theorem length_header : m.header.length = 4 := rfl

/-- The calls for a message that is complete. -/
def HsMessage.calls (m : HsMessage) : List HsCall :=
  [.process m.hsType m.body, .event m.hsType, .fragment m.hsType true]

/-- The calls for a sequence of complete messages. -/
def callsOf (msgs : List HsMessage) : List HsCall := msgs.flatMap HsMessage.calls

@[simp] theorem callsOf_nil : callsOf [] = [] := rfl

@[simp] theorem callsOf_cons (msgs : List HsMessage) :
    callsOf (m :: msgs) = m.calls ++ callsOf msgs := by
  simp [callsOf]

/-- The state when `k` bytes of the body have come; `alloc` says whether there is a buffer. -/
def partialState (alloc : Bool) (m : HsMessage) (k : ℕ) : PacketLogHsState where
  active := true
  hsType := m.hsType
  remaining := m.body.length - k
  buffer :=
    if alloc then some (m.body.take k ++ List.replicate (m.body.length - k) 0) else none
  totalLen := m.body.length
  collected := k

variable (alloc : Bool)

@[simp] theorem partialState_active (m : HsMessage) (k : ℕ) :
    (partialState alloc m k).active = true := rfl

/-! ### One round -/

theorem netOrder_length :
    netOrder [UInt8.ofNat (m.body.length / 65536), UInt8.ofNat (m.body.length / 256),
      UInt8.ofNat m.body.length] = m.body.length := by
  have h := m.body_lt
  rw [netOrder, foldl_shift]
  simp only [List.foldl_cons, List.foldl_nil, toNat_ofNat_mod]
  omega

variable {st : PacketLogHsState}

theorem hsStep_whole (hst : st.active = false) (m : HsMessage) (rest : Bytes) :
    hsStep alloc st (m.header ++ (m.body ++ rest)) = (m.calls, st, some rest) := by
  unfold hsStep
  rw [if_neg (by simp [hst])]
  simp [HsMessage.header, netOrder_length, HsMessage.calls]

/-- The `memcpy` of a chunk that follows what the buffer has. -/
theorem copyInto_next (p c z : Bytes) {k : ℕ} (hk : p.length = k) :
    copyInto (p ++ z) k c = p ++ c ++ z.drop c.length := by
  subst hk
  unfold copyInto
  rw [List.take_left, ← List.drop_drop, List.drop_left]

/-- A chunk that does not complete the body. -/
theorem append_more (m : HsMessage) {k : ℕ} {c : Bytes} (hc : (m.body.drop k).take c.length = c)
    (hlt : k + c.length < m.body.length) :
    packetLogAppendHsChunk (partialState alloc m k) c = partialState alloc m (k + c.length) := by
  by_cases hnil : c = []
  · simp [hnil]
  unfold packetLogAppendHsChunk
  rw [if_neg hnil]
  have htake : m.body.take (k + c.length) = m.body.take k ++ c := by
    rw [List.take_add, hc]
  cases alloc
  · simp only [partialState, Bool.false_eq_true, if_false, Option.map_none,
      PacketLogHsState.mk.injEq, true_and, and_true]
    exact ⟨by simp; omega, by omega⟩
  · simp only [partialState, if_true, Option.map_some, PacketLogHsState.mk.injEq, true_and,
      and_true, if_pos (show k + c.length ≤ m.body.length by omega)]
    refine ⟨by simp; omega, by omega, ?_⟩
    rw [copyInto_next _ _ _ (by simp; omega), htake, List.drop_replicate,
      Nat.sub_sub]

/-- A chunk that completes the body. -/
theorem append_complete {k : ℕ} (hk : k < m.body.length) :
    packetLogAppendHsChunk (partialState true m k) (m.body.drop k) =
      ⟨false, m.hsType, 0, some m.body, m.body.length, m.body.length⟩ := by
  unfold packetLogAppendHsChunk
  rw [if_neg (by simp; omega)]
  simp only [partialState, if_true, Option.map_some, List.length_drop, PacketLogHsState.mk.injEq,
    true_and, if_pos (show k + (m.body.length - k) ≤ m.body.length by omega), Nat.sub_self]
  refine ⟨by simp, ?_, by omega⟩
  rw [copyInto_next _ _ _ (by simp; omega), List.take_append_drop]
  simp

theorem start_eq_partialState (m : HsMessage) (hm : m.body ≠ []) :
    packetLogStartHsMessage alloc m.hsType m.body.length = partialState alloc m 0 := by
  have h := List.length_pos_iff.mpr hm
  cases alloc <;> simp [packetLogStartHsMessage, partialState, h, hm]

theorem hsStep_start (hst : st.active = false) (m : HsMessage) {k : ℕ} (hk : k < m.body.length) :
    hsStep alloc st (m.header ++ m.body.take k) =
      ([.fragment m.hsType false], partialState alloc m k, none) := by
  have hm : m.body ≠ [] := by rintro h; simp [h] at hk
  have hl : (m.body.take k).length = k := by simp; omega
  have happ := append_more alloc m (k := 0) (c := m.body.take k) (by simp [hl]) (by omega)
  unfold hsStep
  rw [if_neg (by simp [hst])]
  simp only [HsMessage.header, List.cons_append, List.nil_append, netOrder_length,
    if_neg (show ¬ m.body.length ≤ (m.body.take k).length by omega),
    start_eq_partialState alloc m hm]
  rw [happ, hl, Nat.zero_add]
  rfl

theorem hsStep_short (hst : st.active = false) {h : Bytes} (hl : h.length < 4) :
    hsStep alloc st h = ([.handshakeData], st, none) := by
  unfold hsStep
  rw [if_neg (by simp [hst])]
  match h, hl with
  | [], _ | [_], _ | [_, _], _ | [_, _, _], _ => rfl

theorem hsStep_more (alloc alloc' : Bool) (m : HsMessage) {k : ℕ} {c : Bytes}
    (hc : (m.body.drop k).take c.length = c) (hlt : k + c.length < m.body.length) :
    hsStep alloc (partialState alloc' m k) c =
      ([.fragment m.hsType false], partialState alloc' m (k + c.length), none) := by
  unfold hsStep
  rw [if_pos (partialState_active _ _ _)]
  have hmin : min c.length (partialState alloc' m k).remaining = c.length := by
    simp only [partialState]; omega
  simp only [hmin, List.take_length, append_more alloc' m hc hlt]
  rfl

theorem hsStep_finish (m : HsMessage) {k : ℕ} (hk : k < m.body.length) (rest : Bytes) :
    hsStep alloc (partialState true m k) (m.body.drop k ++ rest) =
      (m.calls, resetHsState, some rest) := by
  unfold hsStep
  rw [if_pos (partialState_active _ _ _)]
  have hmin : min (m.body.drop k ++ rest).length (partialState true m k).remaining =
      (m.body.drop k).length := by
    simp only [partialState, List.length_append, List.length_drop]; omega
  simp only [hmin, List.take_left, List.drop_left, append_complete m hk]
  simp [afterChunk, packetLogFinishHsMessage, HsMessage.calls]

/-! ### A piece of the stream -/

/-- Whole messages are processed one after the other, then what follows them. -/
theorem append_stream_append (alloc : Bool) {st : PacketLogHsState} (hst : st.active = false)
    (tail : Bytes) : ∀ msgs : List HsMessage,
      packetLogAppendHandshakeBytes alloc st (stream msgs ++ tail) =
        (callsOf msgs ++ (packetLogAppendHandshakeBytes alloc st tail).1,
          (packetLogAppendHandshakeBytes alloc st tail).2)
  | [] => rfl
  | m :: msgs => by
    rw [appendHandshakeBytes_eq (by simp [HsMessage.header]), stream_cons, List.append_assoc,
      List.append_assoc, hsStep_whole alloc hst m (stream msgs ++ tail)]
    simp [append_stream_append alloc hst tail msgs]

theorem append_stream (hst : st.active = false) (msgs : List HsMessage) :
    packetLogAppendHandshakeBytes alloc st (stream msgs) = (callsOf msgs, st) := by
  simpa using append_stream_append alloc hst [] msgs

/-- How the loop leaves a piece that starts between two messages, after the messages `d`. -/
inductive Ends (alloc : Bool) (st : PacketLogHsState) (d : List HsMessage) :
    List HsMessage → Bytes → List HsCall × PacketLogHsState → Prop
  | between {todo : List HsMessage} : Ends alloc st d todo (stream d) (callsOf d, st)
  | within {m : HsMessage} {todo : List HsMessage} {k : ℕ} (hk : k < m.body.length) :
    Ends alloc st d (m :: todo) (stream d ++ (m.header ++ m.body.take k))
      (callsOf d ++ [.fragment m.hsType false], partialState alloc m k)
  | header {m : HsMessage} {todo : List HsMessage} {h : Bytes} (hpos : 0 < h.length)
      (hlt : h.length < 4) :
    Ends alloc st d (m :: todo) (stream d ++ h) (callsOf d ++ [.handshakeData], st)

theorem Ends.cons {alloc : Bool} {d todo : List HsMessage} {ch : Bytes}
    {r : List HsCall × PacketLogHsState} (h : Ends alloc st d todo ch r) :
    Ends alloc st (m :: d) todo (m.header ++ (m.body ++ ch)) (m.calls ++ r.1, r.2) := by
  cases h with
  | between => simpa using (.between : Ends alloc st (m :: d) todo _ _)
  | within hk => simpa using (.within hk : Ends alloc st (m :: d) (_ :: _) _ _)
  | header hpos hlt => simpa using (.header hpos hlt : Ends alloc st (m :: d) (_ :: _) _ _)

/-- **The loop on a piece of the stream that starts between two messages.** -/
theorem feed_between (alloc : Bool) {st : PacketLogHsState} (hst : st.active = false) :
    ∀ (todo : List HsMessage) (ch tail : Bytes), stream todo = ch ++ tail →
      ∃ d todo', todo = d ++ todo' ∧
        Ends alloc st d todo' ch (packetLogAppendHandshakeBytes alloc st ch)
  | todo, [], _, _ => ⟨[], todo, rfl, .between⟩
  | [], _ :: _, _, h => by simp at h
  | m :: todo, b :: ch, tail, h => by
    have hne : b :: ch ≠ [] := by simp
    generalize b :: ch = ch at h hne
    rw [stream_cons] at h
    have hpos : 0 < ch.length := List.length_pos_iff.mpr hne
    by_cases h4 : ch.length < 4
    · -- the piece ends in the header
      refine ⟨[], m :: todo, rfl, ?_⟩
      rw [appendHandshakeBytes_eq hne, hsStep_short alloc hst h4]
      exact .header hpos h4
    obtain ⟨c1, rfl, h1⟩ : ∃ c1, ch = m.header ++ c1 ∧ m.body ++ stream todo = c1 ++ tail := by
      obtain ⟨c, hc, ht⟩ | ⟨c, hc, ht⟩ := List.append_eq_append_iff.mp h
      · exact ⟨c, hc, ht⟩
      · have := congrArg List.length hc
        simp only [List.length_append, length_header] at this
        obtain rfl : c = [] := List.length_eq_zero_iff.mp (by omega)
        exact ⟨[], by simpa using hc.symm, by simpa using ht.symm⟩
    by_cases hb : c1.length < m.body.length
    · -- the piece ends in the body
      have hc1 : c1 = m.body.take c1.length := by
        have := congrArg (List.take c1.length) h1
        rw [List.take_append_of_le_length hb.le, List.take_left] at this
        exact this.symm
      refine ⟨[], m :: todo, rfl, ?_⟩
      rw [appendHandshakeBytes_eq hne, hc1, hsStep_start alloc hst m hb]
      simpa using (.within hb : Ends alloc st [] (m :: todo) _ _)
    · obtain ⟨c2, rfl, h2⟩ : ∃ c2, c1 = m.body ++ c2 ∧ stream todo = c2 ++ tail := by
        obtain ⟨c, hc, ht⟩ | ⟨c, hc, ht⟩ := List.append_eq_append_iff.mp h1
        · exact ⟨c, hc, ht⟩
        · have := congrArg List.length hc
          rw [List.length_append] at this
          obtain rfl : c = [] := List.length_eq_zero_iff.mp (by omega)
          exact ⟨[], by simpa using hc.symm, by simpa using ht.symm⟩
      obtain ⟨d, todo', rfl, hd⟩ := feed_between alloc hst todo c2 tail h2
      refine ⟨m :: d, todo', rfl, ?_⟩
      rw [appendHandshakeBytes_eq hne, hsStep_whole alloc hst m c2]
      exact hd.cons m
termination_by todo => todo.length

/-- **The loop on a piece that starts in the body of a message.** -/
theorem feed_within (m : HsMessage) {k : ℕ} (hk : k < m.body.length) (todo : List HsMessage)
    {ch tail : Bytes} (hne : ch ≠ []) (h : m.body.drop k ++ stream todo = ch ++ tail) :
    (k + ch.length < m.body.length ∧
      packetLogAppendHandshakeBytes alloc (partialState true m k) ch =
        ([.fragment m.hsType false], partialState true m (k + ch.length))) ∨
    ∃ c d todo', ch = m.body.drop k ++ c ∧ todo = d ++ todo' ∧
      ∃ r, Ends alloc resetHsState d todo' c r ∧
        packetLogAppendHandshakeBytes alloc (partialState true m k) ch = (m.calls ++ r.1, r.2) := by
  by_cases hl : k + ch.length < m.body.length
  · refine .inl ⟨hl, ?_⟩
    have hc : (m.body.drop k).take ch.length = ch := by
      have := congrArg (List.take ch.length) h
      rwa [List.take_append_of_le_length (by simp; omega), List.take_left] at this
    rw [appendHandshakeBytes_eq hne, hsStep_more alloc true m hc hl]
  · refine .inr ?_
    obtain ⟨c, rfl, h2⟩ : ∃ c, ch = m.body.drop k ++ c ∧ stream todo = c ++ tail := by
      obtain ⟨c, hc, ht⟩ | ⟨c, hc, ht⟩ := List.append_eq_append_iff.mp h
      · exact ⟨c, hc, ht⟩
      · have := congrArg List.length hc
        rw [List.length_append, List.length_drop] at this
        obtain rfl : c = [] := List.length_eq_zero_iff.mp (by omega)
        exact ⟨[], by simpa using hc.symm, by simpa using ht.symm⟩
    obtain ⟨d, todo', rfl, hd⟩ := feed_between alloc (rfl : resetHsState.active = false)
      todo c tail h2
    refine ⟨c, d, todo', rfl, rfl, _, hd, ?_⟩
    rw [appendHandshakeBytes_eq hne, hsStep_finish alloc m hk c]

end PapQuic.Log.Stream
