import PapQuic.Log.Stream

/-! # Reassembly from consecutive pieces

A handshake stream is cut into consecutive pieces and the pieces are given to
`packet_log_append_handshake_bytes` one after the other. The messages processed and the event mask
are those of the uncut stream exactly when no piece is a *bad* one (`BadChunk`): no piece ends
inside the four bytes of a header, and a piece that ends inside the body of a message that starts in
it finds memory for the buffer (`feedChunks_eq_whole_iff`).

A piece that is not bad leaves the log in step with the stream (`Sync`, `sync_chunk`). A bad one
loses bytes for good: what the log has processed or holds never weighs more than what it was given
(`append_weight`), and from a bad piece on it weighs less. -/

namespace PapQuic.Log.Reassembly

open Wire.Packet Log.Handshake Log.Stream

/-- A piece of the stream, and whether memory for a buffer is there when it is logged. -/
structure Chunk where
  alloc : Bool
  data : Bytes
  deriving DecidableEq, Repr

/-- The bytes of consecutive pieces. -/
def bytes (chunks : List Chunk) : Bytes := chunks.flatMap Chunk.data

/-- The pieces, logged one after the other. -/
def feedChunks : PacketLogHsState → List Chunk → List HsCall × PacketLogHsState
  | st, [] => ([], st)
  | st, c :: chunks =>
    let r := packetLogAppendHandshakeBytes c.alloc st c.data
    (r.1 ++ (feedChunks r.2 chunks).1, (feedChunks r.2 chunks).2)

theorem feedChunks_append : ∀ (a b : List Chunk) (st : PacketLogHsState),
    feedChunks st (a ++ b) = ((feedChunks st a).1 ++ (feedChunks (feedChunks st a).2 b).1,
      (feedChunks (feedChunks st a).2 b).2)
  | [], b, st => rfl
  | c :: a, b, st => by
    simp only [List.cons_append, feedChunks, feedChunks_append a b, List.append_assoc]

/-- The message a call processes. -/
def HsCall.message : HsCall → Option (UInt8 × Bytes)
  | .process hsType body => some (hsType, body)
  | _ => none

/-- The messages passed to `packet_log_process_handshake_message`. -/
def processed (calls : List HsCall) : List (UInt8 × Bytes) := calls.filterMap HsCall.message

/-- The bits a call sets in the event mask. -/
def HsCall.mask : HsCall → ℕ
  | .event hsType => packetLogEventMaskForType hsType
  | _ => 0

/-- The union of the event masks. -/
def eventMask (calls : List HsCall) : ℕ := calls.foldr (fun c m => HsCall.mask c ||| m) 0

/-- The mask that running the calls gives is the union of their masks. -/
theorem runCalls_mask (lib : Metadata.X509Lib) : ∀ (calls : List HsCall) (o : HsOut),
    (runCalls lib o calls).mask = o.mask ||| eventMask calls
  | [], o => by simp [runCalls, eventMask]
  | c :: calls, o => by
    have ih := runCalls_mask lib calls (runCall lib o c)
    have hc : (runCall lib o c).mask = o.mask ||| HsCall.mask c := by
      cases c <;> simp [runCall, HsCall.mask]
    rw [hc, Nat.or_assoc] at ih
    exact ih

@[simp] theorem processed_append (a b : List HsCall) :
    processed (a ++ b) = processed a ++ processed b := by
  simp [processed]

@[simp] theorem eventMask_append : ∀ a b : List HsCall,
    eventMask (a ++ b) = eventMask a ||| eventMask b
  | [], b => by simp [eventMask]
  | c :: a, b => by
    have ih := eventMask_append a b
    simp only [eventMask, List.cons_append, List.foldr_cons] at ih ⊢
    rw [ih, Nat.or_assoc]

theorem eventMask_fragment (t : UInt8) (noted : Bool) : eventMask [.fragment t noted] = 0 := by
  simp [eventMask, HsCall.mask]

/-- A message as it is passed on. -/
def HsMessage.pair (m : HsMessage) : UInt8 × Bytes := (m.hsType, m.body)

@[simp] theorem processed_callsOf : ∀ msgs : List HsMessage,
    processed (callsOf msgs) = msgs.map HsMessage.pair
  | [] => rfl
  | m :: msgs => by
    rw [callsOf_cons, processed_append, processed_callsOf msgs]
    rfl

/-! ### Pieces that lose bytes -/

/-- **A bad piece** of the stream of `msgs`, starting at offset `n`: it ends inside the header of a
message, or inside the body of a message whose header starts in it while memory is short. -/
def BadChunk (msgs : List HsMessage) (n : ℕ) (c : Chunk) : Prop :=
  ∃ pre m post, msgs = pre ++ m :: post ∧
    (((stream pre).length < n + c.data.length ∧ n + c.data.length < (stream pre).length + 4) ∨
      (c.alloc = false ∧ n ≤ (stream pre).length ∧ (stream pre).length + 4 ≤ n + c.data.length ∧
        n + c.data.length < (stream pre).length + 4 + m.body.length))

theorem length_stream_cons (m : HsMessage) (msgs : List HsMessage) :
    (stream (m :: msgs)).length = 4 + m.body.length + (stream msgs).length := by
  simp only [stream_cons, List.length_append, length_header]; omega

theorem length_stream_append (a b : List HsMessage) :
    (stream (a ++ b)).length = (stream a).length + (stream b).length := by simp

/-- A message of `done ++ todo` lies in `done`, or after it. -/
theorem message_cases {pre post done todo : List HsMessage} {m : HsMessage}
    (h : done ++ todo = pre ++ m :: post) :
    (stream pre).length + 4 + m.body.length ≤ (stream done).length ∨
      ∃ x, pre = done ++ x ∧ todo = x ++ m :: post := by
  obtain ⟨x, hx, ht⟩ | ⟨x, hx, ht⟩ := List.append_eq_append_iff.mp h
  · exact .inr ⟨x, hx, ht⟩
  · rcases x with _ | ⟨m', x⟩
    · exact .inr ⟨[], by simpa using hx.symm, by simpa using ht.symm⟩
    · obtain ⟨rfl, rfl⟩ := List.cons.inj ht
      refine .inl ?_
      rw [hx, length_stream_append, length_stream_cons]
      omega

variable {done todo : List HsMessage} {n : ℕ}

/-- A piece that ends between two messages is not bad. -/
theorem not_bad_between {c : Chunk} (hp : n + c.data.length = (stream done).length) :
    ¬ BadChunk (done ++ todo) n c := by
  rintro ⟨pre, m, post, h, hb⟩
  rcases message_cases h with hl | ⟨x, rfl, -⟩
  · omega
  · rw [length_stream_append] at hb
    omega

/-- A piece that ends in a body is not bad when there is a buffer for the message already, or
memory for one. -/
theorem not_bad_within {m : HsMessage} {n k : ℕ} {c : Chunk} (hk : k < m.body.length)
    (hp : n + c.data.length = (stream done).length + 4 + k)
    (ha : c.alloc = true ∨ (stream done).length < n) : ¬ BadChunk (done ++ m :: todo) n c := by
  rintro ⟨pre, m', post, h, hb⟩
  rcases message_cases h with hl | ⟨x, rfl, hx⟩
  · omega
  · rw [length_stream_append] at hb
    rcases x with _ | ⟨m'', x⟩
    · obtain ⟨rfl, -⟩ := List.cons.inj hx
      rcases ha with ha | ha
      · rw [ha] at hb; simp at hb; omega
      · simp at hb; omega
    · obtain ⟨rfl, -⟩ := List.cons.inj hx
      rw [length_stream_cons] at hb
      omega

/-! ### What the log weighs -/

/-- The bytes of the stream that a call accounts for: a processed message and its header. -/
def HsCall.weight : HsCall → ℕ
  | .process _ body => 4 + body.length
  | _ => 0

def weight (calls : List HsCall) : ℕ := (calls.map HsCall.weight).sum

/-- The bytes of the stream that a state with a buffer holds. -/
def held (st : PacketLogHsState) : ℕ :=
  if st.active = true ∧ st.buffer.isSome then 4 + st.collected else 0

/-- The counters of a state agree with each other. -/
structure Agrees (st : PacketLogHsState) : Prop where
  remaining_pos : st.active = true → 0 < st.remaining
  total : st.active = true → st.collected + st.remaining = st.totalLen
  buffer_length : st.active = true → ∀ b, st.buffer = some b → b.length = st.totalLen

@[simp] theorem weight_append (a b : List HsCall) : weight (a ++ b) = weight a + weight b := by
  simp [weight]

/-- Only the processed messages matter for the weight. -/
theorem weight_eq : ∀ calls : List HsCall,
    weight calls = ((processed calls).map fun p => 4 + p.2.length).sum
  | [] => rfl
  | c :: calls => by
    have ih := weight_eq calls
    simp only [weight, List.map_cons, List.sum_cons] at ih ⊢
    rw [ih]
    cases c <;> simp [processed, List.filterMap_cons, HsCall.message, HsCall.weight]

theorem weight_callsOf : ∀ msgs : List HsMessage, weight (callsOf msgs) = (stream msgs).length
  | [] => rfl
  | m :: msgs => by
    have ih := weight_callsOf msgs
    have hm : weight m.calls = 4 + m.body.length := by
      simp [weight, HsMessage.calls, HsCall.weight]
    rw [callsOf_cons, weight_append, ih, length_stream_cons, hm]

variable {st : PacketLogHsState}

theorem held_inactive (h : st.active = false) : held st = 0 := by
  simp [held, h]

theorem agrees_inactive (h : st.active = false) : Agrees st := by
  constructor <;> simp [h]

theorem length_copyInto {b c : Bytes} {k : ℕ} (h : k + c.length ≤ b.length) :
    (copyInto b k c).length = b.length := by
  simp only [copyInto, List.length_append, List.length_take, List.length_drop]; omega

/-- What `afterChunk` does to a state of agreeing counters that may have come to its end. -/
theorem afterChunk_weight {st st' : PacketLogHsState} {rest : Bytes} {r : Option Bytes}
    {calls : List HsCall} (hact : st.active = decide (0 < st.remaining))
    (htot : st.collected + st.remaining = st.totalLen)
    (hbuf : ∀ b, st.buffer = some b → b.length = st.totalLen)
    (h : afterChunk st rest = (calls, st', r)) :
    Agrees st' ∧ weight calls + held st' ≤ (if st.buffer.isSome then 4 + st.collected else 0) ∧
      (r.getD []).length ≤ rest.length := by
  unfold afterChunk at h
  split_ifs at h with ha
  · cases h
    rw [hact, decide_eq_true_eq] at ha
    refine ⟨⟨fun _ => ha, fun _ => htot, fun _ => hbuf⟩, ?_, by simp⟩
    simp [weight, HsCall.weight, held, hact, ha]
  · cases h
    have h0 : st.remaining = 0 := by simpa [hact] using ha
    refine ⟨agrees_inactive rfl, ?_, by simp⟩
    rw [held_inactive rfl]
    rcases hb : st.buffer with _ | b
    · simp [packetLogFinishHsMessage, hb, weight, HsCall.weight]
    · have hl := hbuf b hb
      have hc : st.totalLen = st.collected := by omega
      simp [packetLogFinishHsMessage, hb, hc, weight, HsCall.weight]
      omega

/-- A chunk keeps the counters in agreement. -/
theorem appendChunk_counters (st : PacketLogHsState) (c : Bytes) (hc : c.length ≤ st.remaining)
    (hact : st.active = decide (0 < st.remaining))
    (htot : st.collected + st.remaining = st.totalLen)
    (hbuf : ∀ b, st.buffer = some b → b.length = st.totalLen) :
    let s := packetLogAppendHsChunk st c
    s.active = decide (0 < s.remaining) ∧ s.collected + s.remaining = s.totalLen ∧
      (∀ b, s.buffer = some b → b.length = s.totalLen) ∧
      s.buffer.isSome = st.buffer.isSome ∧ s.collected = st.collected + c.length := by
  by_cases hnil : c = []
  · subst hnil
    simpa using ⟨hact, htot, hbuf⟩
  simp only [packetLogAppendHsChunk, if_neg hnil]
  refine ⟨trivial, by omega, ?_, by simp, trivial⟩
  intro b hb
  obtain ⟨b', hb', rfl⟩ := Option.map_eq_some_iff.mp hb
  have hl := hbuf b' hb'
  rw [if_pos (by omega), length_copyInto (by omega), hl]

theorem length_startBuffer (alloc : Bool) (t : UInt8) (n : ℕ) (b : Bytes)
    (hb : (packetLogStartHsMessage alloc t n).buffer = some b) :
    b.length = (packetLogStartHsMessage alloc t n).totalLen := by
  simp only [packetLogStartHsMessage] at hb ⊢
  split_ifs at hb
  cases hb
  simp

/-- **A round never gains weight.** -/
theorem hsStep_weight {alloc : Bool} {st st' : PacketLogHsState} {data : Bytes}
    {calls : List HsCall} {r : Option Bytes} (hst : Agrees st)
    (h : hsStep alloc st data = (calls, st', r)) :
    Agrees st' ∧ weight calls + held st' + (r.getD []).length ≤ held st + data.length := by
  unfold hsStep at h
  split_ifs at h with ha
  · have hact : st.active = decide (0 < st.remaining) := by
      rw [ha, eq_comm, decide_eq_true_eq]; exact hst.remaining_pos ha
    have hlen : (data.take (min data.length st.remaining)).length =
        min data.length st.remaining := by
      simp
    obtain ⟨h1, h2, h3, h4, h5⟩ := appendChunk_counters st
      (data.take (min data.length st.remaining)) (by omega) hact (hst.total ha)
      (hst.buffer_length ha)
    obtain ⟨hA, hw, hr⟩ := afterChunk_weight h1 h2 h3 h
    refine ⟨hA, ?_⟩
    rw [h4, h5, hlen] at hw
    rw [List.length_drop] at hr
    simp only [held, ha, true_and] at hw ⊢
    split_ifs at hw ⊢ <;> omega
  · rw [Bool.not_eq_true] at ha
    split at h
    · rename_i t b1 b2 b3 data
      simp only at h
      split_ifs at h with hl
      · cases h
        refine ⟨hst, ?_⟩
        simp [weight, HsCall.weight, held_inactive ha]
        omega
      · set n := netOrder [b1, b2, b3]
        have hn : 0 < n := by omega
        obtain ⟨h1, h2, h3, h4, h5⟩ := appendChunk_counters
          (packetLogStartHsMessage alloc t n) data (by simp [packetLogStartHsMessage]; omega) rfl
          (by simp [packetLogStartHsMessage]) (length_startBuffer alloc t n)
        obtain ⟨hA, hw, hr⟩ := afterChunk_weight h1 h2 h3 h
        refine ⟨hA, ?_⟩
        have hc0 : (packetLogStartHsMessage alloc t n).collected = 0 := rfl
        rw [h5, hc0] at hw
        simp only [List.length_nil, Nat.le_zero] at hr
        simp only [held_inactive ha, List.length_cons]
        split_ifs at hw <;> omega
    · cases h
      refine ⟨hst, ?_⟩
      simp [weight, HsCall.weight, held_inactive ha]

/-- **What the log has processed and holds never weighs more than what it was given.** -/
theorem append_weight (alloc : Bool) : ∀ (n : ℕ) (st : PacketLogHsState) (data : Bytes),
    data.length ≤ n → Agrees st →
    Agrees (packetLogAppendHandshakeBytes alloc st data).2 ∧
      weight (packetLogAppendHandshakeBytes alloc st data).1 +
        held (packetLogAppendHandshakeBytes alloc st data).2 ≤ held st + data.length
  | _, st, [], _, hst => ⟨hst, by simp [weight]⟩
  | 0, _, _ :: _, hn, _ => by simp at hn
  | n + 1, st, b :: data, hn, hst => by
    rw [appendHandshakeBytes_eq (List.cons_ne_nil b data)]
    rcases hs : hsStep alloc st (b :: data) with ⟨calls, st', _ | rest⟩
    · obtain ⟨hA, hw⟩ := hsStep_weight hst hs
      exact ⟨hA, by simpa using hw⟩
    · obtain ⟨hA, hw⟩ := hsStep_weight hst hs
      have hl := hsStep_length (List.cons_ne_nil b data) hs
      rw [List.length_cons] at hl hn
      obtain ⟨hA', hw'⟩ := append_weight alloc n st' rest (by omega) hA
      refine ⟨hA', ?_⟩
      simp only [Option.getD_some] at hw
      simp only [weight_append]
      omega

theorem feedChunks_weight : ∀ (chunks : List Chunk) (st : PacketLogHsState), Agrees st →
    weight (feedChunks st chunks).1 ≤ held st + (bytes chunks).length
  | [], st, _ => by simp [feedChunks, weight]
  | c :: chunks, st, hst => by
    obtain ⟨hA, hw⟩ := append_weight c.alloc _ st c.data le_rfl hst
    have ih := feedChunks_weight chunks _ hA
    simp only [feedChunks, weight_append, bytes, List.flatMap_cons, List.length_append] at ih ⊢
    omega

/-! ### In step with the stream -/

/-- The log is in step with the stream of `done ++ todo` at offset `n`: `done` is processed, and the
state holds what has come of the first message of `todo`. -/
inductive Sync : PacketLogHsState → List HsMessage → List HsMessage → ℕ → Prop
  | between {st : PacketLogHsState} {done todo : List HsMessage} (hst : st.active = false) :
    Sync st done todo (stream done).length
  | within {m : HsMessage} {done todo : List HsMessage} {k : ℕ} (hk : k < m.body.length) :
    Sync (partialState true m k) done (m :: todo) ((stream done).length + 4 + k)

theorem Sync.held_eq (h : Sync st done todo n) : (stream done).length + held st = n := by
  cases h with
  | between hst => rw [held_inactive hst]; rfl
  | within hk => simp [held, partialState]; omega

theorem Sync.agrees (h : Sync st done todo n) : Agrees st := by
  cases h with
  | between hst => exact agrees_inactive hst
  | within hk =>
    refine ⟨fun _ => ?_, fun _ => ?_, fun _ b hb => ?_⟩
    · simp only [partialState]; omega
    · simp only [partialState]; omega
    · simp only [partialState, if_true, Option.some.injEq] at hb ⊢
      rw [← hb]
      simp; omega

/-- What one piece does to a log in step: it stays in step, or the piece is bad and loses weight. -/
def ChunkResult (st : PacketLogHsState) (done todo : List HsMessage) (n : ℕ) (c : Chunk) : Prop :=
  let r := packetLogAppendHandshakeBytes c.alloc st c.data
  (¬ BadChunk (done ++ todo) n c ∧ ∃ d todo', todo = d ++ todo' ∧
      Sync r.2 (done ++ d) todo' (n + c.data.length) ∧ processed r.1 = d.map HsMessage.pair ∧
      eventMask r.1 = eventMask (callsOf d)) ∨
    (BadChunk (done ++ todo) n c ∧ weight r.1 + held r.2 < held st + c.data.length)

@[simp] theorem held_unbuffered (m : HsMessage) (k : ℕ) : held (partialState false m k) = 0 := by
  simp [held, partialState]

/-- How a piece ends decides whether it is bad. -/
theorem ends_result {done d todo : List HsMessage} {ch : Bytes} {c : Chunk}
    {r : List HsCall × PacketLogHsState} (hst : st.active = false) (hn : n ≤ (stream done).length)
    (hp : n + c.data.length = (stream done).length + ch.length) (h : Ends c.alloc st d todo ch r) :
    (¬ BadChunk (done ++ (d ++ todo)) n c ∧ Sync r.2 (done ++ d) todo (n + c.data.length) ∧
      processed r.1 = d.map HsMessage.pair ∧ eventMask r.1 = eventMask (callsOf d)) ∨
    (BadChunk (done ++ (d ++ todo)) n c ∧ weight r.1 + held r.2 < ch.length) := by
  rw [← List.append_assoc]
  cases h with
  | between =>
    rw [← length_stream_append] at hp
    refine .inl ⟨not_bad_between hp, ?_, processed_callsOf d, rfl⟩
    rw [hp]
    exact .between hst
  | @within m todo k hk =>
    have hl : (m.body.take k).length = k := by simp; omega
    have hp' : n + c.data.length = (stream (done ++ d)).length + 4 + k := by
      simp only [List.length_append, length_header, hl, stream_append] at hp ⊢
      omega
    rcases ha : c.alloc with _ | _
    · refine .inr ⟨⟨done ++ d, m, todo, rfl, .inr ⟨ha, ?_, ?_, ?_⟩⟩, ?_⟩
      · rw [length_stream_append]; omega
      · omega
      · omega
      · simp only [weight_append, weight_callsOf, held_unbuffered, List.length_append,
          length_header, hl]
        simp only [weight, HsCall.weight, List.map_cons, List.map_nil, List.sum_cons, List.sum_nil]
        omega
    · refine .inl ⟨not_bad_within hk hp' (.inl ha), ?_, ?_, ?_⟩
      · rw [hp']; exact .within hk
      · rw [processed_append, processed_callsOf]; exact List.append_nil _
      · rw [eventMask_append, eventMask_fragment, Nat.or_zero]
  | @header m todo h hpos hlt =>
    simp only [List.length_append] at hp
    refine .inr ⟨⟨done ++ d, m, todo, rfl, .inl ⟨?_, ?_⟩⟩, ?_⟩
    · rw [length_stream_append]; omega
    · rw [length_stream_append]; omega
    · simp only [weight_append, weight_callsOf, held_inactive hst, List.length_append]
      simp only [weight, HsCall.weight, List.map_cons, List.map_nil, List.sum_cons, List.sum_nil]
      omega

/-- **One piece, from a log in step with the stream.** -/
theorem sync_chunk {c : Chunk} {tail : Bytes} (hs : Sync st done todo n)
    (hc : (stream (done ++ todo)).drop n = c.data ++ tail) : ChunkResult st done todo n c := by
  unfold ChunkResult
  rw [stream_append] at hc
  cases hs with
  | between hst =>
    rw [List.drop_left] at hc
    obtain ⟨d, todo', rfl, he⟩ := feed_between c.alloc hst todo c.data tail hc
    rcases ends_result hst le_rfl rfl he with ⟨hb, hy, hpr, hev⟩ | ⟨hb, hw⟩
    · exact .inl ⟨hb, d, todo', rfl, hy, hpr, hev⟩
    · exact .inr ⟨hb, by rw [held_inactive hst]; omega⟩
  | @within m _ todo k hk =>
    by_cases hne : c.data = []
    · rw [hne, appendHandshakeBytes_nil]
      exact .inl ⟨not_bad_within hk (by simp [hne]) (.inr (by omega)), [], m :: todo, rfl,
        by simpa using .within hk, rfl, rfl⟩
    rw [Nat.add_assoc, ← List.drop_drop, List.drop_left, stream_cons, ← length_header m,
      ← List.drop_drop, List.drop_left, List.drop_append_of_le_length hk.le] at hc
    have hheld : held (partialState true m k) = 4 + k := by simp [held, partialState]
    rcases feed_within c.alloc m hk todo hne hc with
      ⟨hl, hr⟩ | ⟨ch, d, todo', hcd, rfl, r, he, hr⟩
    · -- the message goes on after the piece
      rw [hr]
      refine .inl ⟨not_bad_within hl (by omega) (.inr (by omega)), [], m :: todo, rfl, ?_, rfl,
        eventMask_fragment _ _⟩
      rw [List.append_nil, show (stream done).length + 4 + k + c.data.length =
        (stream done).length + 4 + (k + c.data.length) by omega]
      exact .within hl
    · -- the message ends in the piece, and from there on the piece starts between two messages
      have hlen := congrArg List.length hcd
      rw [List.length_append, List.length_drop] at hlen
      have hsd : (stream (done ++ [m])).length = (stream done).length + 4 + m.body.length := by
        rw [length_stream_append, length_stream_cons]; simp; omega
      have hm : weight m.calls = 4 + m.body.length := by
        simp [weight, HsMessage.calls, HsCall.weight]
      have hn' : (stream done).length + 4 + k ≤ (stream (done ++ [m])).length := by omega
      have hp' : (stream done).length + 4 + k + c.data.length =
          (stream (done ++ [m])).length + ch.length := by omega
      rw [hr]
      have hassoc : done ++ m :: (d ++ todo') = done ++ [m] ++ (d ++ todo') := by simp
      rw [hassoc]
      rcases ends_result (rfl : resetHsState.active = false) hn' hp' he
        with ⟨hb, hy, hpr, hev⟩ | ⟨hb, hw⟩
      · refine .inl ⟨hb, m :: d, todo', rfl, ?_, ?_, ?_⟩
        · simpa using hy
        · rw [processed_append, hpr]; rfl
        · rw [eventMask_append, hev, callsOf_cons, eventMask_append]
      · refine .inr ⟨hb, ?_⟩
        rw [weight_append, hm, hheld]
        dsimp only
        omega

/-! ### All pieces -/

theorem Sync.le (h : Sync st done todo n) : n ≤ (stream (done ++ todo)).length := by
  rw [length_stream_append]
  cases h with
  | between hst => omega
  | within hk => rw [length_stream_cons]; omega

/-- A log in step at the end of the stream has nothing left to process. -/
theorem Sync.todo_eq_nil (h : Sync st done todo n) (hn : (stream (done ++ todo)).length ≤ n) :
    todo = [] := by
  rw [length_stream_append] at hn
  cases h with
  | between hst =>
    rcases todo with _ | ⟨m, todo⟩
    · rfl
    · rw [length_stream_cons] at hn; omega
  | within hk => rw [length_stream_cons] at hn; omega

/-- No piece is bad, the first one starting at offset `n`. -/
def NoBadChunk (msgs : List HsMessage) (n : ℕ) (chunks : List Chunk) : Prop :=
  ∀ pre c post, chunks = pre ++ c :: post → ¬ BadChunk msgs (n + (bytes pre).length) c

theorem noBadChunk_cons {msgs : List HsMessage} {c : Chunk} {chunks : List Chunk} :
    NoBadChunk msgs n (c :: chunks) ↔
      ¬ BadChunk msgs n c ∧ NoBadChunk msgs (n + c.data.length) chunks := by
  constructor
  · intro h
    refine ⟨by simpa [bytes] using h [] c chunks rfl, fun pre c' post e => ?_⟩
    have := h (c :: pre) c' post (by rw [e]; rfl)
    rwa [bytes, List.flatMap_cons, List.length_append, ← Nat.add_assoc] at this
  · rintro ⟨h1, h2⟩ pre c' post e
    rcases pre with _ | ⟨c'', pre⟩
    · obtain ⟨rfl, -⟩ := List.cons.inj e
      simpa [bytes] using h1
    · obtain ⟨rfl, e'⟩ := List.cons.inj e
      rw [bytes, List.flatMap_cons, List.length_append, ← Nat.add_assoc]
      exact h2 pre c' post e'

theorem weight_of_processed {calls : List HsCall} {msgs : List HsMessage}
    (h : processed calls = msgs.map HsMessage.pair) : weight calls = (stream msgs).length := by
  rw [weight_eq, h, ← processed_callsOf, ← weight_eq, weight_callsOf]

/-- **All pieces, from a log in step with the stream.** The messages to come are processed exactly
when no piece is bad, and then the masks are theirs. -/
theorem feedChunks_sync : ∀ (chunks : List Chunk) (st : PacketLogHsState)
    (done todo : List HsMessage) (n : ℕ), Sync st done todo n →
    (stream (done ++ todo)).drop n = bytes chunks →
    (processed (feedChunks st chunks).1 = todo.map HsMessage.pair ↔
      NoBadChunk (done ++ todo) n chunks) ∧
    (NoBadChunk (done ++ todo) n chunks →
      eventMask (feedChunks st chunks).1 = eventMask (callsOf todo))
  | [], st, done, todo, n, hs, hb => by
    obtain rfl := hs.todo_eq_nil (by simpa [bytes] using hb)
    refine ⟨⟨fun _ pre c post e => by simp at e, fun _ => rfl⟩, fun _ => rfl⟩
  | c :: chunks, st, done, todo, n, hs, hb => by
    rw [noBadChunk_cons]
    have hb' : (stream (done ++ todo)).drop n = c.data ++ bytes chunks := hb
    rcases sync_chunk hs hb' with ⟨hgood, d, todo', rfl, hy, hpr, hev⟩ | ⟨hbad, hw⟩
    · rw [← List.append_assoc] at hb' hgood ⊢
      have hrest : (stream (done ++ d ++ todo')).drop (n + c.data.length) = bytes chunks := by
        rw [← List.drop_drop, hb', List.drop_left]
      obtain ⟨ih1, ih2⟩ := feedChunks_sync chunks _ _ _ _ hy hrest
      constructor
      · rw [feedChunks, processed_append, hpr, List.map_append, List.append_right_inj, ih1]
        exact ⟨fun h => ⟨hgood, h⟩, fun h => h.2⟩
      · rintro ⟨-, h⟩
        rw [feedChunks, eventMask_append, hev, ih2 h, ← eventMask_append]
        simp [callsOf]
    · refine ⟨⟨fun h => ?_, fun h => absurd hbad h.1⟩, fun h => absurd hbad h.1⟩
      -- the bytes the bad piece loses are missing in the weight of what is processed
      exfalso
      have hA := (append_weight c.alloc _ st c.data le_rfl hs.agrees).1
      have hrest := feedChunks_weight chunks _ hA
      have hwt := weight_of_processed h
      rw [feedChunks, weight_append] at hwt
      have hlen := congrArg List.length hb'
      rw [List.length_drop, List.length_append, length_stream_append] at hlen
      have hle := hs.le
      have hheld := hs.held_eq
      rw [length_stream_append] at hle
      omega

/-- **Pieces and the uncut stream.** Logged piece by piece, a handshake stream gives the same
processed messages and the same event mask as in one piece exactly when no piece is bad. -/
theorem feedChunks_eq_whole_iff (msgs : List HsMessage) (chunks : List Chunk) (alloc : Bool)
    (h : bytes chunks = stream msgs) :
    (processed (feedChunks resetHsState chunks).1 =
        processed (packetLogAppendHandshakeBytes alloc resetHsState (stream msgs)).1 ∧
      eventMask (feedChunks resetHsState chunks).1 =
        eventMask (packetLogAppendHandshakeBytes alloc resetHsState (stream msgs)).1) ↔
    ∀ pre c post, chunks = pre ++ c :: post → ¬ BadChunk msgs (bytes pre).length c := by
  have hsync : Sync resetHsState [] msgs 0 := .between rfl
  obtain ⟨h1, h2⟩ := feedChunks_sync chunks _ _ _ _ hsync (by simpa using h.symm)
  simp only [NoBadChunk, Nat.zero_add, List.nil_append] at h1 h2
  rw [append_stream alloc rfl, processed_callsOf]
  exact ⟨fun h => h1.mp h.1, fun h => ⟨h1.mpr h, h2 h⟩⟩

/-- Where no piece is bad, the log comes out of the pieces with the event mask of the uncut
stream. -/
theorem mask_feedChunks {msgs : List HsMessage} {chunks : List Chunk}
    (h : bytes chunks = stream msgs)
    (hgood : ∀ pre c post, chunks = pre ++ c :: post → ¬ BadChunk msgs (bytes pre).length c)
    (lib : Metadata.X509Lib) (alloc : Bool) (o : HsOut) :
    (runCalls lib o (feedChunks resetHsState chunks).1).mask =
      (runCalls lib o (packetLogAppendHandshakeBytes alloc resetHsState (stream msgs)).1).mask := by
  have hsync : Sync resetHsState [] msgs 0 := .between rfl
  have hmask := (feedChunks_sync chunks _ _ _ _ hsync (by simpa using h.symm)).2
  simp only [NoBadChunk, Nat.zero_add, List.nil_append] at hmask
  rw [runCalls_mask, runCalls_mask, append_stream alloc rfl, hmask hgood]

/-- A Finished message with a body of one byte. -/
def finishedOne : HsMessage := ⟨20, [7], by decide⟩

theorem feedChunks_eq_whole_iff_body :
    bytes [⟨true, [20, 0, 0, 1]⟩, ⟨true, [7]⟩] = stream [finishedOne] ∧
      ((processed (feedChunks resetHsState [⟨true, [20, 0, 0, 1]⟩, ⟨true, [7]⟩]).1 =
          processed (packetLogAppendHandshakeBytes true resetHsState (stream [finishedOne])).1 ∧
        eventMask (feedChunks resetHsState [⟨true, [20, 0, 0, 1]⟩, ⟨true, [7]⟩]).1 =
          eventMask (packetLogAppendHandshakeBytes true resetHsState (stream [finishedOne])).1) ↔
      ∀ pre c post, [⟨true, [20, 0, 0, 1]⟩, ⟨true, [7]⟩] = pre ++ c :: post →
        ¬ BadChunk [finishedOne] (bytes pre).length c) :=
  ⟨by decide, feedChunks_eq_whole_iff _ _ _ (by decide)⟩

/-- Cut inside its header, the message is lost. -/
theorem feedChunks_header_cut :
    bytes [⟨true, [20, 0]⟩, ⟨true, [0, 1, 7]⟩] = stream [finishedOne] ∧
      processed (feedChunks resetHsState [⟨true, [20, 0]⟩, ⟨true, [0, 1, 7]⟩]).1 ≠
        processed (packetLogAppendHandshakeBytes true resetHsState (stream [finishedOne])).1 := by
  decide

end PapQuic.Log.Reassembly
