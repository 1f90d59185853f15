import PapQuic.Log.Reassembly

/-! # The state of a partial message

What `PACKET_LOG_HS_STATE` is after any calls of `packet_log_append_handshake_bytes`, whatever bytes
a peer sends and whether or not there is memory for a buffer. Between calls it is idle, or it waits
for the rest of a message whose header and first bytes are the last bytes that came (`Valid`).

* `Collects`: what holds while a message is collected, also when its last byte has just come.
* `hsStep_round`: what a round of the loop does from a valid state. A round that goes on has taken a
  byte and leaves the state idle.
* `Runs`: the loop, run to its end. `runs_append` gives the end for every valid state, and
  `hsState_invariant` puts it all together for every sequence of calls. -/

namespace PapQuic.Log.HsState

open Wire.Packet Log.Handshake Log.Reassembly

/-! ### The invariant -/

/-- The state that `packet_log_reset_hs_state` leaves. -/
structure Idle (st : PacketLogHsState) : Prop where
  active : st.active = false
  remaining : st.remaining = 0
  totalLen : st.totalLen = 0
  collected : st.collected = 0
  buffer : st.buffer = none

/-- **A message is collected**: `fed` is all that has come, and it ends with the header of the
message and the bytes of its body that are in the buffer, if there is one. -/
structure Collects (fed : Bytes) (st : PacketLogHsState) : Prop where
  active : st.active = decide (0 < st.remaining)
  total : st.collected + st.remaining = st.totalLen
  totalLen_lt : st.totalLen < 2 ^ 24
  size : ∀ b, st.buffer = some b → b.length = st.totalLen
  seen : ∃ before b1 b2 b3 body, fed = before ++ [st.hsType, b1, b2, b3] ++ body ∧
    netOrder [b1, b2, b3] = st.totalLen ∧ body.length = st.collected ∧
    ∀ b, st.buffer = some b → b.take st.collected = body

/-- **The invariant** between calls. -/
def Valid (fed : Bytes) (st : PacketLogHsState) : Prop :=
  Idle st ∨ st.active = true ∧ 0 < st.remaining ∧ Collects fed st

theorem idle_reset : Idle resetHsState := ⟨rfl, rfl, rfl, rfl, rfl⟩

variable {st : PacketLogHsState}

theorem Valid.idle {fed : Bytes} (h : Valid fed st) (ha : st.active = false) : Idle st := by
  rcases h with h | ⟨hact, -⟩
  · exact h
  · rw [ha] at hact
    cases hact

theorem Valid.collects {fed : Bytes} (h : Valid fed st) (ha : st.active = true) :
    Collects fed st := by
  rcases h with h | ⟨-, -, h⟩
  · rw [h.active] at ha
    cases ha
  · exact h

theorem Collects.remaining_pos {fed : Bytes} (h : Collects fed st) (ha : st.active = true) :
    0 < st.remaining := by
  rw [h.active] at ha
  exact of_decide_eq_true ha

theorem collects_start (alloc : Bool) (before : Bytes) (hsType b1 b2 b3 : UInt8) :
    Collects (before ++ [hsType, b1, b2, b3])
      (packetLogStartHsMessage alloc hsType (netOrder [b1, b2, b3])) where
  active := rfl
  total := Nat.zero_add _
  totalLen_lt := netOrder_lt [b1, b2, b3]
  size := length_startBuffer alloc hsType _
  seen := ⟨before, b1, b2, b3, [], by simp [packetLogStartHsMessage], rfl, rfl,
    fun _ _ => List.take_zero⟩

theorem take_copyInto {b c : Bytes} {k : ℕ} (h : k ≤ b.length) :
    (copyInto b k c).take (k + c.length) = b.take k ++ c := by
  have hl : (b.take k ++ c).length = k + c.length := by
    rw [List.length_append, List.length_take, Nat.min_eq_left h]
  rw [copyInto, ← hl, List.take_left]

/-- A chunk that is not longer than what is missing. -/
theorem Collects.append {fed : Bytes} (h : Collects fed st) (chunk : Bytes)
    (hc : chunk.length ≤ st.remaining) :
    Collects (fed ++ chunk) (packetLogAppendHsChunk st chunk) := by
  by_cases hnil : chunk = []
  · rw [hnil, List.append_nil, packetLogAppendHsChunk_nil]
    exact h
  obtain ⟨hact, htotal, hsize, -, hcollected⟩ :=
    appendChunk_counters st chunk hc h.active h.total h.size
  obtain ⟨before, b1, b2, b3, body, hfed, hlen, hbody, hbuf⟩ := h.seen
  have hsame : (packetLogAppendHsChunk st chunk).totalLen = st.totalLen ∧
      (packetLogAppendHsChunk st chunk).hsType = st.hsType := by
    rw [packetLogAppendHsChunk, if_neg hnil]
    exact ⟨rfl, rfl⟩
  refine ⟨hact, htotal, by rw [hsame.1]; exact h.totalLen_lt, hsize,
    before, b1, b2, b3, body ++ chunk, ?_, ?_, ?_, ?_⟩
  · rw [hfed, hsame.2, List.append_assoc _ body]
  · rw [hsame.1, hlen]
  · rw [hcollected, List.length_append, hbody]
  · intro b hb
    rw [packetLogAppendHsChunk, if_neg hnil] at hb
    obtain ⟨b', hb', rfl⟩ := Option.map_eq_some_iff.mp hb
    have htot := h.total
    have hl := h.size b' hb'
    rw [hcollected, if_pos (by omega), take_copyInto (by omega), hbuf b' hb']

/-! ### Rounds -/

/-- A `memcpy` into the buffer: its place and length, the length of the buffer and that of the
message. -/
structure Copy where
  at_ : ℕ
  len : ℕ
  size : ℕ
  totalLen : ℕ

/-- It stays within the message, and the buffer is as long as the message. -/
def Copy.Within (c : Copy) : Prop := c.at_ + c.len ≤ c.totalLen ∧ c.size = c.totalLen

/-- The `memcpy` of `packet_log_append_hs_chunk`, if there is one. -/
def chunkCopy (st : PacketLogHsState) (chunk : Bytes) : Option Copy :=
  if chunk ≠ [] ∧ st.collected + chunk.length ≤ st.totalLen then
    st.buffer.map fun b => ⟨st.collected, chunk.length, b.length, st.totalLen⟩
  else none

/-- The `memcpy` in a round of the loop, if there is one. -/
def roundCopy (alloc : Bool) (st : PacketLogHsState) (data : Bytes) : Option Copy :=
  if st.active then chunkCopy st (data.take (min data.length st.remaining))
  else
    match data with
    | hsType :: b1 :: b2 :: b3 :: data =>
      if netOrder [b1, b2, b3] ≤ data.length then none
      else chunkCopy (packetLogStartHsMessage alloc hsType (netOrder [b1, b2, b3])) data
    | _ => none

/-- A round that starts a message and finds it finished at once. -/
def FinishesAtOnce (alloc : Bool) (st : PacketLogHsState) (data : Bytes) : Prop :=
  st.active = false ∧ ∃ hsType b1 b2 b3 body, data = hsType :: b1 :: b2 :: b3 :: body ∧
    ¬ netOrder [b1, b2, b3] ≤ body.length ∧
    (packetLogAppendHsChunk
      (packetLogStartHsMessage alloc hsType (netOrder [b1, b2, b3])) body).active = false

/-- The buffer after a chunk is the one before it with the copy made, if there is one. -/
theorem buffer_append (st : PacketLogHsState) (chunk : Bytes) :
    (packetLogAppendHsChunk st chunk).buffer = st.buffer.map fun b =>
      ((chunkCopy st chunk).map fun c => copyInto b c.at_ chunk).getD b := by
  by_cases hnil : chunk = []
  · simp [hnil, packetLogAppendHsChunk_nil, chunkCopy]
  · rw [packetLogAppendHsChunk, if_neg hnil, chunkCopy]
    rcases st.buffer with _ | b
    · rfl
    · split_ifs <;> simp_all

/-- The round that has a copy appends a chunk, and its copy is that of the chunk. -/
theorem hsStep_of_roundCopy {alloc : Bool} {data : Bytes} {c : Copy}
    (h : roundCopy alloc st data = some c) : ∃ st₀ chunk rest, chunkCopy st₀ chunk = some c ∧
      hsStep alloc st data = afterChunk (packetLogAppendHsChunk st₀ chunk) rest := by
  unfold roundCopy at h
  unfold hsStep
  by_cases ha : st.active = true
  · rw [if_pos ha] at h ⊢
    exact ⟨_, _, _, h, rfl⟩
  · rw [if_neg ha] at h ⊢
    split at h
    · split_ifs at h with hle
      simp only [if_neg hle]
      exact ⟨_, _, _, h, rfl⟩
    · cases h

/-- A message that is finished at once would be processed in the round that starts it. -/
theorem hsStep_of_finishesAtOnce {alloc : Bool} {data : Bytes} (h : FinishesAtOnce alloc st data) :
    ∃ calls, hsStep alloc st data = (calls, resetHsState, some []) := by
  obtain ⟨ha, hsType, b1, b2, b3, body, rfl, hlt, hact⟩ := h
  simp only [hsStep, ha, Bool.false_eq_true, if_false, if_neg hlt, afterChunk, hact]
  exact ⟨_, rfl⟩

theorem Collects.within {fed chunk : Bytes} (h : Collects fed st) :
    ∀ c ∈ chunkCopy st chunk, c.Within := by
  intro c hc
  unfold chunkCopy at hc
  split_ifs at hc with hle
  · obtain ⟨b, hb, rfl⟩ := Option.map_eq_some_iff.mp hc
    exact ⟨hle.2, h.size b hb⟩
  · cases hc

theorem remaining_append (st : PacketLogHsState) (chunk : Bytes) :
    (packetLogAppendHsChunk st chunk).remaining = st.remaining - chunk.length := by
  by_cases hnil : chunk = []
  · rw [hnil, packetLogAppendHsChunk_nil]
    rfl
  · rw [packetLogAppendHsChunk, if_neg hnil]

theorem not_finishesAtOnce (alloc : Bool) (st : PacketLogHsState) (data : Bytes) :
    ¬ FinishesAtOnce alloc st data := by
  rintro ⟨-, hsType, b1, b2, b3, body, -, hlt, hact⟩
  have hstart := collects_start alloc [] hsType b1 b2 b3
  have hc := hstart.append body (Nat.le_of_not_le hlt)
  rw [hc.active, decide_eq_false_iff_not, remaining_append] at hact
  exact hact (Nat.sub_pos_of_lt (Nat.lt_of_not_le hlt))

theorem roundCopy_within {alloc : Bool} {fed data : Bytes} (h : Valid fed st) :
    ∀ c ∈ roundCopy alloc st data, c.Within := by
  intro c hc
  unfold roundCopy at hc
  by_cases ha : st.active = true
  · rw [if_pos ha] at hc
    exact (h.collects ha).within c hc
  · rw [if_neg ha] at hc
    split at hc
    · split_ifs at hc
      · cases hc
      · exact (collects_start alloc [] _ _ _ _).within c hc
    · cases hc

/-- After a chunk: a message that is complete leaves the state idle, and one that is not is waited
for. -/
theorem afterChunk_cases (st : PacketLogHsState) (rest : Bytes) :
    (∃ calls, afterChunk st rest = (calls, resetHsState, some rest)) ∨
      st.active = true ∧ ∃ calls, afterChunk st rest = (calls, st, none) := by
  unfold afterChunk
  by_cases ha : st.active = true
  · rw [if_pos ha]
    exact .inr ⟨ha, _, rfl⟩
  · rw [if_neg ha]
    exact .inl ⟨_, rfl⟩

/-- What a round does: it goes on from an idle state with what it has not taken, or it ends the loop
in a valid state. -/
inductive Round (fed data : Bytes) : List HsCall × PacketLogHsState × Option Bytes → Prop
  | goes {calls : List HsCall} {st' : PacketLogHsState} (taken : Bytes) {rest : Bytes} :
    data = taken ++ rest → taken ≠ [] → Idle st' → Round fed data (calls, st', some rest)
  | ends {calls : List HsCall} {st' : PacketLogHsState} :
    Valid (fed ++ data) st' → Round fed data (calls, st', none)

/-- A message that was being collected. -/
theorem round_active {fed data : Bytes} (hc : Collects fed st) (ha : st.active = true)
    (hd : data ≠ []) :
    let chunk := min data.length st.remaining
    Round fed data
      (afterChunk (packetLogAppendHsChunk st (data.take chunk)) (data.drop chunk)) := by
  intro chunk
  have hpos := hc.remaining_pos ha
  have hlen := List.length_pos_iff.mpr hd
  have htake : (data.take chunk).length = chunk := by
    rw [List.length_take]
    omega
  have happ := hc.append (data.take chunk) (by omega)
  rcases afterChunk_cases (packetLogAppendHsChunk st (data.take chunk)) (data.drop chunk) with
    ⟨calls, he⟩ | ⟨hact, calls, he⟩
  · rw [he]
    refine .goes _ (List.take_append_drop chunk data).symm ?_ idle_reset
    exact List.ne_nil_of_length_pos (by omega)
  · -- something is still missing, so all bytes were taken
    have hrem := happ.remaining_pos hact
    have hall : data.take chunk = data := by
      rw [remaining_append, htake] at hrem
      exact List.take_of_length_le (by omega)
    rw [he]
    rw [hall] at happ hact ⊢
    exact .ends (.inr ⟨hact, happ.remaining_pos hact, happ⟩)

/-- A message that does not end in the data it starts in. -/
theorem round_start (alloc : Bool) (fed : Bytes) (hsType b1 b2 b3 : UInt8) {body : Bytes}
    (hlt : body.length < netOrder [b1, b2, b3]) :
    Round fed (hsType :: b1 :: b2 :: b3 :: body)
      (afterChunk (packetLogAppendHsChunk
        (packetLogStartHsMessage alloc hsType (netOrder [b1, b2, b3])) body) []) := by
  have happ := (collects_start alloc fed hsType b1 b2 b3).append body hlt.le
  have hrem : 0 < (packetLogAppendHsChunk
      (packetLogStartHsMessage alloc hsType (netOrder [b1, b2, b3])) body).remaining := by
    rw [remaining_append]
    exact Nat.sub_pos_of_lt hlt
  have hact : (packetLogAppendHsChunk
      (packetLogStartHsMessage alloc hsType (netOrder [b1, b2, b3])) body).active = true := by
    rw [happ.active]
    exact decide_eq_true hrem
  rw [afterChunk, if_pos hact]
  rw [List.append_assoc] at happ
  exact .ends (.inr ⟨hact, hrem, happ⟩)

/-- **A round from a valid state.** -/
theorem hsStep_round (alloc : Bool) {fed data : Bytes} (h : Valid fed st) (hd : data ≠ []) :
    Round fed data (hsStep alloc st data) := by
  unfold hsStep
  by_cases ha : st.active = true
  · rw [if_pos ha]
    exact round_active (h.collects ha) ha hd
  · have hidle := h.idle (by simpa using ha)
    rw [if_neg ha]
    split
    · next hsType b1 b2 b3 body =>
      dsimp only
      split_ifs with hle
      · refine .goes (hsType :: b1 :: b2 :: b3 :: body.take (netOrder [b1, b2, b3])) ?_
          (List.cons_ne_nil _ _) hidle
        simp only [List.cons_append, List.take_append_drop]
      · exact round_start alloc fed hsType b1 b2 b3 (Nat.lt_of_not_le hle)
    · exact .ends (.inl hidle)

/-! ### The loop -/

/-- **The loop, run to its end**: the rounds it makes, each with the state and the bytes it
finds. -/
inductive Runs (alloc : Bool) :
    PacketLogHsState → Bytes → List (PacketLogHsState × Bytes) →
    List HsCall × PacketLogHsState → Prop
  | done (st : PacketLogHsState) : Runs alloc st [] [] ([], st)
  | last {st st' : PacketLogHsState} {data : Bytes} {calls : List HsCall} :
    data ≠ [] → hsStep alloc st data = (calls, st', none) →
    Runs alloc st data [(st, data)] (calls, st')
  | more {st st' : PacketLogHsState} {data rest : Bytes} {calls : List HsCall}
    {rounds : List (PacketLogHsState × Bytes)} {r : List HsCall × PacketLogHsState} :
    data ≠ [] → hsStep alloc st data = (calls, st', some rest) → Runs alloc st' rest rounds r →
    Runs alloc st data ((st, data) :: rounds) (calls ++ r.1, r.2)

/-- A round in which nothing goes wrong. -/
def Safe (alloc : Bool) (round : PacketLogHsState × Bytes) : Prop :=
  (∀ c ∈ roundCopy alloc round.1 round.2, c.Within) ∧ ¬ FinishesAtOnce alloc round.1 round.2

theorem safe_of_valid (alloc : Bool) {fed : Bytes} (h : Valid fed st) (data : Bytes) :
    Safe alloc (st, data) :=
  ⟨roundCopy_within h, not_finishesAtOnce alloc st data⟩

/-- **Every call ends** from a valid state, in a valid state, with safe rounds only, of which there
are not more than bytes. -/
theorem runs_append (alloc : Bool) : ∀ (n : ℕ) {fed data : Bytes} {st : PacketLogHsState},
    data.length ≤ n → Valid fed st →
      Valid (fed ++ data) (packetLogAppendHandshakeBytes alloc st data).2 ∧
      ∃ rounds, Runs alloc st data rounds (packetLogAppendHandshakeBytes alloc st data) ∧
        rounds.length ≤ data.length ∧ ∀ round ∈ rounds, Safe alloc round := by
  intro n
  induction n with
  | zero =>
    intro fed data st hn h
    obtain rfl := List.length_eq_zero_iff.mp (Nat.le_zero.mp hn)
    rw [List.append_nil]
    exact ⟨h, [], .done st, Nat.le_refl 0, by simp⟩
  | succ n ih =>
    intro fed data st hn h
    by_cases hd : data = []
    · subst hd
      rw [List.append_nil]
      exact ⟨h, [], .done st, Nat.le_refl 0, by simp⟩
    have hround := hsStep_round alloc h hd
    have hsafe := safe_of_valid alloc h data
    rw [appendHandshakeBytes_eq hd]
    rcases hs : hsStep alloc st data with ⟨calls, st', _ | rest⟩
    · rw [hs] at hround
      cases hround with
      | ends hv =>
        exact ⟨hv, _, .last hd hs, List.length_pos_iff.mpr hd, by simpa using hsafe⟩
    · rw [hs] at hround
      cases hround with
      | goes taken hdata htaken hidle =>
        -- the rest is shorter, and nothing of what came before matters to an idle state
        have hlen : data.length = taken.length + rest.length := by rw [hdata, List.length_append]
        have hpos := List.length_pos_iff.mpr htaken
        have hrest : rest.length ≤ n := by omega
        have hvalid : Valid (fed ++ taken) st' := .inl hidle
        obtain ⟨hv, rounds, hruns, hle, hrounds⟩ := ih hrest hvalid
        refine ⟨?_, _, .more hd hs hruns, ?_, List.forall_mem_cons.mpr ⟨hsafe, hrounds⟩⟩
        · rw [hdata, ← List.append_assoc]
          exact hv
        · rw [List.length_cons]
          omega

theorem valid_feedChunks : ∀ (chunks : List Chunk) {fed : Bytes} {st : PacketLogHsState},
    Valid fed st → Valid (fed ++ bytes chunks) (feedChunks st chunks).2
  | [], fed, st, h => by
    rw [bytes, List.flatMap_nil, List.append_nil]
    exact h
  | c :: chunks, fed, st, h => by
    have hc := (runs_append c.alloc c.data.length (Nat.le_refl _) h).1
    have hrest := valid_feedChunks chunks hc
    rw [List.append_assoc] at hrest
    rw [bytes, List.flatMap_cons]
    exact hrest

/-- **The state of a partial message**, after any calls from the zeroed state and in any further
one. The state is idle, or it waits for the rest of a message of which it has the bytes that came
since the header; and a further call ends, copies only within the message, and never finds a message
finished that it has just started. -/
theorem hsState_invariant (chunks : List Chunk) :
    let st := (feedChunks resetHsState chunks).2
    Valid (bytes chunks) st ∧ ∀ alloc data, ∃ rounds,
      Runs alloc st data rounds (packetLogAppendHandshakeBytes alloc st data) ∧
        rounds.length ≤ data.length ∧ ∀ round ∈ rounds, Safe alloc round := by
  intro st
  have hv : Valid (bytes chunks) st := @valid_feedChunks chunks [] _ (.inl idle_reset)
  exact ⟨hv, fun alloc data => (runs_append alloc data.length (Nat.le_refl _) hv).2⟩

end PapQuic.Log.HsState
