import PapQuic.Txp.StreamFrames
import Mathlib.Data.Set.Lattice
import Mathlib.Order.CompletePartialOrder

/-! # Frames in flight (`quic_fifd.c`, `quic_txpim.c`)

What a packet carried is kept as a list of chunks. When the packet is committed, acknowledged or
found lost, the chunks are gone through in order, and for each of them the send stream it belongs to
is told.

`forChunks_rule` brings such a loop over the streams down to one stream and its own chunks. With it
`pktCommit_spec`, `onAcked_spec` and `onLost_spec` say what becomes of the sets and flags of every
stream: the bytes of the packet's chunks move from what is to be transmitted into flight, from there
to what is acknowledged, or back. -/

namespace PapQuic.Transport.Fifd

open Lib.Ranges Wire.Packet IntegerSet SendStream Txp.StreamFrames

/-- The send streams as `get_sstream_by_id` finds them. -/
abbrev Streams := ℕ → Option Sstream

/-- `compare` of `quic_txpim.c`. -/
def compare (a b : Chunk) : Ordering :=
  if a.streamId < b.streamId then .lt
  else if a.streamId > b.streamId then .gt
  else if a.start < b.start then .lt
  else if a.start > b.start then .gt
  else .eq

/-- `ossl_quic_txpim_pkt_get_chunks`. -/
def getChunks (chunks : List Chunk) : List Chunk := chunks.mergeSort fun a b => (compare a b).isLE

/-- The loop over the chunks of a packet. -/
def forChunks (f : Sstream → Chunk → Option Sstream) : List Chunk → Streams → Option Streams
  | [], m => some m
  | c :: cs, m =>
    match m c.streamId with
    | none => forChunks f cs m
    | some q => (f q c).bind fun q' => forChunks f cs (Function.update m c.streamId (some q'))

/-- The body of the loop of `ossl_quic_fifd_pkt_commit`. -/
def commitChunk (alloc : Bool) (q : Sstream) (c : Chunk) : Option Sstream :=
  (if c.last ≥ c.start then
      (markTransmitted alloc q c.start c.last).bind fun out => if out.2 then some out.1 else none
    else some q).bind fun q =>
  if c.hasFin then
    let out := markTransmittedFin q (u64Succ c.last)
    if out.2 then some out.1 else none
  else some q

/-- `ossl_quic_fifd_pkt_commit`, the send streams: `none` where it returns 0 or an assertion
fails. -/
def pktCommit (alloc : Bool) (m : Streams) (chunks : List Chunk) : Option Streams :=
  forChunks (commitChunk alloc) (getChunks chunks) m

/-- The body of the loop of `on_acked`. -/
def ackChunk (alloc : Bool) (q : Sstream) (c : Chunk) : Option Sstream :=
  (if c.last ≥ c.start then (markAcked alloc q c.start c.last).map Prod.fst
    else some q).map fun q =>
  if c.hasFin && c.streamId != 2 ^ 64 - 1 then (markAckedFin q).1 else q

/-- `on_acked`, the send streams. -/
def onAcked (alloc : Bool) (m : Streams) (chunks : List Chunk) : Option Streams :=
  forChunks (ackChunk alloc) (getChunks chunks) m

/-- The body of the loop of `on_lost`. -/
def loseChunk (alloc : Bool) (q : Sstream) (c : Chunk) : Option Sstream :=
  let q := if c.last ≥ c.start then (markLost alloc q c.start c.last).1 else q
  some (if c.hasFin && c.streamId != 2 ^ 64 - 1 then (markLostFin q).1 else q)

/-- `on_lost`, the send streams. -/
def onLost (alloc : Bool) (m : Streams) (chunks : List Chunk) : Option Streams :=
  forChunks (loseChunk alloc) (getChunks chunks) m

/-! ### One stream and its chunks -/

def ofStream (id : ℕ) (cs : List Chunk) : List Chunk := cs.filter (·.streamId == id)

/-- The offsets of a chunk. -/
def span (c : Chunk) : Set ℕ := Set.Icc c.start c.last

/-- The offsets of a list of chunks. -/
def spans (cs : List Chunk) : Set ℕ := {n | ∃ c ∈ cs, n ∈ span c}

theorem spans_nil : spans [] = ∅ := by simp [spans]

theorem spans_cons (c : Chunk) (cs : List Chunk) : spans (c :: cs) = span c ∪ spans cs := by
  ext n
  simp [spans]

theorem mem_ofStream {id : ℕ} {cs : List Chunk} {c : Chunk} :
    c ∈ ofStream id cs ↔ c ∈ cs ∧ c.streamId = id := by
  simp [ofStream]

/-- **The rule of the loop**: what is kept for a stream while its own chunks are gone through is
kept for every stream, and no chunk fails. -/
theorem forChunks_rule {f : Sstream → Chunk → Option Sstream} (I : ℕ → List Chunk → Sstream → Prop)
    (hstep : ∀ id c cs q, I id (c :: cs) q → ∃ q', f q c = some q' ∧ I id cs q') (cs : List Chunk)
    (m : Streams) (h : ∀ id q, m id = some q → I id (ofStream id cs) q) :
    ∃ m', forChunks f cs m = some m' ∧ (∀ id, m id = none → m' id = none) ∧
      ∀ id q, m id = some q → ∃ q', m' id = some q' ∧ I id [] q' := by
  induction cs generalizing m with
  | nil => exact ⟨m, rfl, fun _ => id, fun id q hq => ⟨q, hq, h id q hq⟩⟩
  | cons c cs ih =>
    have hother : ∀ id, c.streamId ≠ id → ofStream id (c :: cs) = ofStream id cs := fun id hne => by
      simp [ofStream, hne]
    rcases hm : m c.streamId with _ | q
    · rw [forChunks, hm]
      refine ih m fun id q hq => ?_
      rw [← hother id (by rintro rfl; rw [hm] at hq; cases hq)]
      exact h id q hq
    · have hI := h _ q hm
      simp only [ofStream, List.filter_cons, beq_self_eq_true, if_true] at hI
      obtain ⟨q', hf, hq'⟩ := hstep _ c _ q hI
      obtain ⟨m', hm', hnone, hsome⟩ := ih (Function.update m c.streamId (some q'))
        fun id p hp => by
        rcases eq_or_ne c.streamId id with rfl | hne
        · rw [Function.update_self] at hp
          rw [← Option.some.inj hp]
          exact hq'
        · rw [Function.update_of_ne hne.symm] at hp
          rw [← hother id hne]
          exact h id p hp
      refine ⟨m', by rw [forChunks, hm]; simp only [hf, Option.bind_some, hm'], fun id hid => ?_,
        fun id p hp => ?_⟩
      · refine hnone id ?_
        rwa [Function.update_of_ne]
        rintro rfl
        rw [hm] at hid
        cases hid
      · rcases eq_or_ne c.streamId id with rfl | hne
        · exact hsome _ q' (Function.update_self ..)
        · exact hsome id p (by rwa [Function.update_of_ne hne.symm])

/-! ### What a chunk does to its stream -/

/-- What is to be transmitted, what is acknowledged, and the flags for the end of the stream:
whether there is one, whether it was sent and whether it was acknowledged. -/
@[ext] structure View where
  new : Set ℕ
  acked : Set ℕ
  flags : Bool × Bool × Bool

def view (q : Sstream) : View := ⟨cover q.newSet, cover q.ackedSet, q.flags⟩

namespace View

def commit (v : View) (c : Chunk) : View :=
  ⟨v.new \ span c, v.acked, (v.flags.1, v.flags.2.1 || c.hasFin, v.flags.2.2)⟩

def ack (v : View) (c : Chunk) : View :=
  ⟨v.new, v.acked ∪ span c, (v.flags.1, v.flags.2.1, v.flags.2.2 || c.hasFin)⟩

/-- An end that was acknowledged stays sent. -/
def lose (v : View) (c : Chunk) : View :=
  ⟨v.new ∪ span c, v.acked, (v.flags.1, v.flags.2.1 && (v.flags.2.2 || !c.hasFin), v.flags.2.2)⟩

theorem foldl_commit (cs : List Chunk) (v : View) : cs.foldl commit v =
    ⟨v.new \ spans cs, v.acked, (v.flags.1, v.flags.2.1 || cs.any (·.hasFin), v.flags.2.2)⟩ := by
  induction cs generalizing v with
  | nil => simp [spans_nil]
  | cons c cs ih => simp [ih, commit, spans_cons, Set.sdiff_sdiff, Bool.or_assoc]

theorem foldl_ack (cs : List Chunk) (v : View) : cs.foldl ack v =
    ⟨v.new, v.acked ∪ spans cs, (v.flags.1, v.flags.2.1, v.flags.2.2 || cs.any (·.hasFin))⟩ := by
  induction cs generalizing v with
  | nil => simp [spans_nil]
  | cons c cs ih => simp [ih, ack, spans_cons, Set.union_assoc, Bool.or_assoc]

theorem foldl_lose (cs : List Chunk) (v : View) : cs.foldl lose v =
    ⟨v.new ∪ spans cs, v.acked,
      (v.flags.1, v.flags.2.1 && (v.flags.2.2 || !cs.any (·.hasFin)), v.flags.2.2)⟩ := by
  induction cs generalizing v with
  | nil => simp [spans_nil]
  | cons c cs ih =>
    simp only [List.foldl_cons, ih, lose, spans_cons, Set.union_assoc, List.any_cons]
    cases v.flags.2.2 <;> cases c.hasFin <;> simp

end View

/-- The chunk is a piece of the stream, and has the end only if the stream has one there. -/
structure ChunkOf (data : Bytes) (hasFinal : Bool) (c : Chunk) : Prop where
  id_ne : c.streamId ≠ 2 ^ 64 - 1
  last_lt : c.last < data.length
  fin : c.hasFin = true → hasFinal = true ∧ c.last + 1 = data.length

theorem span_eq_empty {c : Chunk} (h : ¬ c.last ≥ c.start) : span c = ∅ := Set.Icc_eq_empty h

section
variable {q : Sstream} {data : Bytes} {c : Chunk} (hinv : Inv q data)
  (hc : ChunkOf data q.haveFinalSize c)
include hinv hc

theorem commitChunk_spec :
    ∃ q', commitChunk true q c = some q' ∧ Inv q' data ∧ view q' = (view q).commit c := by
  obtain ⟨p, hp, hinv', hnew, hacked, hflags⟩ : ∃ p, (if c.last ≥ c.start then
      (markTransmitted true q c.start c.last).bind fun out => if out.2 then some out.1 else none
      else some q) = some p ∧ Inv p data ∧ cover p.newSet = cover q.newSet \ span c ∧
      p.ackedSet = q.ackedSet ∧ p.flags = q.flags := by
    by_cases hle : c.last ≥ c.start
    · obtain ⟨p, hp⟩ : ∃ p, markTransmitted true q c.start c.last = some (p, true) :=
        markTransmitted_isSome hle
      obtain ⟨-, hinv', hacked, hsame, hnew⟩ := hinv.markTransmitted hle hp
      exact ⟨p, by rw [if_pos hle, hp]; rfl, hinv', Set.ext hnew, hacked, hsame⟩
    · refine ⟨q, if_neg hle, hinv, ?_, rfl, rfl⟩
      rw [span_eq_empty hle, Set.sdiff_empty]
  simp only [commitChunk, hp, Option.bind_some]
  rcases hfin : c.hasFin with _ | _
  · refine ⟨p, rfl, hinv', ?_⟩
    simp [view, View.commit, hnew, hacked, hflags, hfin]
  · obtain ⟨hhave, hlast⟩ := hc.fin hfin
    have h63 := hinv'.length_lt
    have hhead := hinv'.holds.head
    have hhave' : p.haveFinalSize = true := ((Prod.mk.inj hflags).1).trans hhave
    have heq : markTransmittedFin p (u64Succ c.last) =
        ({ p with sentFinalSize := true }, true) := by
      rw [markTransmittedFin, u64Succ_eq (by omega), hhave', if_neg]
      simp only [Bool.not_true, Bool.false_or, bne_iff_ne, ne_eq, not_not]
      omega
    refine ⟨{ p with sentFinalSize := true }, by rw [heq]; rfl, ?_, ?_⟩
    · have := hinv'.markTransmittedFin (u64Succ c.last)
      rwa [heq] at this
    · simp only [Sstream.flags, Prod.mk.injEq] at hflags
      simp [view, View.commit, Sstream.flags, hnew, hacked, hflags, hfin]

theorem ackChunk_spec (hnew : Disjoint (span c) (cover q.newSet))
    (hacked : Disjoint (span c) (cover q.ackedSet)) :
    ∃ q', ackChunk true q c = some q' ∧ Inv q' data ∧ view q' = (view q).ack c := by
  obtain ⟨p, hp, hinv', hnew', hacked', hflags⟩ : ∃ p, (if c.last ≥ c.start then
      (markAcked true q c.start c.last).map Prod.fst else some q) = some p ∧ Inv p data ∧
      p.newSet = q.newSet ∧ cover p.ackedSet = cover q.ackedSet ∪ span c ∧ p.flags = q.flags := by
    by_cases hle : c.last ≥ c.start
    · obtain ⟨p, ok, hp, hinv', hnew', hsame, hfail, hcover⟩ := hinv.markAcked true hle hc.last_lt
        (fun n h1 h2 => Set.disjoint_left.mp hnew ⟨h1, h2⟩)
        (Or.inl fun n hn hin => Set.disjoint_left.mp hacked hin hn)
      have hok : ok = true := by
        rw [← Bool.not_eq_false]
        intro hfalse
        cases (hfail hfalse).2
      exact ⟨p, by rw [if_pos hle, hp]; rfl, hinv', hnew', Set.ext (hcover hok), hsame⟩
    · refine ⟨q, if_neg hle, hinv, rfl, ?_, rfl⟩
      rw [span_eq_empty hle, Set.union_empty]
  simp only [ackChunk, hp, Option.map_some]
  rcases hfin : c.hasFin with _ | _
  · refine ⟨p, rfl, hinv', ?_⟩
    simp [view, View.ack, hnew', hacked', hflags, hfin]
  · have hhave : p.haveFinalSize = true := ((Prod.mk.inj hflags).1).trans (hc.fin hfin).1
    have heq : (markAckedFin p).1 = { p with ackedFinalSize := true } := by
      simp [markAckedFin, hhave]
    refine ⟨_, rfl, ?_⟩
    rw [if_pos (by simpa using hc.id_ne)]
    refine ⟨hinv'.markAckedFin, ?_⟩
    simp only [Sstream.flags, Prod.mk.injEq] at hflags
    simp [heq, view, View.ack, Sstream.flags, hnew', hacked', hflags, hfin]

theorem loseChunk_spec (hnew : Disjoint (span c) (cover q.newSet))
    (hacked : Disjoint (span c) (cover q.ackedSet)) :
    ∃ q', loseChunk true q c = some q' ∧ Inv q' data ∧ view q' = (view q).lose c := by
  obtain ⟨p, hp, hinv', hnew', hacked', hflags⟩ : ∃ p,
      (if c.last ≥ c.start then (markLost true q c.start c.last).1 else q) = p ∧ Inv p data ∧
      cover p.newSet = cover q.newSet ∪ span c ∧ p.ackedSet = q.ackedSet ∧ p.flags = q.flags := by
    refine ⟨_, rfl, ?_⟩
    by_cases hle : c.last ≥ c.start
    · obtain ⟨hinv', hacked', hsame, hfail, hcover⟩ := hinv.markLost true hle hc.last_lt
        (fun n h1 h2 => Set.disjoint_left.mp hacked ⟨h1, h2⟩)
        (Or.inl fun n hn hin => Set.disjoint_left.mp hnew hin hn)
      have hok : (markLost true q c.start c.last).2 = true := by
        rw [← Bool.not_eq_false]
        intro hfalse
        cases (hfail hfalse).2
      rw [if_pos hle]
      exact ⟨hinv', Set.ext (hcover hok), hacked', hsame⟩
    · rw [if_neg hle, span_eq_empty hle, Set.union_empty]
      exact ⟨hinv, rfl, rfl, rfl⟩
  simp only [loseChunk, hp]
  refine ⟨_, rfl, ?_⟩
  rcases hfin : c.hasFin with _ | _
  · refine ⟨hinv', ?_⟩
    simp [view, View.lose, hnew', hacked', hflags, hfin]
  · rw [if_pos (by simpa using hc.id_ne)]
    refine ⟨hinv'.markLostFin, ?_⟩
    simp only [Sstream.flags, Prod.mk.injEq] at hflags
    obtain ⟨h1, h2, h3⟩ := hflags
    unfold markLostFin
    split_ifs with hack
    · simp [view, View.lose, Sstream.flags, hnew', hacked', h1, h2, h3, ← h3.symm.trans hack, hfin]
    · rw [h3, Bool.not_eq_true] at hack
      simp [view, View.lose, Sstream.flags, hnew', hacked', h1, h3, hack, hfin]

end

/-! ### What a packet does to the streams -/

/-- The offsets of a stream that a packet carries. -/
def carried (id : ℕ) (chunks : List Chunk) : Set ℕ := spans (ofStream id chunks)

/-- The packet carries the end of the stream. -/
def finIn (id : ℕ) (chunks : List Chunk) : Bool := (ofStream id chunks).any (·.hasFin)

theorem ofStream_getChunks (id : ℕ) (chunks : List Chunk) :
    (ofStream id (getChunks chunks)).Perm (ofStream id chunks) :=
  (List.mergeSort_perm chunks _).filter _

theorem carried_getChunks (id : ℕ) (chunks : List Chunk) :
    carried id (getChunks chunks) = carried id chunks := by
  ext n
  simp only [carried, spans, Set.mem_ofPred_eq, (ofStream_getChunks id chunks).mem_iff]

theorem finIn_getChunks (id : ℕ) (chunks : List Chunk) :
    finIn id (getChunks chunks) = finIn id chunks :=
  (ofStream_getChunks id chunks).any_eq

/-- The chunks do not overlap what is to be transmitted, what is acknowledged, or each other. -/
structure Apart (data : Bytes) (v : View) (cs : List Chunk) : Prop where
  piece : ∀ c ∈ cs, ChunkOf data v.flags.1 c
  new : ∀ c ∈ cs, Disjoint (span c) v.new
  acked : ∀ c ∈ cs, Disjoint (span c) v.acked
  pairwise : cs.Pairwise fun c d => Disjoint (span c) (span d)

theorem Apart.perm {data : Bytes} {v : View} {cs ds : List Chunk} (h : Apart data v cs)
    (hperm : ds.Perm cs) : Apart data v ds where
  piece c hc := h.piece c (hperm.mem_iff.mp hc)
  new c hc := h.new c (hperm.mem_iff.mp hc)
  acked c hc := h.acked c (hperm.mem_iff.mp hc)
  pairwise := (hperm.pairwise_iff fun hd => hd.symm).mpr h.pairwise

/-- What is left for the chunks after the first one. -/
theorem Apart.tail {data : Bytes} {v w : View} {c : Chunk} {cs : List Chunk}
    (h : Apart data v (c :: cs)) (hflags : w.flags.1 = v.flags.1) (hnew : w.new ⊆ v.new ∪ span c)
    (hacked : w.acked ⊆ v.acked ∪ span c) : Apart data w cs := by
  obtain ⟨hc, hcs⟩ := List.pairwise_cons.mp h.pairwise
  refine ⟨fun d hd => ?_, fun d hd => ?_, fun d hd => ?_, hcs⟩ <;>
    have hd' := List.mem_cons_of_mem c hd
  · rw [hflags]
    exact h.piece d hd'
  · exact (Set.disjoint_union_right.mpr ⟨h.new d hd', (hc d hd).symm⟩).mono_right hnew
  · exact (Set.disjoint_union_right.mpr ⟨h.acked d hd', (hc d hd).symm⟩).mono_right hacked

/-- The step of the loop in terms of views is the loop over the views. -/
theorem forChunks_views {f : Sstream → Chunk → Option Sstream} (u : View → Chunk → View)
    (Ready : Bytes → View → List Chunk → Prop)
    (hstep : ∀ data q c cs, Inv q data → Ready data (view q) (c :: cs) →
      (∃ q', f q c = some q' ∧ Inv q' data ∧ view q' = u (view q) c) ∧ Ready data (u (view q) c) cs)
    {written : ℕ → Bytes} {cs : List Chunk} {m : Streams} {after : ℕ → Sstream → View}
    (h : ∀ id q, m id = some q → Inv q (written id) ∧ Ready (written id) (view q)
      (ofStream id cs)) (hafter : ∀ id q, (ofStream id cs).foldl u (view q) = after id q) :
    ∃ m', forChunks f cs m = some m' ∧ (∀ id, m id = none → m' id = none) ∧
      ∀ id q, m id = some q → ∃ q', m' id = some q' ∧ Inv q' (written id) ∧
        view q' = after id q := by
  obtain ⟨m', hm', hnone, hsome⟩ := forChunks_rule (f := f)
    (fun id ds p => Inv p (written id) ∧ Ready (written id) (view p) ds ∧
      ∀ q, m id = some q → ds.foldl u (view p) = (ofStream id cs).foldl u (view q))
    (fun id c ds p hp => by
      obtain ⟨hinv, hready, hfold⟩ := hp
      obtain ⟨⟨p', hf, hinv', hview⟩, hready'⟩ := hstep _ p c ds hinv hready
      refine ⟨p', hf, hinv', hview ▸ hready', fun q hq => ?_⟩
      rw [← hfold q hq, List.foldl_cons, hview])
    cs m fun id q hq => ⟨(h id q hq).1, (h id q hq).2, fun p hp => by
      rw [Option.some.inj (hq.symm.trans hp)]⟩
  refine ⟨m', hm', hnone, fun id q hq => ?_⟩
  obtain ⟨q', hq', hinv', -, hfold⟩ := hsome id q hq
  exact ⟨q', hq', hinv', (hfold q hq).trans (hafter id q)⟩

section
variable {m : Streams} {written : ℕ → Bytes} {chunks : List Chunk}

/-- **A packet is committed**: its chunks are no longer to be transmitted. -/
theorem pktCommit_spec (h : ∀ id q, m id = some q → Inv q (written id) ∧
      ∀ c ∈ ofStream id chunks, ChunkOf (written id) q.haveFinalSize c) :
    ∃ m', pktCommit true m chunks = some m' ∧ (∀ id, m id = none → m' id = none) ∧
      ∀ id q, m id = some q → ∃ q', m' id = some q' ∧ Inv q' (written id) ∧ view q' =
        ⟨cover q.newSet \ carried id chunks, cover q.ackedSet,
          (q.haveFinalSize, q.sentFinalSize || finIn id chunks, q.ackedFinalSize)⟩ := by
  refine forChunks_views View.commit (fun data v cs => ∀ c ∈ cs, ChunkOf data v.flags.1 c)
    (fun data q c cs hinv hready => ⟨commitChunk_spec hinv (hready c List.mem_cons_self),
      fun d hd => hready d (List.mem_cons_of_mem c hd)⟩)
    (fun id q hq => ⟨(h id q hq).1, fun c hc =>
      (h id q hq).2 c ((ofStream_getChunks id chunks).mem_iff.mp hc)⟩) fun id q => ?_
  rw [View.foldl_commit, ← carried_getChunks, ← finIn_getChunks]
  rfl

/-- **A packet is acknowledged**: its chunks are. -/
theorem onAcked_spec (h : ∀ id q, m id = some q →
      Inv q (written id) ∧ Apart (written id) (view q) (ofStream id chunks)) :
    ∃ m', onAcked true m chunks = some m' ∧ (∀ id, m id = none → m' id = none) ∧
      ∀ id q, m id = some q → ∃ q', m' id = some q' ∧ Inv q' (written id) ∧ view q' =
        ⟨cover q.newSet, cover q.ackedSet ∪ carried id chunks,
          (q.haveFinalSize, q.sentFinalSize, q.ackedFinalSize || finIn id chunks)⟩ := by
  refine forChunks_views View.ack Apart
    (fun data q c cs hinv hready => ⟨ackChunk_spec hinv (hready.piece c List.mem_cons_self)
      (hready.new c List.mem_cons_self) (hready.acked c List.mem_cons_self),
      hready.tail rfl Set.subset_union_left subset_rfl⟩)
    (fun id q hq => ⟨(h id q hq).1, (h id q hq).2.perm (ofStream_getChunks id chunks)⟩)
    fun id q => ?_
  rw [View.foldl_ack, ← carried_getChunks, ← finIn_getChunks]
  rfl

/-- **A packet is lost**: its chunks are to be transmitted again. -/
theorem onLost_spec (h : ∀ id q, m id = some q →
      Inv q (written id) ∧ Apart (written id) (view q) (ofStream id chunks)) :
    ∃ m', onLost true m chunks = some m' ∧ (∀ id, m id = none → m' id = none) ∧
      ∀ id q, m id = some q → ∃ q', m' id = some q' ∧ Inv q' (written id) ∧ view q' =
        ⟨cover q.newSet ∪ carried id chunks, cover q.ackedSet,
          (q.haveFinalSize, q.sentFinalSize && (q.ackedFinalSize || !finIn id chunks),
            q.ackedFinalSize)⟩ := by
  refine forChunks_views View.lose Apart
    (fun data q c cs hinv hready => ⟨loseChunk_spec hinv (hready.piece c List.mem_cons_self)
      (hready.new c List.mem_cons_self) (hready.acked c List.mem_cons_self),
      hready.tail rfl subset_rfl Set.subset_union_left⟩)
    (fun id q hq => ⟨(h id q hq).1, (h id q hq).2.perm (ofStream_getChunks id chunks)⟩)
    fun id q => ?_
  rw [View.foldl_lose, ← carried_getChunks, ← finIn_getChunks]
  rfl

end

end PapQuic.Transport.Fifd
