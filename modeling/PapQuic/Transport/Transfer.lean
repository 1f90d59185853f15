import PapQuic.Lib.Run
import PapQuic.Transport.Fifd
import PapQuic.Transport.ReceiveStream

/-! # Streams over a network that loses packets

A sender with its send streams and its packets in flight, a network that loses, repeats and reorders
packets, and a receiver. The packets are made up by `generateStreamFrames` and committed; the
receiver queues the frames of a packet that arrives and the application reads; a packet in flight is
acknowledged only after it has arrived, and may be taken for lost at any time, also when it has
arrived.

`Good` is the invariant. Every byte written to a stream is in exactly one of three places: among
what is to be transmitted, in one packet in flight, or acknowledged, and then it has arrived. All of
it is about runs in which no stream is ended before a byte was written to it (`Allowed`). -/

namespace PapQuic.Transport.Transfer

open Lib.Ranges Lib.Run Wire.Packet Wire.Vlint FlowControl SendStream Fifd Txp.StreamFrames
open ReceiveStream (Op Agrees FinArrived)

/-- What the packetiser calls `txp_generate_stream_frames` with for a stream, apart from the stream,
and the packet as it is when the turn comes to the stream. -/
structure Part where
  id : ℕ
  txfc : Txfc
  conn : Txfc
  connConsumed : ℕ
  nextStream : Bool
  forcePad : Bool
  h : TxHelper

def Part.args (p : Part) (q : Sstream) : Args :=
  ⟨p.id, q, p.txfc, p.conn, p.connConsumed, p.nextStream, p.forcePad⟩

/-- The frames of a stream are added to a packet. -/
def addStream (m : Streams) (g : Gen) (p : Part) : Option Gen :=
  match m p.id with
  | none => some g
  | some q => generateStreamFrames (p.args q) { g with h := p.h }

/-- `none`: an assertion fails, or there is no room for the chunks; the packet is given up. -/
def makePacket (m : Streams) (parts : List Part) : Option Gen :=
  parts.foldlM (addStream m) ⟨⟨0, 0, 0, false, false⟩, [], [], false, 0⟩

/-- How many frames a stream can have in a packet. -/
def framesOf (m : Streams) (p : Part) : ℕ :=
  match m p.id with
  | none => 0
  | some q => q.newSet.length + 1

/-- No byte of the packet is kept back, no frame without a length is in it, and there is room for
all the chunks. -/
def Roomy (m : Streams) (parts : List Part) : Prop :=
  (∀ p ∈ parts, Calm p.h ∧ p.h.doneImplicit = false) ∧
    (parts.map (framesOf m)).sum ≤ maxAllocChunks

structure Packet where
  frames : List Sent
  chunks : List Chunk

/-- The two ends and what is between them: the send streams, the bytes written to them so far, all
packets that were sent, the numbers of those in flight and of those that arrived, what happened to
each receive stream, and the packets that were given up. -/
structure Net where
  streams : Streams
  written : ℕ → Bytes
  sent : List Packet
  inFlight : List ℕ
  arrived : List ℕ
  ops : ℕ → List Op
  givenUp : List (Streams × List Part)
  failed : Bool

inductive Action where
  | write (id : ℕ) (buf : Bytes)
  | finish (id : ℕ)
  | send (parts : List Part)
  | deliver (pn : ℕ)
  | ack (pn : ℕ)
  | lose (pn : ℕ)
  | read (id size : ℕ)

/-- What the receiver does with a frame. -/
def toOp (s : Sent) : Op := .arrive s.shdr.offset s.data s.shdr.isFin

/-- The packet with a number, an empty one where there is none. -/
def packetAt (sent : List Packet) (pn : ℕ) : Packet := sent[pn]?.getD ⟨[], []⟩

def step (s : Net) : Action → Net
  | .write id buf =>
    match s.streams id with
    | none => s
    | some q =>
      match append true q buf with
      | none => { s with failed := true }
      | some (q', n, ok) =>
        { s with
          streams := Function.update s.streams id (some q')
          written := Function.update s.written id (s.written id ++ buf.take n)
          -- a write to a stream that was ended is refused
          failed := s.failed || (!ok && !q.haveFinalSize) }
  | .finish id => { s with streams := Function.update s.streams id ((s.streams id).map fin) }
  | .send parts =>
    match makePacket s.streams parts with
    | none => { s with givenUp := (s.streams, parts) :: s.givenUp }
    | some g =>
      match pktCommit true s.streams g.chunks with
      | none => { s with failed := true }
      | some m =>
        { s with
          streams := m
          sent := s.sent ++ [⟨g.frames, g.chunks⟩]
          inFlight := s.sent.length :: s.inFlight }
  | .deliver pn =>
    { s with
      arrived := pn :: s.arrived
      ops := fun id => s.ops id ++
        ((packetAt s.sent pn).frames.filter (·.shdr.streamId == id)).map toOp }
  | .ack pn =>
    match onAcked true s.streams (packetAt s.sent pn).chunks with
    | none => { s with failed := true }
    | some m => { s with streams := m, inFlight := s.inFlight.filter (· != pn) }
  | .lose pn =>
    match onLost true s.streams (packetAt s.sent pn).chunks with
    | none => { s with failed := true }
    | some m => { s with streams := m, inFlight := s.inFlight.filter (· != pn) }
  | .read id size => { s with ops := Function.update s.ops id (s.ops id ++ [.read size]) }

/-- What the packetiser has ready for a stream is sound: the packet is not overfull, the limit can
be told and the numbers can be encoded. -/
def PartReady (s : Net) (p : Part) : Prop :=
  Room p.h ∧ p.id ≤ vlintMax ∧
    ∀ q, s.streams p.id = some q → (p.args q).fcLimit.isSome ∧ (s.written p.id).length ≤ vlintMax

/-- The steps looked at. A stream's turn comes at most once in a packet. A stream is not ended
before a byte was written to it: the chunk of such an end would run from 0 to the largest number. -/
def Allowed (s : Net) : Action → Prop
  | .finish id => s.written id ≠ []
  | .send parts => (parts.map Part.id).Nodup ∧ ∀ p ∈ parts, PartReady s p
  | .deliver pn => pn < s.sent.length
  | .ack pn => pn ∈ s.inFlight ∧ pn ∈ s.arrived
  | .lose pn => pn ∈ s.inFlight
  | _ => True

/-! ### What a packet is -/

/-- The frame carries bytes of the stream, or its end. -/
structure Carried (data : Bytes) (hasFinal : Bool) (f : Sent) : Prop where
  id_le : f.shdr.streamId ≤ vlintMax
  len : f.data.length = f.shdr.len
  agrees : Agrees data (toOp f)
  fin : f.shdr.isFin = true → hasFinal = true

theorem Carried.of_carries {data : Bytes} {q : Sstream} {f : Sent} (h : f.Carries q data)
    (hid : f.shdr.streamId ≤ vlintMax) : Carried data q.haveFinalSize f := by
  have hlen : f.data.length = f.shdr.len := by
    have := h.within
    rw [h.bytes, List.length_take, List.length_drop]
    omega
  refine ⟨hid, hlen, ?_, fun hfin => (h.fin hfin).1⟩
  refine ⟨by rw [hlen]; exact h.bytes, by rw [hlen]; exact h.within, fun hfin => ?_, fun hnil => ?_⟩
  · rw [hlen]
    exact (h.fin hfin).2
  · refine h.nonempty ?_
    rw [← hlen, hnil, List.length_nil]

/-- What is not the end stays what it is while the stream grows. -/
theorem agrees_append {data : Bytes} (more : Bytes) {op : Op} (h : Agrees data op)
    (hfin : ∀ offset bytes, op ≠ .arrive offset bytes true) : Agrees (data ++ more) op := by
  cases op with
  | arrive offset bytes fin =>
    obtain ⟨hbytes, hwithin, -, hempty⟩ := h
    refine ⟨?_, hwithin.trans (by simp), fun hf => absurd (by rw [hf]) (hfin offset bytes), hempty⟩
    rw [List.drop_append_of_le_length (by omega), List.take_append_of_le_length]
    · exact hbytes
    · rw [List.length_drop]
      omega
  | read size => trivial

theorem Carried.append {data : Bytes} (more : Bytes) {f : Sent} (h : Carried data false f) :
    Carried (data ++ more) false f := by
  refine ⟨h.id_le, h.len, agrees_append more h.agrees fun offset bytes heq => ?_, h.fin⟩
  rw [toOp, Op.arrive.injEq] at heq
  cases h.fin heq.2.2

section
variable {data : Bytes} {hasFinal : Bool} {f : Sent} (h : Carried data hasFinal f)
  (hnonempty : hasFinal = true → data ≠ [])
include h hnonempty

theorem Carried.pos (hlt : data.length < 2 ^ 63) :
    f.chunk.last + 1 = f.shdr.offset + f.shdr.len ∧ f.shdr.offset + f.shdr.len ≤ data.length := by
  obtain ⟨-, hwithin, hfin, hempty⟩ := h.agrees
  rw [h.len] at hwithin hfin
  have hpos : 0 < f.shdr.offset + f.shdr.len := by
    by_contra hzero
    have hb : f.shdr.isFin = true := hempty (List.length_eq_zero_iff.mp (by have := h.len; omega))
    have := List.length_pos_iff.mpr (hnonempty (h.fin hb))
    have := hfin hb
    omega
  refine ⟨?_, hwithin⟩
  rw [Sent.chunk, IntegerSet.u64Pred_eq hpos (by omega)]
  simp only
  omega

theorem Carried.span_eq (hlt : data.length < 2 ^ 63) :
    span f.chunk = Set.Ico f.shdr.offset (f.shdr.offset + f.shdr.len) := by
  have := (h.pos hnonempty hlt).1
  ext n
  simp only [span, Set.mem_Icc, Set.mem_Ico]
  have : f.chunk.start = f.shdr.offset := rfl
  omega

theorem Carried.chunkOf (hlt : data.length < 2 ^ 63) : ChunkOf data hasFinal f.chunk := by
  obtain ⟨hlast, hle⟩ := h.pos hnonempty hlt
  have hid := h.id_le
  refine ⟨?_, by omega, fun hfin => ⟨h.fin hfin, ?_⟩⟩
  · have : f.chunk.streamId = f.shdr.streamId := rfl
    unfold vlintMax at hid
    omega
  · have := h.agrees.2.2.1 hfin
    rw [h.len] at this
    omega

end

/-- The frames and the chunks of a packet belong together, and the frames of a stream do not
overlap. -/
structure Packet.Sound (p : Packet) : Prop where
  chunks_eq : p.chunks = p.frames.map Sent.chunk
  ascending : p.frames.Pairwise fun f g => f.shdr.streamId = g.shdr.streamId →
    f.shdr.offset + f.shdr.len ≤ g.shdr.offset

/-- What comes of a packet: its frames are pieces of what their streams have to transmit. -/
theorem makePacket_from {s : Net} (hinv : ∀ id q, s.streams id = some q → Inv q (s.written id))
    (parts : List Part) (g₀ g : Gen) (hids : (parts.map Part.id).Nodup)
    (hready : ∀ p ∈ parts, PartReady s p) (hmake : parts.foldlM (addStream s.streams) g₀ = some g) :
    ∃ fs, g.frames = g₀.frames ++ fs ∧ g.chunks = g₀.chunks ++ fs.map Sent.chunk ∧
      (∀ f ∈ fs, f.shdr.streamId ∈ parts.map Part.id ∧ f.shdr.streamId ≤ vlintMax ∧
        ∀ q, s.streams f.shdr.streamId = some q → f.Carries q (s.written f.shdr.streamId)) ∧
      fs.Pairwise fun f g => f.shdr.streamId = g.shdr.streamId →
        f.shdr.offset + f.shdr.len ≤ g.shdr.offset := by
  induction parts generalizing g₀ with
  | nil =>
    rw [List.foldlM_nil] at hmake
    rw [← Option.some.inj hmake]
    exact ⟨[], by simp, by simp, by simp, List.Pairwise.nil⟩
  | cons p parts ih =>
    rw [List.foldlM_cons] at hmake
    obtain ⟨g₁, hg₁, hrest⟩ := Option.bind_eq_some_iff.mp hmake
    obtain ⟨hp, hids⟩ := List.nodup_cons.mp hids
    obtain ⟨hroom, hid, hstream⟩ := hready p List.mem_cons_self
    obtain ⟨fs, hframes, hchunks, hall, hasc⟩ :=
      ih g₁ hids (fun r hr => hready r (List.mem_cons_of_mem p hr)) hrest
    rcases hq : s.streams p.id with _ | q
    · rw [addStream, hq] at hg₁
      rw [Option.some.inj hg₁]
      exact ⟨fs, hframes, hchunks, fun f hf =>
        ⟨List.mem_cons_of_mem _ (hall f hf).1, (hall f hf).2⟩, hasc⟩
    · rw [addStream, hq] at hg₁
      obtain ⟨hlimit, hlength⟩ := hstream q hq
      obtain ⟨limit, hlimit⟩ := Option.isSome_iff_exists.mp hlimit
      obtain ⟨fs₁, hframes₁, hchunks₁, hall₁, hasc₁, -⟩ :=
        generate_spec (p.args q) (s.written p.id) limit
        ⟨hinv p.id q hq, hlimit, hid, hlength⟩ { g₀ with h := p.h } g₁ hroom hg₁
      have hmine : ∀ f ∈ fs₁, f.shdr.streamId = p.id := fun f hf => (hall₁ f hf).1
      refine ⟨fs₁ ++ fs, by rw [hframes, hframes₁, List.append_assoc], ?_, fun f hf => ?_,
        List.pairwise_append.mpr ⟨?_, hasc, fun f hf f' hf' heq => ?_⟩⟩
      · rw [hchunks, hchunks₁, List.map_append, List.append_assoc]
      · rcases List.mem_append.mp hf with hf | hf
        · rw [hmine f hf]
          refine ⟨List.mem_cons_self, hid, fun q' hq' => ?_⟩
          rw [← Option.some.inj (hq.symm.trans hq')]
          exact (hall₁ f hf).2.1
        · exact ⟨List.mem_cons_of_mem _ (hall f hf).1, (hall f hf).2⟩
      · refine hasc₁.imp ?_
        intro f f' hle _
        exact hle
      · rw [hmine f hf] at heq
        exact absurd (heq ▸ (hall f' hf').1) hp

/-- **A packet with room for it can be made up.** -/
theorem makePacket_isSome {s : Net} (hinv : ∀ id q, s.streams id = some q → Inv q (s.written id))
    (parts : List Part) (g₀ : Gen) (hready : ∀ p ∈ parts, PartReady s p)
    (hcalm : ∀ p ∈ parts, Calm p.h ∧ p.h.doneImplicit = false)
    (hcount : g₀.chunks.length + (parts.map (framesOf s.streams)).sum ≤ maxAllocChunks) :
    ∃ g, parts.foldlM (addStream s.streams) g₀ = some g := by
  induction parts generalizing g₀ with
  | nil => exact ⟨g₀, rfl⟩
  | cons p parts ih =>
    rw [List.map_cons, List.sum_cons] at hcount
    obtain ⟨hroom, hid, hstream⟩ := hready p List.mem_cons_self
    obtain ⟨hcalm₀, himp⟩ := hcalm p List.mem_cons_self
    obtain ⟨g₁, hg₁, hlen⟩ : ∃ g₁, addStream s.streams g₀ p = some g₁ ∧
        g₁.chunks.length ≤ g₀.chunks.length + framesOf s.streams p := by
      unfold addStream framesOf at *
      rcases hq : s.streams p.id with _ | q
      · exact ⟨g₀, rfl, Nat.le_refl _⟩
      · simp only [hq] at hcount ⊢
        obtain ⟨hlimit, hlength⟩ := hstream q hq
        obtain ⟨limit, hlimit⟩ := Option.isSome_iff_exists.mp hlimit
        have hs : Setup (p.args q) (s.written p.id) limit := ⟨hinv p.id q hq, hlimit, hid, hlength⟩
        have hchunks : g₀.chunks.length + (p.args q).sstream.newSet.length < maxAllocChunks := by
          simp only [Part.args]
          omega
        obtain ⟨g₁, hg₁⟩ := generate_isSome (p.args q) _ limit hs { g₀ with h := p.h } hroom hcalm₀
          himp hchunks
        obtain ⟨fs, -, hchunks₁, -, -, -, -, -, -, -, -, hfs⟩ := generate_spec (p.args q) _ limit hs
          { g₀ with h := p.h } g₁ hroom hg₁
        refine ⟨g₁, hg₁, ?_⟩
        rw [hchunks₁, List.length_append, List.length_map]
        exact Nat.add_le_add_left hfs _
    obtain ⟨g, hg⟩ := ih g₁ (fun r hr => hready r (List.mem_cons_of_mem p hr))
      (fun r hr => hcalm r (List.mem_cons_of_mem p hr)) (by omega)
    exact ⟨g, by rw [List.foldlM_cons, hg₁]; exact hg⟩

/-! ### The invariant -/

/-- The invariant of a stream with the bytes `written` and what happened to its receive stream. -/
structure StreamInv (sent : List Packet) (inFlight arrived : List ℕ) (id : ℕ) (written : Bytes)
    (ops : List Op) (q : Sstream) : Prop where
  inv : Inv q written
  nonempty : q.haveFinalSize = true → written ≠ []
  carried : ∀ pn, ∀ f ∈ (packetAt sent pn).frames, f.shdr.streamId = id →
    Carried written q.haveFinalSize f
  agrees : ∀ op ∈ ops, Agrees written op
  fin_ops : FinArrived ops → q.haveFinalSize = true
  delivered : ∀ pn ∈ arrived, ∀ f ∈ (packetAt sent pn).frames, f.shdr.streamId = id → toOp f ∈ ops
  flight_new : ∀ pn ∈ inFlight, Disjoint (Fifd.carried id (packetAt sent pn).chunks)
    (cover q.newSet)
  flight_acked : ∀ pn ∈ inFlight, Disjoint (Fifd.carried id (packetAt sent pn).chunks)
    (cover q.ackedSet)
  flights : ∀ pn ∈ inFlight, ∀ k ∈ inFlight, pn ≠ k →
    Disjoint (Fifd.carried id (packetAt sent pn).chunks) (Fifd.carried id (packetAt sent k).chunks)
  place : ∀ n < written.length, n ∈ cover q.newSet ∨ n ∈ cover q.ackedSet ∨
    ∃ pn ∈ inFlight, n ∈ Fifd.carried id (packetAt sent pn).chunks
  acked_arrived : ∀ n ∈ cover q.ackedSet, n ∈ ReceiveStream.arrived ops
  acked_fin : q.ackedFinalSize = true → FinArrived ops
  fin_place : q.sentFinalSize = true → q.ackedFinalSize = true ∨
    ∃ pn ∈ inFlight, finIn id (packetAt sent pn).chunks = true

structure Good (s : Net) : Prop where
  ok : s.failed = false
  given_up : ∀ g ∈ s.givenUp, ¬ Roomy g.1 g.2
  sound : ∀ pn, (packetAt s.sent pn).Sound
  flight_lt : ∀ pn ∈ s.inFlight, pn < s.sent.length
  arrived_lt : ∀ pn ∈ s.arrived, pn < s.sent.length
  stream : ∀ id q, s.streams id = some q →
    StreamInv s.sent s.inFlight s.arrived id (s.written id) (s.ops id) q

section
variable {sent : List Packet} {inFlight arrived : List ℕ} {id : ℕ} {written : Bytes} {ops : List Op}
  {q : Sstream} (h : StreamInv sent inFlight arrived id written ops q) {pn : ℕ}
  (hs : (packetAt sent pn).Sound)
include h hs

theorem StreamInv.mem_carried {n : ℕ} : n ∈ Fifd.carried id (packetAt sent pn).chunks ↔
    ∃ f ∈ (packetAt sent pn).frames, f.shdr.streamId = id ∧
      f.shdr.offset ≤ n ∧ n < f.shdr.offset + f.shdr.len := by
  rw [hs.chunks_eq]
  simp only [Fifd.carried, spans, Set.mem_ofPred_eq, mem_ofStream, List.mem_map]
  constructor
  · rintro ⟨-, ⟨⟨f, hf, rfl⟩, hid⟩, hn⟩
    rw [(h.carried pn f hf hid).span_eq h.nonempty h.inv.length_lt] at hn
    exact ⟨f, hf, hid, hn⟩
  · rintro ⟨f, hf, hid, hn⟩
    refine ⟨f.chunk, ⟨⟨f, hf, rfl⟩, hid⟩, ?_⟩
    rw [(h.carried pn f hf hid).span_eq h.nonempty h.inv.length_lt]
    exact hn

theorem StreamInv.carried_lt {n : ℕ} (hn : n ∈ Fifd.carried id (packetAt sent pn).chunks) :
    n < written.length := by
  obtain ⟨f, hf, hid, -, hlt⟩ := (h.mem_carried hs).mp hn
  have := ((h.carried pn f hf hid).pos h.nonempty h.inv.length_lt).2
  omega

/-- The bytes and the end that an arrived packet carried have arrived. -/
theorem StreamInv.carried_arrived (hpn : pn ∈ arrived) :
    (∀ n ∈ Fifd.carried id (packetAt sent pn).chunks, n ∈ ReceiveStream.arrived ops) ∧
      (finIn id (packetAt sent pn).chunks = true → FinArrived ops) := by
  constructor
  · intro n hn
    obtain ⟨f, hf, hid, h1, h2⟩ := (h.mem_carried hs).mp hn
    exact ⟨_, _, _, h.delivered pn hpn f hf hid, h1, by rwa [(h.carried pn f hf hid).len]⟩
  · intro hfin
    rw [hs.chunks_eq] at hfin
    simp only [finIn, List.any_eq_true, mem_ofStream, List.mem_map] at hfin
    obtain ⟨-, ⟨⟨f, hf, rfl⟩, hid⟩, hb⟩ := hfin
    have hop := h.delivered pn hpn f hf hid
    rw [toOp, show f.shdr.isFin = true from hb] at hop
    exact ⟨_, _, hop⟩

theorem StreamInv.apart (hpn : pn ∈ inFlight) :
    Apart written (view q) (ofStream id (packetAt sent pn).chunks) := by
  have hspan : ∀ c ∈ ofStream id (packetAt sent pn).chunks,
      span c ⊆ Fifd.carried id (packetAt sent pn).chunks := fun c hc n hn => ⟨c, hc, hn⟩
  refine ⟨fun c hc => ?_, fun c hc => (h.flight_new pn hpn).mono_left (hspan c hc),
    fun c hc => (h.flight_acked pn hpn).mono_left (hspan c hc), ?_⟩
  · rw [hs.chunks_eq, mem_ofStream, List.mem_map] at hc
    obtain ⟨⟨f, hf, rfl⟩, hid⟩ := hc
    exact (h.carried pn f hf hid).chunkOf h.nonempty h.inv.length_lt
  · rw [hs.chunks_eq, ofStream, List.filter_map, List.pairwise_map]
    refine (hs.ascending.filter _).imp_of_mem fun {f g} hf hg hle => ?_
    simp only [List.mem_filter, Function.comp_apply, beq_iff_eq] at hf hg
    rw [(h.carried pn f hf.1 hf.2).span_eq h.nonempty h.inv.length_lt,
      (h.carried pn g hg.1 hg.2).span_eq h.nonempty h.inv.length_lt]
    have hasc := hle (hf.2.trans hg.2.symm)
    exact Set.disjoint_left.mpr fun n hn hn' =>
      absurd (hn.2.trans_le (hasc.trans hn'.1)) (Nat.lt_irrefl n)

end

/-! ### What a step keeps -/

theorem view_eq_iff {q : Sstream} {new acked : Set ℕ} {hasFinal sentFin ackedFin : Bool} :
    view q = ⟨new, acked, (hasFinal, sentFin, ackedFin)⟩ ↔ cover q.newSet = new ∧
      cover q.ackedSet = acked ∧ q.haveFinalSize = hasFinal ∧ q.sentFinalSize = sentFin ∧
      q.ackedFinalSize = ackedFin := by
  simp [view, Sstream.flags]

theorem mem_others {l : List ℕ} {pn k : ℕ} : k ∈ l.filter (· != pn) ↔ k ∈ l ∧ k ≠ pn := by
  simp

section
variable {sent : List Packet} {inFlight arrived : List ℕ} {id : ℕ} {written : Bytes} {ops : List Op}
  {q q' : Sstream} (h : StreamInv sent inFlight arrived id written ops q) (hinv' : Inv q' written)
include h hinv'

theorem StreamInv.ack {pn : ℕ} (hs : (packetAt sent pn).Sound) (hpn : pn ∈ inFlight)
    (harr : pn ∈ arrived)
    (hview : view q' = ⟨cover q.newSet, cover q.ackedSet ∪ Fifd.carried id
      (packetAt sent pn).chunks, (q.haveFinalSize, q.sentFinalSize,
        q.ackedFinalSize || finIn id (packetAt sent pn).chunks)⟩) :
    StreamInv sent (inFlight.filter (· != pn)) arrived id written ops q' := by
  obtain ⟨hnew, hacked, hhave, hsent, hfin⟩ := view_eq_iff.mp hview
  obtain ⟨hbytes, hend⟩ := h.carried_arrived hs harr
  refine ⟨hinv', hhave ▸ h.nonempty, hhave ▸ h.carried, h.agrees, hhave ▸ h.fin_ops, h.delivered,
    fun k hk => ?_, fun k hk => ?_, fun k hk j hj => ?_, fun n hn => ?_, fun n hn =>
      ?_, fun hb => ?_,
    fun hb => ?_⟩
  · rw [hnew]
    exact h.flight_new k (mem_others.mp hk).1
  · obtain ⟨hk, hne⟩ := mem_others.mp hk
    rw [hacked]
    exact Set.disjoint_union_right.mpr ⟨h.flight_acked k hk, h.flights k hk pn hpn hne⟩
  · exact h.flights k (mem_others.mp hk).1 j (mem_others.mp hj).1
  · rw [hnew, hacked]
    rcases h.place n hn with hn | hn | ⟨k, hk, hn⟩
    · exact Or.inl hn
    · exact Or.inr (Or.inl (Or.inl hn))
    · rcases eq_or_ne k pn with rfl | hne
      · exact Or.inr (Or.inl (Or.inr hn))
      · exact Or.inr (Or.inr ⟨k, mem_others.mpr ⟨hk, hne⟩, hn⟩)
  · rw [hacked] at hn
    exact hn.elim (h.acked_arrived n) (hbytes n)
  · rw [hfin, Bool.or_eq_true] at hb
    exact hb.elim h.acked_fin hend
  · rw [hfin, Bool.or_eq_true]
    rcases h.fin_place (hsent ▸ hb) with hb | ⟨k, hk, hb⟩
    · exact Or.inl (Or.inl hb)
    · rcases eq_or_ne k pn with rfl | hne
      · exact Or.inl (Or.inr hb)
      · exact Or.inr ⟨k, mem_others.mpr ⟨hk, hne⟩, hb⟩

theorem StreamInv.lose {pn : ℕ} (hpn : pn ∈ inFlight)
    (hview : view q' = ⟨cover q.newSet ∪ Fifd.carried id (packetAt sent pn).chunks,
      cover q.ackedSet, (q.haveFinalSize, q.sentFinalSize &&
        (q.ackedFinalSize || !finIn id (packetAt sent pn).chunks), q.ackedFinalSize)⟩) :
    StreamInv sent (inFlight.filter (· != pn)) arrived id written ops q' := by
  obtain ⟨hnew, hacked, hhave, hsent, hfin⟩ := view_eq_iff.mp hview
  refine ⟨hinv', hhave ▸ h.nonempty, hhave ▸ h.carried, h.agrees, hhave ▸ h.fin_ops, h.delivered,
    fun k hk => ?_, fun k hk => ?_, fun k hk j hj => ?_, fun n hn => ?_, ?_, hfin ▸ h.acked_fin,
    fun hb => ?_⟩
  · obtain ⟨hk, hne⟩ := mem_others.mp hk
    rw [hnew]
    exact Set.disjoint_union_right.mpr ⟨h.flight_new k hk, h.flights k hk pn hpn hne⟩
  · rw [hacked]
    exact h.flight_acked k (mem_others.mp hk).1
  · exact h.flights k (mem_others.mp hk).1 j (mem_others.mp hj).1
  · rw [hnew, hacked]
    rcases h.place n hn with hn | hn | ⟨k, hk, hn⟩
    · exact Or.inl (Or.inl hn)
    · exact Or.inr (Or.inl hn)
    · rcases eq_or_ne k pn with rfl | hne
      · exact Or.inl (Or.inr hn)
      · exact Or.inr (Or.inr ⟨k, mem_others.mpr ⟨hk, hne⟩, hn⟩)
  · rw [hacked]
    exact h.acked_arrived
  · rw [hsent, Bool.and_eq_true, Bool.or_eq_true, Bool.not_eq_true'] at hb
    rw [hfin]
    rcases h.fin_place hb.1 with hb' | ⟨k, hk, hb'⟩
    · exact Or.inl hb'
    · rcases eq_or_ne k pn with rfl | hne
      · exact Or.inl (hb.2.resolve_right (by rw [hb']; exact Bool.noConfusion))
      · exact Or.inr ⟨k, mem_others.mpr ⟨hk, hne⟩, hb'⟩

end

/-- A stream found afterwards was there before. -/
theorem found_before {m m' : Streams} {P : ℕ → Sstream → Sstream → Prop}
    (hnone : ∀ id, m id = none → m' id = none)
    (hsome : ∀ id q, m id = some q → ∃ q', m' id = some q' ∧ P id q q') {id : ℕ} {q' : Sstream}
    (hq' : m' id = some q') : ∃ q, m id = some q ∧ P id q q' := by
  rcases hq : m id with _ | q
  · rw [hnone id hq] at hq'
    cases hq'
  · obtain ⟨p, hp, h⟩ := hsome id q hq
    obtain rfl := Option.some.inj (hp.symm.trans hq')
    exact ⟨q, rfl, h⟩

theorem packetAt_concat_self (sent : List Packet) (p : Packet) :
    packetAt (sent ++ [p]) sent.length = p := by
  simp [packetAt]

theorem packetAt_concat (sent : List Packet) (p : Packet) {pn : ℕ} (h : pn ≠ sent.length) :
    packetAt (sent ++ [p]) pn = packetAt sent pn := by
  rcases Nat.lt_or_gt_of_ne h with hlt | hgt
  · rw [packetAt, packetAt, List.getElem?_append_left hlt]
  · rw [packetAt, packetAt, List.getElem?_eq_none (by simp; omega),
      List.getElem?_eq_none (by omega)]

/-- A packet out of what is to be transmitted is sent. -/
theorem StreamInv.send {sent : List Packet} {inFlight arrived : List ℕ} {id : ℕ} {written : Bytes}
    {ops : List Op} {q q' : Sstream} (h : StreamInv sent inFlight arrived id written ops q)
    (hinv' : Inv q' written) {p : Packet} (hs : p.Sound)
    (hcarries : ∀ f ∈ p.frames, f.shdr.streamId = id → f.shdr.streamId ≤ vlintMax ∧
      f.Carries q written)
    (hflight : ∀ pn ∈ inFlight, pn < sent.length) (harrived : ∀ pn ∈ arrived, pn < sent.length)
    (hview : view q' = ⟨cover q.newSet \ Fifd.carried id p.chunks, cover q.ackedSet,
      (q.haveFinalSize, q.sentFinalSize || finIn id p.chunks, q.ackedFinalSize)⟩) :
    StreamInv (sent ++ [p]) (sent.length :: inFlight) arrived id written ops q' := by
  obtain ⟨hnew, hacked, hhave, hsent, hfin⟩ := view_eq_iff.mp hview
  have hold : ∀ pn ∈ inFlight, packetAt (sent ++ [p]) pn = packetAt sent pn :=
    fun pn hpn => packetAt_concat sent p (hflight pn hpn).ne
  have hcar : ∀ f ∈ p.frames, f.shdr.streamId = id → Carried written q.haveFinalSize f :=
    fun f hf hid => .of_carries (hcarries f hf hid).2 (hcarries f hf hid).1
  have hsub : Fifd.carried id p.chunks ⊆ cover q.newSet := by
    rintro n ⟨c, hc, hn⟩
    rw [hs.chunks_eq, mem_ofStream, List.mem_map] at hc
    obtain ⟨⟨f, hf, rfl⟩, hid⟩ := hc
    rw [(hcar f hf hid).span_eq h.nonempty h.inv.length_lt] at hn
    exact (hcarries f hf hid).2.pending n hn.1 hn.2
  have hcarried : ∀ pn, ∀ f ∈ (packetAt (sent ++ [p]) pn).frames, f.shdr.streamId = id →
      Carried written q.haveFinalSize f := by
    intro pn f hf hid
    rcases eq_or_ne pn sent.length with rfl | hne
    · rw [packetAt_concat_self] at hf
      exact hcar f hf hid
    · rw [packetAt_concat sent p hne] at hf
      exact h.carried pn f hf hid
  refine ⟨hinv', hhave ▸ h.nonempty, hhave ▸ hcarried, h.agrees, hhave ▸ h.fin_ops,
    fun pn hpn => ?_,
    fun pn hpn => ?_, fun pn hpn => ?_, fun pn hpn k hk hne => ?_, fun n hn => ?_, ?_,
    hfin ▸ h.acked_fin, fun hb => ?_⟩
  · rw [packetAt_concat sent p (harrived pn hpn).ne]
    exact h.delivered pn hpn
  · rw [hnew]
    rcases List.mem_cons.mp hpn with rfl | hpn
    · rw [packetAt_concat_self]
      exact Set.disjoint_sdiff_right
    · rw [hold pn hpn]
      exact (h.flight_new pn hpn).mono_right Set.sdiff_subset
  · rw [hacked]
    rcases List.mem_cons.mp hpn with rfl | hpn
    · rw [packetAt_concat_self]
      exact Set.disjoint_left.mpr fun n hn => h.inv.disjoint n (hsub hn)
    · rw [hold pn hpn]
      exact h.flight_acked pn hpn
  · rcases List.mem_cons.mp hpn with rfl | hpn <;> rcases List.mem_cons.mp hk with rfl | hk
    · exact absurd rfl hne
    · rw [packetAt_concat_self, hold k hk]
      exact ((h.flight_new k hk).mono_right hsub).symm
    · rw [packetAt_concat_self, hold pn hpn]
      exact (h.flight_new pn hpn).mono_right hsub
    · rw [hold pn hpn, hold k hk]
      exact h.flights pn hpn k hk hne
  · rw [hnew, hacked]
    rcases h.place n hn with hn | hn | ⟨pn, hpn, hn⟩
    · by_cases hin : n ∈ Fifd.carried id p.chunks
      · exact Or.inr (Or.inr ⟨_, List.mem_cons_self, by rwa [packetAt_concat_self]⟩)
      · exact Or.inl ⟨hn, hin⟩
    · exact Or.inr (Or.inl hn)
    · exact Or.inr (Or.inr ⟨pn, List.mem_cons_of_mem _ hpn, by rwa [hold pn hpn]⟩)
  · rw [hacked]
    exact h.acked_arrived
  · rw [hsent, Bool.or_eq_true] at hb
    rcases hb with hb | hb
    · rw [hfin]
      refine (h.fin_place hb).imp_right ?_
      rintro ⟨pn, hpn, hb⟩
      exact ⟨pn, List.mem_cons_of_mem _ hpn, by rwa [hold pn hpn]⟩
    · exact Or.inr ⟨_, List.mem_cons_self, by rwa [packetAt_concat_self]⟩

section
variable {sent : List Packet} {inFlight arrived : List ℕ} {id : ℕ} {written : Bytes} {ops : List Op}
  {q : Sstream} (h : StreamInv sent inFlight arrived id written ops q)
include h

theorem StreamInv.write (hs : ∀ pn, (packetAt sent pn).Sound) {q' : Sstream} {more : Bytes}
    (hinv' : Inv q' (written ++ more)) (hfin : q.haveFinalSize = false)
    (hnew : ∀ k, k ∈ cover q'.newSet ↔
      k ∈ cover q.newSet ∨ (written.length ≤ k ∧ k < (written ++ more).length))
    (hacked : q'.ackedSet = q.ackedSet) (hflags : q'.flags = q.flags) :
    StreamInv sent inFlight arrived id (written ++ more) ops q' := by
  simp only [Sstream.flags, Prod.mk.injEq] at hflags
  obtain ⟨hhave, hsentFin, hackedFin⟩ := hflags
  rw [hfin] at hhave
  have hnofin : ¬ FinArrived ops := fun hf => by
    have := h.fin_ops hf
    rw [hfin] at this
    cases this
  refine ⟨hinv', fun hb => ?_, fun pn f hf hid => ?_, fun op hop => ?_, fun hf => absurd hf hnofin,
    h.delivered, fun pn hpn => ?_, fun pn hpn => ?_, h.flights, fun n hn => ?_, ?_,
    hackedFin ▸ h.acked_fin, ?_⟩
  · rw [hhave] at hb
    cases hb
  · rw [hhave]
    exact (hfin ▸ h.carried pn f hf hid : Carried written false f).append more
  · refine agrees_append more (h.agrees op hop) ?_
    rintro offset bytes rfl
    exact hnofin ⟨offset, bytes, hop⟩
  · refine Set.disjoint_left.mpr fun n hn hn' => ?_
    rcases (hnew n).mp hn' with hn' | hn'
    · exact Set.disjoint_left.mp (h.flight_new pn hpn) hn hn'
    · exact absurd (h.carried_lt (hs pn) hn) (by omega)
  · rw [hacked]
    exact h.flight_acked pn hpn
  · rw [hnew, hacked]
    rcases Nat.lt_or_ge n written.length with hlt | hge
    · exact (h.place n hlt).imp_left Or.inl
    · exact Or.inl (Or.inr ⟨hge, hn⟩)
  · rw [hacked]
    exact h.acked_arrived
  · rw [hsentFin, hackedFin]
    exact h.fin_place

theorem StreamInv.finish (hne : written ≠ []) :
    StreamInv sent inFlight arrived id written ops (fin q) where
  inv := h.inv.fin
  nonempty _ := hne
  carried pn f hf hid := ⟨(h.carried pn f hf hid).id_le, (h.carried pn f hf hid).len,
    (h.carried pn f hf hid).agrees, fun _ => rfl⟩
  agrees := h.agrees
  fin_ops _ := rfl
  delivered := h.delivered
  flight_new := h.flight_new
  flight_acked := h.flight_acked
  flights := h.flights
  place := h.place
  acked_arrived := h.acked_arrived
  acked_fin := h.acked_fin
  fin_place := h.fin_place

/-- More happens to the receive stream. -/
theorem StreamInv.receive {arrived' : List ℕ} {more : List Op}
    (hmore : ∀ op ∈ more, Agrees written op) (hfin : FinArrived more → q.haveFinalSize = true)
    (hdelivered : ∀ pn ∈ arrived', ∀ f ∈ (packetAt sent pn).frames, f.shdr.streamId = id →
      toOp f ∈ ops ++ more) :
    StreamInv sent inFlight arrived' id written (ops ++ more) q := by
  refine ⟨h.inv, h.nonempty, h.carried, fun op hop => ?_, ?_, hdelivered, h.flight_new,
    h.flight_acked, h.flights, h.place, fun n hn => ?_, fun hb => ?_, h.fin_place⟩
  · exact (List.mem_append.mp hop).elim (h.agrees op) (hmore op)
  · rintro ⟨offset, bytes, hop⟩
    exact (List.mem_append.mp hop).elim (fun hop => h.fin_ops ⟨offset, bytes, hop⟩)
      fun hop => hfin ⟨offset, bytes, hop⟩
  · obtain ⟨offset, bytes, b, hop, hn⟩ := h.acked_arrived n hn
    exact ⟨offset, bytes, b, List.mem_append_left _ hop, hn⟩
  · obtain ⟨offset, bytes, hop⟩ := h.acked_fin hb
    exact ⟨offset, bytes, List.mem_append_left _ hop⟩

theorem StreamInv.deliver (pn : ℕ) :
    StreamInv sent inFlight (pn :: arrived) id written
      (ops ++ ((packetAt sent pn).frames.filter (·.shdr.streamId == id)).map toOp) q := by
  have hmem : ∀ {f}, f ∈ (packetAt sent pn).frames.filter (·.shdr.streamId == id) →
      Carried written q.haveFinalSize f := fun hf => by
    obtain ⟨hf, hid⟩ := List.mem_filter.mp hf
    exact h.carried pn _ hf (beq_iff_eq.mp hid)
  refine h.receive (fun op hop => ?_) ?_ fun k hk f hf hid => ?_
  · obtain ⟨f, hf, rfl⟩ := List.mem_map.mp hop
    exact (hmem hf).agrees
  · rintro ⟨offset, bytes, hop⟩
    obtain ⟨f, hf, heq⟩ := List.mem_map.mp hop
    rw [toOp, Op.arrive.injEq] at heq
    exact (hmem hf).fin heq.2.2
  · rcases List.mem_cons.mp hk with rfl | hk
    · exact List.mem_append_right _
        (List.mem_map.mpr ⟨f, List.mem_filter.mpr ⟨hf, beq_iff_eq.mpr hid⟩, rfl⟩)
    · exact List.mem_append_left _ (h.delivered k hk f hf hid)

end

/-! ### Steps and runs

What a step does to one stream is told by the lemmas above. -/

section
variable {s : Net} (h : Good s)
include h

theorem Good.write (id : ℕ) (buf : Bytes) : Good (step s (.write id buf)) := by
  rcases hq : s.streams id with _ | q
  · simp only [Transfer.step, hq]
    exact h
  · have hst := h.stream id q hq
    obtain ⟨q', n, ok, happ, hok, hgood⟩ : ∃ q' n ok, append true q buf = some (q', n, ok) ∧
        (!ok && !q.haveFinalSize) = false ∧
        StreamInv s.sent s.inFlight s.arrived id (s.written id ++ buf.take n) (s.ops id) q' := by
      rcases hfin : q.haveFinalSize with _ | _
      · obtain ⟨q', n, ok, happ, hinv', hnew, hacked, hflags, hok⟩ := hst.inv.append true buf hfin
        exact ⟨q', n, ok, happ, by rw [(hok rfl).1]; rfl,
          hst.write h.sound hinv' hfin hnew hacked hflags⟩
      · refine ⟨q, 0, false, by rw [append, if_pos hfin], rfl, ?_⟩
        rw [List.take_zero, List.append_nil]
        exact hst
    simp only [Transfer.step, hq, happ]
    refine ⟨by rw [h.ok, hok]; rfl, h.given_up, h.sound, h.flight_lt, h.arrived_lt,
      fun j p hp => ?_⟩
    rcases eq_or_ne j id with rfl | hne
    · simp only [Function.update_self] at hp ⊢
      rw [← Option.some.inj hp]
      exact hgood
    · simp only [Function.update_of_ne hne] at hp ⊢
      exact h.stream j p hp

theorem Good.finish {id : ℕ} (ha : Allowed s (.finish id)) : Good (step s (.finish id)) := by
  refine ⟨h.ok, h.given_up, h.sound, h.flight_lt, h.arrived_lt, fun j p hp => ?_⟩
  simp only [Transfer.step] at hp ⊢
  rcases eq_or_ne j id with rfl | hne
  · rw [Function.update_self] at hp
    obtain ⟨q, hq, rfl⟩ := Option.map_eq_some_iff.mp hp
    exact (h.stream j q hq).finish ha
  · rw [Function.update_of_ne hne] at hp
    exact h.stream j p hp

theorem Good.send {parts : List Part} (ha : Allowed s (.send parts)) :
    Good (step s (.send parts)) := by
  obtain ⟨hids, hready⟩ := ha
  simp only [Transfer.step]
  rcases hmake : makePacket s.streams parts with _ | g
  · refine { h with given_up := fun g hg => ?_ }
    rcases List.mem_cons.mp hg with rfl | hg
    · rintro ⟨hcalm, hcount⟩
      obtain ⟨g, hg⟩ := makePacket_isSome (fun id q hq => (h.stream id q hq).inv) parts
        ⟨⟨0, 0, 0, false, false⟩, [], [], false, 0⟩ hready hcalm
        ((Nat.zero_add _).trans_le hcount)
      rw [makePacket, hg] at hmake
      cases hmake
    · exact h.given_up g hg
  · obtain ⟨fs, hframes, hchunks, hall, hasc⟩ :=
      makePacket_from (fun id q hq => (h.stream id q hq).inv) parts _ g hids hready hmake
    simp only [List.nil_append] at hframes hchunks
    have hsound : (Packet.mk g.frames g.chunks).Sound :=
      ⟨by rw [hframes, hchunks], by rwa [hframes]⟩
    have hcarries : ∀ id q, s.streams id = some q → ∀ f ∈ g.frames, f.shdr.streamId = id →
        f.shdr.streamId ≤ vlintMax ∧ f.Carries q (s.written id) := by
      rintro _ q hq f hf rfl
      rw [hframes] at hf
      exact ⟨(hall f hf).2.1, (hall f hf).2.2 q hq⟩
    obtain ⟨m, hm, hnone, hsome⟩ := @pktCommit_spec s.streams s.written g.chunks
      fun id q hq => ⟨(h.stream id q hq).inv, fun c hc => by
        rw [hchunks, mem_ofStream, List.mem_map] at hc
        obtain ⟨⟨f, hf, rfl⟩, hid⟩ := hc
        obtain ⟨hle, hcar⟩ := hcarries id q hq f (hframes ▸ hf) hid
        exact (Carried.of_carries hcar hle).chunkOf (h.stream id q hq).nonempty
          (h.stream id q hq).inv.length_lt⟩
    simp only [hm]
    refine ⟨h.ok, h.given_up, fun pn => ?_, fun pn hpn => ?_, fun pn hpn => ?_,
      fun id q' hq' => ?_⟩
    · rcases eq_or_ne pn s.sent.length with rfl | hne
      · rw [packetAt_concat_self]
        exact hsound
      · rw [packetAt_concat _ _ hne]
        exact h.sound pn
    · rw [List.length_append]
      rcases List.mem_cons.mp hpn with rfl | hpn
      · exact Nat.lt_add_one _
      · exact Nat.lt_add_right _ (h.flight_lt pn hpn)
    · rw [List.length_append]
      exact Nat.lt_add_right _ (h.arrived_lt pn hpn)
    · obtain ⟨q, hq, hinv', hview⟩ := found_before hnone hsome hq'
      exact (h.stream id q hq).send hinv' hsound (hcarries id q hq) h.flight_lt h.arrived_lt hview

theorem Good.deliver {pn : ℕ} (ha : Allowed s (.deliver pn)) : Good (step s (.deliver pn)) := by
  refine ⟨h.ok, h.given_up, h.sound, h.flight_lt, fun k hk => ?_,
    fun id q hq => (h.stream id q hq).deliver pn⟩
  rcases List.mem_cons.mp hk with rfl | hk
  · exact ha
  · exact h.arrived_lt k hk

theorem Good.ack {pn : ℕ} (ha : Allowed s (.ack pn)) : Good (step s (.ack pn)) := by
  obtain ⟨hpn, harr⟩ := ha
  obtain ⟨m, hm, hnone, hsome⟩ := onAcked_spec fun id q hq =>
    ⟨(h.stream id q hq).inv, (h.stream id q hq).apart (h.sound pn) hpn⟩
  simp only [Transfer.step, hm]
  refine ⟨h.ok, h.given_up, h.sound, fun k hk => h.flight_lt k (mem_others.mp hk).1, h.arrived_lt,
    fun id q' hq' => ?_⟩
  obtain ⟨q, hq, hinv', hview⟩ := found_before hnone hsome hq'
  exact (h.stream id q hq).ack hinv' (h.sound pn) hpn harr hview

theorem Good.lose {pn : ℕ} (ha : Allowed s (.lose pn)) : Good (step s (.lose pn)) := by
  obtain ⟨m, hm, hnone, hsome⟩ := onLost_spec fun id q hq =>
    ⟨(h.stream id q hq).inv, (h.stream id q hq).apart (h.sound pn) ha⟩
  simp only [Transfer.step, hm]
  refine ⟨h.ok, h.given_up, h.sound, fun k hk => h.flight_lt k (mem_others.mp hk).1, h.arrived_lt,
    fun id q' hq' => ?_⟩
  obtain ⟨q, hq, hinv', hview⟩ := found_before hnone hsome hq'
  exact (h.stream id q hq).lose hinv' ha hview

theorem Good.read (id size : ℕ) : Good (step s (.read id size)) := by
  refine ⟨h.ok, h.given_up, h.sound, h.flight_lt, h.arrived_lt, fun j q hq => ?_⟩
  have hst := h.stream j q hq
  simp only [Transfer.step]
  rcases eq_or_ne j id with rfl | hne
  · rw [Function.update_self]
    exact hst.receive (by simp [Agrees]) (by simp [FinArrived])
      fun pn hpn f hf hid => List.mem_append_left _ (hst.delivered pn hpn f hf hid)
  · rw [Function.update_of_ne hne]
    exact hst

/-- Every step keeps the invariant. -/
theorem Good.step {a : Action} (ha : Allowed s a) : Good (step s a) := by
  cases a with
  | write id buf => exact h.write id buf
  | finish => exact h.finish ha
  | send => exact h.send ha
  | deliver => exact h.deliver ha
  | ack => exact h.ack ha
  | lose => exact h.lose ha
  | read id size => exact h.read id size

end

/-- The streams before anything was written to them. -/
def Net.initial (streams : Streams) : Net :=
  ⟨streams, fun _ => [], [], [], [], fun _ => [], [], false⟩

def Fresh (q : Sstream) : Prop :=
  ∃ size block, (∀ b ∈ block, b.length = size) ∧ sstreamNew size block = some q

theorem Fresh.spec {q : Sstream} (h : Fresh q) : Inv q [] ∧ q.haveFinalSize = false := by
  obtain ⟨size, block, hblock, hnew⟩ := h
  refine ⟨inv_new hblock hnew, ?_⟩
  unfold sstreamNew at hnew
  split at hnew
  · rw [← Option.some.inj hnew]
  · cases hnew

theorem good_initial {streams : Streams} (h : ∀ id q, streams id = some q → Fresh q) :
    Good (.initial streams) := by
  refine ⟨rfl, by simp [Net.initial], fun pn => ⟨rfl, List.Pairwise.nil⟩, by simp [Net.initial],
    by simp [Net.initial], fun id q hq => ?_⟩
  obtain ⟨hinv, hfin⟩ := (h id q hq).spec
  refine ⟨hinv, fun hb => ?_, fun pn f hf => ?_, by simp [Net.initial],
    by simp [Net.initial, FinArrived],
    by simp [Net.initial], by simp [Net.initial], by simp [Net.initial], by simp [Net.initial],
    fun n hn => absurd hn (Nat.not_lt_zero n), fun n hn =>
      absurd (hinv.acked_lt n hn) (Nat.not_lt_zero n),
    fun hb => ?_, fun hb => ?_⟩
  · rw [hfin] at hb
    cases hb
  · simp [Net.initial, packetAt] at hf
  · have := hinv.acked_fin hb
    rw [hfin] at this
    cases this
  · have := hinv.sent_fin hb
    rw [hfin] at this
    cases this

theorem good_run {streams : Streams} (hfresh : ∀ id q, streams id = some q → Fresh q)
    {actions : List Action} (hrun : AllMeet step Allowed (.initial streams) actions) :
    Good (run step (.initial streams) actions) :=
  hrun.invariant (fun _ _ h ha => h.step ha) (good_initial hfresh)

/-- **Nothing is forgotten**: every byte written and the end of a stream are to be transmitted, in
flight, or with the receiver. What is in flight is in one packet only, and is not transmitted again
before that packet is lost. -/
theorem nothing_forgotten (streams : Streams) (hfresh : ∀ id q, streams id = some q → Fresh q)
    (actions : List Action) (hrun : AllMeet step Allowed (.initial streams) actions) :
    let s := run step (.initial streams) actions
    ∀ id q, s.streams id = some q →
      (∀ n < (s.written id).length, n ∈ cover q.newSet ∨ n ∈ ReceiveStream.arrived (s.ops id) ∨
        ∃ pn ∈ s.inFlight, n ∈ Fifd.carried id (packetAt s.sent pn).chunks) ∧
      (q.haveFinalSize = true → q.sentFinalSize = false ∨ FinArrived (s.ops id) ∨
        ∃ pn ∈ s.inFlight, finIn id (packetAt s.sent pn).chunks = true) ∧
      ∀ pn ∈ s.inFlight, ∀ n ∈ Fifd.carried id (packetAt s.sent pn).chunks, n ∉ cover q.newSet ∧
        ∀ k ∈ s.inFlight, n ∈ Fifd.carried id (packetAt s.sent k).chunks → k = pn := by
  intro s id q hq
  have hst := (good_run hfresh hrun).stream id q hq
  refine ⟨fun n hn => ?_, fun _ => ?_, fun pn hpn n hn => ⟨?_, fun k hk hn' => ?_⟩⟩
  · rcases hst.place n hn with hn | hn | hn
    · exact Or.inl hn
    · exact Or.inr (Or.inl (hst.acked_arrived n hn))
    · exact Or.inr (Or.inr hn)
  · rcases hb : q.sentFinalSize with _ | _
    · exact Or.inl rfl
    · exact Or.inr ((hst.fin_place hb).imp_left hst.acked_fin)
  · exact Set.disjoint_left.mp (hst.flight_new pn hpn) hn
  · by_contra hne
    exact Set.disjoint_left.mp (hst.flights k hk pn hpn hne) hn' hn

/-- **A stream that is totally acknowledged** can be read to its end: one read takes what is
left. -/
theorem totally_acked_read (streams : Streams) (hfresh : ∀ id q, streams id = some q → Fresh q)
    (actions : List Action) (hrun : AllMeet step Allowed (.initial streams) actions) :
    let s := run step (.initial streams) actions
    ∀ id q, s.streams id = some q → isTotallyAcked q = true → q.haveFinalSize = true →
      let r := run ReceiveStream.step .initial (s.ops id ++ [.read (s.written id).length])
      r.delivered = s.written id ∧ r.ended = true := by
  intro s id q hq hacked hhave
  have hst : StreamInv s.sent s.inFlight s.arrived id (s.written id) (s.ops id) q :=
    (good_run hfresh hrun).stream id q hq
  obtain ⟨hfin, hall⟩ := hst.inv.isTotallyAcked_iff.mp hacked
  have hsound := ReceiveStream.sound_run hst.agrees
  rw [run_append, run_cons, run_nil]
  generalize run ReceiveStream.step .initial (s.ops id) = r at hsound ⊢
  obtain ⟨bytes, b, hread, hbytes, -, hnext, hend⟩ := hsound.next_read (s.written id).length
  have hlen := congrArg List.length hbytes
  rw [List.length_append, List.length_take] at hlen
  -- the read stops only at a byte that has not arrived
  have heq : r.delivered.length + bytes.length = (s.written id).length := by
    by_contra hne
    exact hnext (by omega) (hst.acked_arrived _ (hall _ (by omega)))
  rcases hout : ReceiveStream.rstreamRead r.fl (s.written id).length with ⟨fl, out⟩
  rw [hout] at hread
  simp only at hread
  simp only [ReceiveStream.step, hout, hread]
  refine ⟨by rw [hbytes, heq, List.take_length], ?_⟩
  rw [hend.mpr ⟨hst.acked_fin (hfin hhave), heq⟩, Bool.or_true]

/-! ### Three bytes are written, sent, acknowledged and read -/

def demoStream : Sstream := ⟨⟨[0, 0, 0, 0], 0, 0⟩, [], [], false, false, false, false⟩

def demoStreams : Streams := Function.update (fun _ => none) 4 (some demoStream)

def demoPart : Part :=
  ⟨4, ⟨0, 100, false⟩, ⟨0, 100, false⟩, 0, false, false, ⟨69, 0, 0, false, false⟩⟩

def demoActions : List Action :=
  [.write 4 [1, 2, 3], .finish 4, .send [demoPart], .deliver 0, .ack 0, .read 4 8]

theorem demo_fresh : ∀ id q, demoStreams id = some q → Fresh q := by
  intro id q hq
  rcases eq_or_ne id 4 with rfl | hne
  · rw [demoStreams, Function.update_self] at hq
    rw [← Option.some.inj hq]
    refine ⟨4, some [0, 0, 0, 0], by simp, ?_⟩
    rw [sstreamNew, RingBuffer.ringBufResize, if_neg (by decide), if_neg (by decide),
      RingBuffer.resizeCopy]
    rfl
  · rw [demoStreams, Function.update_of_ne hne] at hq
    cases hq

theorem demo_append : append true demoStream [1, 2, 3] =
    some (⟨⟨[1, 2, 3, 0], 3, 0⟩, [⟨0, 2⟩], [], false, false, false, false⟩, 3, true) := by
  have hpush : RingBuffer.ringBufPush ⟨[0, 0, 0, 0], 0, 0⟩ [1, 2, 3] =
      some (⟨[1, 2, 3, 0], 3, 0⟩, 3) := by
    rw [RingBuffer.ringBufPush, dif_neg (by decide)]
    simp only
    rw [show RingBuffer.memcpy [0, 0, 0, 0] _ _ = some [1, 2, 3, 0] from rfl, Option.bind_some,
      RingBuffer.ringBufPush, dif_pos (by decide)]
    rfl
  rw [demoStream, append, if_neg (by decide), appendLoop, dif_neg (by decide), hpush,
    Option.bind_some, dif_neg (by decide), appendLoop, dif_pos (by decide)]
  rfl

def demoEnded : Sstream := ⟨⟨[1, 2, 3, 0], 3, 0⟩, [⟨0, 2⟩], [], true, false, false, false⟩

/-- After the bytes are written and the stream is ended. -/
def demoNet : Net where
  streams := Function.update demoStreams 4 (some demoEnded)
  written := Function.update (fun _ => []) 4 [1, 2, 3]
  sent := []
  inFlight := []
  arrived := []
  ops := fun _ => []
  givenUp := []
  failed := false

theorem demo_written :
    AllMeet step Allowed (.initial demoStreams) [.write 4 [1, 2, 3], .finish 4] ∧
    run step (.initial demoStreams) [.write 4 [1, 2, 3], .finish 4] = demoNet := by
  have hwrite : step (.initial demoStreams) (.write 4 [1, 2, 3]) = { Net.initial demoStreams with
      streams := Function.update demoStreams 4
        (some ⟨⟨[1, 2, 3, 0], 3, 0⟩, [⟨0, 2⟩], [], false, false, false, false⟩)
      written := Function.update (fun _ => []) 4 [1, 2, 3] } := by
    simp only [step, Net.initial, demoStreams, Function.update_self, demo_append]
    rfl
  refine ⟨⟨trivial, ?_, trivial⟩, ?_⟩
  · rw [hwrite]
    simp [Allowed]
  · rw [run_cons, run_cons, run_nil, hwrite]
    simp only [step, Function.update_self, Function.update_idem, Option.map_some, fin]
    rfl

theorem demo_ready : Allowed demoNet (.send [demoPart]) :=
  ⟨by simp, fun p hp => by
    rw [List.mem_singleton.mp hp]
    exact ⟨by unfold Room; decide, by decide, fun q _ => ⟨rfl, by decide⟩⟩⟩

def demoSent : Sent := ⟨⟨4, 0, 3, true, true⟩, [1, 2, 3]⟩

theorem demo_frame : getStreamFrame demoEnded 0 = some ⟨0, 3, true, [[1, 2, 3]]⟩ := by
  have hgather : gatherIov ⟨[1, 2, 3, 0], 3, 0⟩ 0 3 0 = some [[1, 2, 3]] := by
    rw [gatherIov, dif_neg (by decide)]
    simp only [show RingBuffer.ringBufGetBufAt ⟨[1, 2, 3, 0], 3, 0⟩ (0 + 0) =
      some [1, 2, 3] from rfl]
    rw [dif_neg (by decide), gatherIov, dif_pos (by decide)]
    rfl
  rw [getStreamFrame]
  simp only [demoEnded, List.reverse_singleton, List.getElem?_cons_zero]
  rw [show IntegerSet.u64Succ (2 - 0) = 3 from rfl, hgather]
  rfl

theorem demo_generate :
    generateStreamFrames (demoPart.args demoEnded) ⟨demoPart.h, [], [], false, 0⟩ =
    some ⟨⟨69, 0, 6, true, false⟩, [demoSent], [⟨4, 0, 2, true⟩], false, 3⟩ := by
  have h0 : planStreamChunk (demoPart.args demoEnded) 0 =
      some (some ⟨⟨0, 3, true, [[1, 2, 3]]⟩, 3⟩) :=
    planStreamChunk_of_le (rfl : (demoPart.args demoEnded).fcLimit = some 100) demo_frame
      (by decide) (by decide)
  have h1 : planStreamChunk (demoPart.args demoEnded) 1 = some (some ⟨⟨3, 0, true, []⟩, 0⟩) := rfl
  rw [generateStreamFrames, h0, h1]
  simp only
  rw [generateLoop_of_chunk (by rw [chunkAt, if_neg (by decide), h0]), if_neg (by decide),
    if_neg (by decide)]
  simp only [h1]
  rw [show round (demoPart.args demoEnded) _ _ _ =
    .next ⟨⟨69, 0, 6, true, false⟩, [demoSent], [⟨4, 0, 2, true⟩], false, 3⟩ true from rfl]
  exact generateLoop_of_out rfl

theorem demo_stream : demoNet.streams 4 = some demoEnded := by
  simp [demoNet]

theorem demo_make : makePacket demoNet.streams [demoPart] =
    some ⟨⟨69, 0, 6, true, false⟩, [demoSent], [⟨4, 0, 2, true⟩], false, 3⟩ := by
  rw [makePacket, List.foldlM_cons, addStream,
    show demoNet.streams demoPart.id = _ from demo_stream]
  simp only [demo_generate]
  rfl

def demoFlying : Sstream := ⟨⟨[1, 2, 3, 0], 3, 0⟩, [], [], true, true, false, false⟩

def demoAcked : Sstream := ⟨⟨[1, 2, 3, 0], 3, 3⟩, [], [⟨0, 2⟩], true, true, true, false⟩

theorem demo_commit : pktCommit true demoNet.streams [⟨4, 0, 2, true⟩] =
    some (Function.update demoNet.streams 4 (some demoFlying)) := by
  rw [pktCommit, getChunks, List.mergeSort_singleton, forChunks]
  simp only [demo_stream]
  rfl

theorem demo_ack :
    onAcked true (Function.update demoNet.streams 4 (some demoFlying)) [⟨4, 0, 2, true⟩] =
    some (Function.update demoNet.streams 4 (some demoAcked)) := by
  rw [onAcked, getChunks, List.mergeSort_singleton, forChunks]
  simp only [Function.update_self, Option.bind_some, forChunks, Function.update_idem,
    show ackChunk true demoFlying ⟨4, 0, 2, true⟩ = some demoAcked from rfl]

/-- The packet is in flight. -/
def demoFlown : Net :=
  { demoNet with
    streams := Function.update demoNet.streams 4 (some demoFlying)
    sent := [⟨[demoSent], [⟨4, 0, 2, true⟩]⟩]
    inFlight := [0] }

theorem demo_run : AllMeet step Allowed (.initial demoStreams) demoActions ∧
    (run step (.initial demoStreams) demoActions).streams 4 = some demoAcked := by
  obtain ⟨hmeet, hrun⟩ := demo_written
  have hsend : step demoNet (.send [demoPart]) = demoFlown := by
    simp only [step, demo_make, demo_commit]
    rfl
  have hack : ∀ s : Net, s.streams = Function.update demoNet.streams 4 (some demoFlying) →
      packetAt s.sent 0 = ⟨[demoSent], [⟨4, 0, 2, true⟩]⟩ → (step s (.ack 0)).streams =
        Function.update demoNet.streams 4 (some demoAcked) := by
    intro s hs hp
    simp only [step, hs, hp, demo_ack]
  constructor
  · refine allMeet_append.mpr ⟨hmeet, ?_⟩
    rw [hrun]
    refine ⟨demo_ready, ?_⟩
    rw [hsend]
    exact ⟨Nat.zero_lt_one, ⟨List.mem_cons_self, List.mem_cons_self⟩, trivial, trivial⟩
  · have hsplit : demoActions = [.write 4 [1, 2, 3], .finish 4] ++
        [.send [demoPart], .deliver 0, .ack 0, .read 4 8] := rfl
    rw [hsplit, run_append, hrun, run_cons, hsend, run_cons,
      run_cons]
    refine (congrFun (hack (step demoFlown (.deliver 0)) rfl rfl) 4).trans ?_
    exact Function.update_self ..

theorem nothing_forgotten_demo :
    demoAcked.haveFinalSize = true ∧ (demoAcked.sentFinalSize = false ∨
      FinArrived ((run step (.initial demoStreams) demoActions).ops 4) ∨
      ∃ pn ∈ (run step (.initial demoStreams) demoActions).inFlight,
        finIn 4 (packetAt (run step (.initial demoStreams) demoActions).sent pn).chunks = true) :=
  ⟨rfl, (nothing_forgotten demoStreams demo_fresh demoActions demo_run.1 4 demoAcked
    demo_run.2).2.1 rfl⟩

theorem totally_acked_read_demo :
    isTotallyAcked demoAcked = true ∧
      (run ReceiveStream.step .initial
        ((run step (.initial demoStreams) demoActions).ops 4 ++
          [.read ((run step (.initial demoStreams) demoActions).written 4).length])).ended = true :=
  ⟨rfl, (totally_acked_read demoStreams demo_fresh demoActions demo_run.1 4 demoAcked demo_run.2
    rfl rfl).2⟩

end PapQuic.Transport.Transfer
