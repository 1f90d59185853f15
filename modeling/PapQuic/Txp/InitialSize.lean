import PapQuic.Txp.Datagram
import Mathlib.Algebra.Order.BigOperators.Group.List
import Mathlib.Algebra.Order.Ring.Nat

/-! # The size of Initial datagrams

A datagram with an Initial packet has to have at least 1200 bytes. `generate` plans for that: it
pads what it has staged. But it plans with a length field of two bytes in the Initial packet, and
for all staged packets, while the credit is asked for packet by packet when they are committed. So
the datagram is too short when the packets that are left out of it, and the byte that a short
Initial packet saves, are more than what was planned beyond 1200 bytes; and it is too long when
length fields of four bytes take it beyond `mdpl`. `initial_dgram_iff` says so of every call, and
`initial_dgram_of_covered` that in datagrams of up to 16383 bytes neither happens when the credit
covers everything and the Initial packet is not short. -/

namespace PapQuic.Txp.InitialSize

open Wire.Packet Wire.Vlint Wire.Header Txp.Credit Txp.Generate Txp.Datagram

/-! ### The datagram of the Initial packet -/

/-- No STREAM frame goes into an Initial packet: no archetype allows one there. -/
def NoStream (input : GenerateInput) : Prop :=
  ∀ n g, (input.el .initial).generateForEl n = some g → g.val.doneImplicit = false

/-- The packets that get into a datagram of `dataLen` bytes: each while the credit covers it, its
commit succeeds and it fits. After a commit that fails nothing follows. -/
def together (input : GenerateInput) (allocLen : ℕ) : ℕ → ℕ → List TxpPkt → List TxpPkt
  | _, _, [] => []
  | credit, dataLen, pkt :: pkts =>
    if pkt.bytesAppended = 0 then together input allocLen credit dataLen pkts
    else if checkUnvalidatedCredit credit pkt.bytesAppended = false ∨
        (input.el pkt.encLevel).commitOutcome = .notWritten then []
    else
      match pktLen input.path pkt with
      | none => []
      | some len =>
        if fits allocLen dataLen len = false then []
        else if (input.el pkt.encLevel).commitOutcome = .written then
          pkt :: together input allocLen (consumeUnvalidatedCredit credit pkt.bytesAppended)
            (dataLen + len) pkts
        else [pkt]

/-- The packets that go into the datagram of the Initial packet, where there is one. -/
def companions (allocLen credit : ℕ) (input : GenerateInput) : List TxpPkt :=
  together input allocLen credit 0 (stagedPackets input)

/-- What an Initial packet saves when its length field takes one byte and not two. -/
def saves (path : Path) (pkt : TxpPkt) : ℕ :=
  if pkt.encLevel = .initial then 2 - lengthFieldLen path pkt else 0

def saved (path : Path) (pkts : List TxpPkt) : ℕ := (pkts.map (saves path)).sum

/-- What an Initial packet grows by when its length field takes more than two bytes. -/
def grows (path : Path) (pkt : TxpPkt) : ℕ :=
  if pkt.encLevel = .initial then lengthFieldLen path pkt - 2 else 0

def grown (path : Path) (pkts : List TxpPkt) : ℕ := (pkts.map (grows path)).sum

/-! ### What is planned -/

section Planned

variable {input : GenerateInput}

/-- A packet as it is staged. -/
structure StagedPkt (input : GenerateInput) (pkt : TxpPkt) : Prop where
  hdr : plannedHdrLen input.path pkt.encLevel ≠ 0
  overhead : ∃ tagLen, input.path.tagLen pkt.encLevel = some tagLen ∧
    pkt.pktOverhead = plannedHdrLen input.path pkt.encLevel + tagLen
  implicit : pkt.encLevel = .initial → ∃ n g, (input.el .initial).generateForEl n = some g ∧
    g.val.doneImplicit = pkt.doneImplicit

/-- What has been staged fits into a datagram, one level after the other. -/
theorem stageLoop_spec : ∀ {levels : List EncLevel} {runningTotal : ℕ} {pkts : List TxpPkt},
    stageLoop input levels runningTotal = some pkts → runningTotal ≤ input.path.mdpl →
    (pkts.map TxpPkt.encLevel).Sublist levels ∧ (∀ p ∈ pkts, StagedPkt input p) ∧
      runningTotal + (pkts.map fun p => p.bytesAppended + p.pktOverhead).sum ≤ input.path.mdpl
  | [], _, _, h, hr => by
    cases h
    exact ⟨.slnil, by simp, by simpa using hr⟩
  | encLevel :: levels, runningTotal, pkts, h, hr => by
    unfold stageLoop at h
    rcases hs : stageLevel input encLevel runningTotal with _ | _ | _ | pkt
    · rw [hs] at h
      obtain ⟨h1, h2, h3⟩ := stageLoop_spec h hr
      exact ⟨h1.cons _, h2, h3⟩
    · rw [hs] at h
      cases h
      exact ⟨List.nil_sublist _, by simp, by simpa using hr⟩
    · rw [hs] at h
      cases h
    · rw [hs] at h
      obtain ⟨rest, hrest, rfl⟩ := Option.map_eq_some_iff.mp h
      obtain ⟨cmpl, cmppl, overhead, g, hgeom, hg, rfl⟩ := stageLevel_spec hs
      obtain ⟨hz, hcmpl, hsum, tagLen, htag, hover⟩ := txpDetermineGeometry_spec hgeom
      have hle := g.property
      obtain ⟨h1, h2, h3⟩ := stageLoop_spec hrest (by dsimp only; omega)
      refine ⟨h1.cons_cons _, List.forall_mem_cons.mpr ⟨⟨hz, ⟨tagLen, htag, hover⟩, ?_⟩, h2⟩, ?_⟩
      · rintro rfl
        exact ⟨cmppl, g, hg, rfl⟩
      · simp only [List.map_cons, List.sum_cons] at h3 ⊢
        omega

/-- The packets come in the order of the levels: nothing follows a 1-RTT packet, and no Initial
packet follows another. -/
def Ordered (pkts : List TxpPkt) : Prop :=
  (pkts.map TxpPkt.encLevel).Pairwise fun a b => a ≠ .oneRtt ∧ b ≠ .initial

theorem Ordered.of_sublist {pkts : List TxpPkt} (h : (pkts.map TxpPkt.encLevel).Sublist encLevels) :
    Ordered pkts :=
  List.Pairwise.sublist h (by decide)

/-! ### What is on the wire -/

variable {path : Path}

/-- A header that can be encoded for one payload can be encoded for any that is not too long. -/
theorem hdrLen_ne_zero {encLevel : EncLevel} {len : ℕ} (h : plannedHdrLen path encLevel ≠ 0)
    (hlen : len + txpDeterminePnLen ≤ vlintMax) :
    getEncodedPktHdrLen path.curDcidLen (path.phdr encLevel len) ≠ 0 := by
  have hv : vlintEncodeLen (len + txpDeterminePnLen) ≠ 0 := (vlintEncodeLen_pos hlen).ne'
  have ht (n : ℕ) : tokenFieldLen (path.phdr encLevel n) = tokenFieldLen (path.phdr encLevel 0) :=
    rfl
  have hl (n : ℕ) : (path.phdr encLevel n).len + (path.phdr encLevel n).pnLen =
    n + txpDeterminePnLen := rfl
  unfold plannedHdrLen getEncodedPktHdrLen at h
  unfold getEncodedPktHdrLen
  rw [ht, hl, show (path.phdr encLevel _).encLevel = encLevel from rfl] at h ⊢
  by_cases h1 : encLevel = .oneRtt
  · rw [if_pos h1] at h ⊢
    exact h
  · -- The conditions are the same for the two lengths, that on the length field apart.
    rw [if_neg h1] at h ⊢
    rw [if_neg hv]
    simp only [Path.phdr, txpDeterminePnLen] at h ⊢
    split_ifs at h ⊢
    all_goals omega

theorem plannedHdrLen_eq {encLevel : EncLevel} (h : plannedHdrLen path encLevel ≠ 0) :
    plannedHdrLen path encLevel = hdrBase path encLevel + if encLevel = .oneRtt then 0 else 2 :=
  hdrLen_eq h

/-- A packet whose overhead is up to date. -/
structure Fitted (path : Path) (pkt : TxpPkt) : Prop where
  hdr : plannedHdrLen path pkt.encLevel ≠ 0
  overhead : ∃ tagLen, path.tagLen pkt.encLevel = some tagLen ∧
    pkt.pktOverhead = (if pkt.encLevel = .initial then plannedHdrLen path .initial
      else getEncodedPktHdrLen path.curDcidLen
        (path.phdr pkt.encLevel (pkt.bytesAppended + tagLen))) + tagLen

/-- The length of a packet is what is planned, up to the length field of an Initial packet. -/
theorem Fitted.pktLen_add {pkt : TxpPkt} (h : Fitted path pkt) {len : ℕ}
    (hlen : pktLen path pkt = some len) :
    len + saves path pkt = pkt.pktOverhead + pkt.bytesAppended + grows path pkt := by
  obtain ⟨tagLen, htag, hover⟩ := h.overhead
  simp only [pktLen, htag] at hlen
  split_ifs at hlen with hz
  rw [Option.some.injEq] at hlen
  have he := hdrLen_eq hz
  rw [← hlen, hover, saves, grows]
  by_cases hi : pkt.encLevel = .initial
  · have hp := plannedHdrLen_eq h.hdr
    rw [hi, if_neg (by decide)] at hp
    simp only [hi, if_true, reduceCtorEq, if_false] at he ⊢
    rw [he, hp, lengthFieldLen, htag, Option.getD_some]
    omega
  · simp only [hi, if_false]
    omega

/-! ### The adjustment -/

/-- What the update of the overheads does to a packet. -/
structure Updated (path : Path) (p q : TxpPkt) : Prop where
  encLevel : q.encLevel = p.encLevel
  bytesAppended : q.bytesAppended = p.bytesAppended
  doneImplicit : q.doneImplicit = p.doneImplicit
  overhead : p.bytesAppended ≠ 0 →
    q.pktOverhead = (txpPktPostgenUpdatePktOverhead path p).pktOverhead

theorem updated_expandMaxPpl {el : ElInput} {p q : TxpPkt}
    (h : expandMaxPpl el (txpPktPostgenUpdatePktOverhead path p) = some q) : Updated path p q := by
  have hu : (txpPktPostgenUpdatePktOverhead path p).encLevel = p.encLevel ∧
      (txpPktPostgenUpdatePktOverhead path p).bytesAppended = p.bytesAppended ∧
      (txpPktPostgenUpdatePktOverhead path p).doneImplicit = p.doneImplicit := by
    unfold txpPktPostgenUpdatePktOverhead
    split <;> exact ⟨rfl, rfl, rfl⟩
  unfold expandMaxPpl at h
  dsimp only at h
  split_ifs at h <;> cases h <;> exact ⟨hu.1, hu.2.1, hu.2.2, fun _ => rfl⟩

theorem updated_updateLoop : ∀ {pkts pkts' : List TxpPkt}, updateLoop input pkts = some pkts' →
    List.Forall₂ (Updated input.path) pkts pkts'
  | [], _, h => by
    cases h
    exact .nil
  | pkt :: pkts, pkts', h => by
    unfold updateLoop at h
    split_ifs at h with h0
    · obtain ⟨rest, hrest, rfl⟩ := Option.map_eq_some_iff.mp h
      exact .cons ⟨rfl, rfl, rfl, fun hne => absurd h0 hne⟩ (updated_updateLoop hrest)
    · simp only [Option.bind_eq_bind, Option.bind_eq_some_iff, Option.pure_def,
        Option.some.injEq] at h
      obtain ⟨pkt', hpkt', rest, hrest, rfl⟩ := h
      exact .cons (updated_expandMaxPpl hpkt') (updated_updateLoop hrest)

theorem Updated.fitted {p q : TxpPkt} (hp : StagedPkt input p) (h : Updated input.path p q)
    (h0 : q.bytesAppended ≠ 0) : Fitted input.path q := by
  obtain ⟨tagLen, htag, hover⟩ := hp.overhead
  have hov := h.overhead (by rwa [h.bytesAppended] at h0)
  refine ⟨by rw [h.encLevel]; exact hp.hdr, tagLen, by rw [h.encLevel]; exact htag, ?_⟩
  rw [h.encLevel, h.bytesAppended, hov]
  unfold txpPktPostgenUpdatePktOverhead
  by_cases hi : p.encLevel = .initial
  · simp only [hi, if_true]
    rw [hover, hi]
  · rw [if_neg hi]
    simp only [htag]
    omega

/-- Packets that are up to date. -/
structure Ready (input : GenerateInput) (pkts : List TxpPkt) : Prop where
  ordered : Ordered pkts
  fitted : ∀ p ∈ pkts, p.bytesAppended ≠ 0 → Fitted input.path p

theorem totalDgramSize_cons (pkt : TxpPkt) (pkts : List TxpPkt) : totalDgramSize (pkt :: pkts) =
    (if pkt.bytesAppended = 0 then 0 else pkt.pktOverhead + pkt.bytesAppended) +
      totalDgramSize pkts := by
  simp [totalDgramSize]

theorem totalDgramSize_append (a b : List TxpPkt) :
    totalDgramSize (a ++ b) = totalDgramSize a + totalDgramSize b := by
  simp [totalDgramSize]

theorem encLevel_updateLoop {pkts us : List TxpPkt} (hu : updateLoop input pkts = some us) :
    us.map TxpPkt.encLevel = pkts.map TxpPkt.encLevel := by
  have h := updated_updateLoop hu
  clear hu
  induction h with
  | nil => rfl
  | cons hpq _ ih => rw [List.map_cons, List.map_cons, ih, hpq.encLevel]

theorem ready_updateLoop {pkts us : List TxpPkt} (hs : stageLoop input encLevels 0 = some pkts)
    (hu : updateLoop input pkts = some us) (hr : NoStream input) :
    Ready input us ∧ ∀ q ∈ us, q.encLevel = .initial → q.doneImplicit = false := by
  obtain ⟨hsub, hp, -⟩ := stageLoop_spec hs (Nat.zero_le _)
  have h := updated_updateLoop hu
  have hlevels := encLevel_updateLoop hu
  have hmem : ∀ q ∈ us, ∃ p ∈ pkts, Updated input.path p q := by
    clear hsub hp hu hs hlevels
    induction h with
    | nil => simp
    | @cons p q pkts us hpq _ ih =>
      refine List.forall_mem_cons.mpr ⟨⟨p, List.mem_cons_self, hpq⟩, fun q hq => ?_⟩
      obtain ⟨p', hp', hpq'⟩ := ih q hq
      exact ⟨p', List.mem_cons_of_mem _ hp', hpq'⟩
  refine ⟨⟨Ordered.of_sublist (hlevels ▸ hsub), fun q hq h0 => ?_⟩, fun q hq hi => ?_⟩
  · obtain ⟨p, hpm, hpq⟩ := hmem q hq
    exact hpq.fitted (hp p hpm) h0
  · obtain ⟨p, hpm, hpq⟩ := hmem q hq
    obtain ⟨n, g, hg, hd⟩ := (hp p hpm).implicit (hpq.encLevel ▸ hi)
    rw [hpq.doneImplicit, ← hd]
    exact hr n g hg

/-- The padding goes into the first packet that can take it. -/
theorem appendPadding_spec {deficit : ℕ} : ∀ {pkts pkts' : List TxpPkt},
    appendPadding input deficit pkts = some pkts' → pkts' = pkts ∨
      ∃ pre p post, pkts = pre ++ p :: post ∧ (∀ q ∈ pre, q.padable input.archetype = false) ∧
        p.padable input.archetype = true ∧
        pkts' = pre ++ { p with bytesAppended := p.bytesAppended + deficit,
                                numBytes := p.numBytes + deficit } :: post
  | [], _, h => by
    cases h
    exact .inl rfl
  | pkt :: pkts, pkts', h => by
    unfold appendPadding at h
    split_ifs at h with hpad
    · cases h
      exact .inr ⟨[], pkt, pkts, rfl, by simp, hpad, rfl⟩
    · obtain ⟨rest, hrest, rfl⟩ := Option.map_eq_some_iff.mp h
      rcases appendPadding_spec hrest with rfl | ⟨pre, p, post, rfl, hpre, hp, rfl⟩
      · exact .inl rfl
      · refine .inr ⟨pkt :: pre, p, post, rfl, ?_, hp, rfl⟩
        exact List.forall_mem_cons.mpr ⟨by simpa using hpad, hpre⟩

/-- Where there is an Initial packet, it takes the padding. -/
theorem Ready.appendPadding {us pkts : List TxpPkt} (h : Ready input us)
    (hr : ∀ q ∈ us, q.encLevel = .initial → q.doneImplicit = false) {deficit : ℕ}
    (ha : Generate.appendPadding input deficit us = some pkts) {i : TxpPkt} (hi : i ∈ pkts)
    (hl : i.encLevel = .initial) (h0 : i.bytesAppended ≠ 0) : Ready input pkts := by
  rcases appendPadding_spec ha with rfl | ⟨pre, p, post, rfl, hpre, hp, rfl⟩
  · exact h
  · have hpad := hp
    simp only [TxpPkt.padable, Bool.and_eq_true, decide_eq_true_eq] at hpad
    have hord := h.ordered
    rw [Ordered, List.map_append, List.map_cons, List.pairwise_append, List.pairwise_cons] at hord
    have hpi : p.encLevel = .initial := by
      rcases List.mem_append.mp hi with hi | hi
      · have hni := hpre i hi
        have hs := hr i (by simp [hi]) hl
        simp [TxpPkt.padable, h0, hs, hpad.1.2] at hni
      · rcases List.mem_cons.mp hi with rfl | hi
        · exact hl
        · exact absurd hl (hord.2.1.1 _ (List.mem_map_of_mem hi)).2
    refine ⟨by simpa [Ordered] using h.ordered, fun q hq hq0 => ?_⟩
    rcases List.mem_append.mp hq with hq | hq
    · exact h.fitted q (by simp [hq]) hq0
    · rcases List.mem_cons.mp hq with rfl | hq
      · -- the overhead of an Initial packet does not depend on its payload
        obtain ⟨hhdr, tagLen, htag, hover⟩ := h.fitted p (by simp) hpad.1.1
        rw [if_pos hpi] at hover
        exact ⟨hhdr, tagLen, htag, by simpa only [hpi, if_true] using hover⟩
      · exact h.fitted q (by simp [hq]) hq0

theorem ready_stagedPackets (hr : NoStream input) {i : TxpPkt} (hi : i ∈ stagedPackets input)
    (hl : i.encLevel = .initial) (h0 : i.bytesAppended ≠ 0) :
    Ready input (stagedPackets input) ∧
      quicMinInitialDgramLen ≤ totalDgramSize (stagedPackets input) := by
  unfold stagedPackets at hi ⊢
  rcases h : (stageLoop input encLevels 0).bind (adjust input) with _ | pkts
  · rw [h] at hi
    cases hi
  · rw [h, Option.getD_some] at hi
    rw [Option.getD_some]
    obtain ⟨staged, hstaged, hadjust⟩ := Option.bind_eq_some_iff.mp h
    rcases adjust_spec hadjust with ⟨hn, rfl⟩ | ⟨-, hge, us, hus, rfl | ⟨hlt, hpad⟩⟩
    · have hneed : needPadding pkts = true := List.any_eq_true.mpr ⟨i, hi, by simp [hl, h0]⟩
      rw [hn] at hneed
      cases hneed
    · exact ⟨(ready_updateLoop hstaged hus hr).1, hge⟩
    · obtain ⟨hready, hno⟩ := ready_updateLoop hstaged hus hr
      exact ⟨hready.appendPadding hno hpad hi hl h0, hge⟩

end Planned

/-! ### What is sent together -/

section Together

variable {input : GenerateInput} {allocLen : ℕ}

theorem together_spec : ∀ (pkts : List TxpPkt) (credit dataLen : ℕ),
    (together input allocLen credit dataLen pkts).Sublist pkts ∧
      ∀ p ∈ together input allocLen credit dataLen pkts, p.bytesAppended ≠ 0 ∧
        (pktLen input.path p).isSome = true
  | [], _, _ => by simp [together]
  | pkt :: pkts, credit, dataLen => by
    unfold together
    rcases hlen : pktLen input.path pkt with _ | len
    · obtain ⟨h1, h2⟩ := together_spec pkts credit dataLen
      dsimp only
      split_ifs
      · exact ⟨h1.cons pkt, h2⟩
      · exact ⟨List.nil_sublist _, by simp⟩
      · exact ⟨List.nil_sublist _, by simp⟩
    · dsimp only
      have hpkt : (pktLen input.path pkt).isSome = true := by rw [hlen]; rfl
      split_ifs with h0
      · obtain ⟨h1, h2⟩ := together_spec pkts credit dataLen
        exact ⟨h1.cons pkt, h2⟩
      · exact ⟨List.nil_sublist _, by simp⟩
      · exact ⟨List.nil_sublist _, by simp⟩
      · obtain ⟨h1, h2⟩ := together_spec pkts (consumeUnvalidatedCredit credit pkt.bytesAppended)
          (dataLen + len)
        exact ⟨h1.cons_cons pkt, List.forall_mem_cons.mpr ⟨⟨h0, hpkt⟩, h2⟩⟩
      · exact ⟨(List.nil_sublist _).cons_cons pkt, by simpa using ⟨h0, hpkt⟩⟩

theorem commitLoop_cons (el : EncLevel → ElInput) {credit : ℕ} {pkt : TxpPkt}
    (h0 : pkt.bytesAppended ≠ 0) (hc : ¬ checkUnvalidatedCredit credit pkt.bytesAppended = false)
    (pkts : List TxpPkt) : ∃ c : Commit, c.pkt = pkt ∧ c.outcome = (el pkt.encLevel).commitOutcome ∧
      (commitLoop el credit (pkt :: pkts)).1 = c ::
        if (el pkt.encLevel).commitOutcome = .written then
          (commitLoop el (consumeUnvalidatedCredit credit pkt.bytesAppended) pkts).1 else [] := by
  refine ⟨⟨pkt, credit, consumeUnvalidatedCredit credit pkt.bytesAppended, _⟩, rfl, rfl, ?_⟩
  rw [commitLoop, if_neg h0, if_neg hc]
  dsimp only
  split_ifs <;> rfl

theorem finishDgram_of_pos {d : Dgram} (h : 0 < d.dataLen) : finishDgram d = [d] :=
  if_neg h.ne'

/-- A packet that does not fit leaves the datagram as it is; it may go into one of its own. -/
theorem qtxWritePkt_apart {path : Path} {cons : Dgram} (hpos : 0 < cons.dataLen) {pkt : TxpPkt}
    {len : ℕ} (hlen : pktLen path pkt = some len)
    (hfits : ¬ fits allocLen cons.dataLen len = true) :
    qtxWritePkt path allocLen cons pkt = none ∨ ∃ done d,
      qtxWritePkt path allocLen cons pkt = some (cons :: done, d) ∧
        ∀ x ∈ d :: done, Filled path x ∧ ∀ p ∈ x.pkts, p = pkt := by
  have hempty : Filled path .empty ∧ ∀ p ∈ Dgram.empty.pkts, p = pkt :=
    ⟨filled_empty path, by simp [Dgram.empty]⟩
  have hnew : Filled path (Dgram.empty.append pkt len) ∧
      ∀ p ∈ (Dgram.empty.append pkt len).pkts, p = pkt :=
    ⟨(filled_empty path).append hlen, by simp [Dgram.append, Dgram.empty]⟩
  simp only [qtxWritePkt, hlen, if_neg hfits, finishDgram_of_pos hpos]
  split_ifs
  · refine .inr ⟨_, _, rfl, List.forall_mem_cons.mpr ⟨hempty, fun x hx => ?_⟩⟩
    rwa [mem_finishDgram hx]
  · exact .inr ⟨_, _, rfl, by simpa using hnew⟩
  · exact .inl rfl

/-- A datagram that has something in it is finished with what goes together with that. Nothing that
follows is an Initial packet. -/
theorem emit_together : ∀ (pkts : List TxpPkt) (credit : ℕ) (cons : Dgram),
    Filled input.path cons → 0 < cons.dataLen → Ordered pkts →
    (∀ p ∈ pkts, p.encLevel ≠ .initial) →
    ∃ d others, (emit input.path allocLen cons (commitLoop input.el credit pkts).1).2 =
      d :: others ∧ d.pkts = cons.pkts ++ together input allocLen credit cons.dataLen pkts ∧
      ∀ e ∈ others, ∀ p ∈ e.pkts, p.encLevel ≠ .initial
  | [], _, cons => fun _ hpos _ _ =>
    ⟨cons, [], by rw [commitLoop, emit, finishDgram_of_pos hpos], by simp [together], by simp⟩
  | pkt :: pkts, credit, cons => by
    intro hfill hpos hord hni
    have hstop : ∃ d others, finishDgram cons = d :: others ∧ d.pkts = cons.pkts ++ [] ∧
        ∀ e ∈ others, ∀ p ∈ e.pkts, p.encLevel ≠ .initial :=
      ⟨cons, [], finishDgram_of_pos hpos, by simp, by simp⟩
    obtain ⟨hpkt, hpkts⟩ := List.forall_mem_cons.mp hni
    rw [Ordered, List.map_cons, List.pairwise_cons] at hord
    unfold together
    by_cases h0 : pkt.bytesAppended = 0
    · rw [commitLoop, if_pos h0, if_pos h0]
      exact emit_together pkts credit cons hfill hpos hord.2 hpkts
    rw [if_neg h0]
    by_cases hc : checkUnvalidatedCredit credit pkt.bytesAppended = false
    · rw [commitLoop, if_neg h0, if_pos hc, if_pos (.inl hc)]
      exact hstop
    obtain ⟨c, hcp, hco, hcommits⟩ := commitLoop_cons input.el h0 hc pkts
    rw [hcommits, emit, hco, hcp]
    by_cases hn : (input.el pkt.encLevel).commitOutcome = .notWritten
    · rw [if_pos hn, if_pos (.inr hn)]
      exact hstop
    rw [if_neg hn, if_neg (not_or.mpr ⟨hc, hn⟩)]
    rcases hlen : pktLen input.path pkt with _ | len
    · simp only [qtxWritePkt, hlen]
      exact hstop
    -- nothing follows a 1-RTT packet
    have hlast : pkt.encLevel = .oneRtt → pkts = [] := by
      intro h1
      rcases pkts with _ | ⟨q, pkts⟩
      · rfl
      · exact absurd h1 (hord.1 q.encLevel (by simp)).1
    by_cases hfits : fits allocLen cons.dataLen len = true
    · simp only [qtxWritePkt, hlen, hfits, if_true, Bool.true_eq_false, if_false]
      by_cases h1 : pkt.encLevel = .oneRtt
      · obtain rfl := hlast h1
        refine ⟨cons.append pkt len, [], ?_, ?_, by simp⟩
        · have hp : 0 < (cons.append pkt len).dataLen := Nat.add_pos_left hpos _
          simp only [h1, if_true, commitLoop, finishDgram_of_pos hp]
          split_ifs <;> rfl
        · simp only [together, Dgram.append]
          split_ifs <;> rfl
      · simp only [h1, if_false, List.nil_append]
        split_ifs with hw
        · obtain ⟨d, others, he, hd, ho⟩ := emit_together pkts
            (consumeUnvalidatedCredit credit pkt.bytesAppended) (cons.append pkt len)
            (hfill.append hlen) (Nat.add_pos_left hpos _) hord.2 hpkts
          exact ⟨d, others, he, by rw [hd]; simp [Dgram.append], ho⟩
        · exact ⟨cons.append pkt len, [],
            by rw [emit, finishDgram_of_pos (d := cons.append pkt len) (Nat.add_pos_left hpos _)],
            rfl, by simp⟩
    · have hlater : ∀ c ∈ (if (input.el pkt.encLevel).commitOutcome = .written then
          (commitLoop input.el (consumeUnvalidatedCredit credit pkt.bytesAppended) pkts).1 else []),
          c.pkt ∈ pkts := by
        split_ifs
        · exact commitLoop_mem input.el pkts _
        · simp
      have hno : fits allocLen cons.dataLen len = false := by simpa using hfits
      generalize (if (input.el pkt.encLevel).commitOutcome = .written then
        (commitLoop input.el (consumeUnvalidatedCredit credit pkt.bytesAppended) pkts).1 else []) =
          later at hlater ⊢
      simp only [hno, if_true]
      rcases qtxWritePkt_apart hpos hlen hfits with hnone | ⟨done, d, hdone, hall⟩
      · rw [hnone]
        exact hstop
      · rw [hdone]
        refine ⟨cons, _, rfl, by simp, fun e he p hp => ?_⟩
        rcases List.mem_append.mp he with he | he
        · rw [(hall e (List.mem_cons_of_mem _ he)).2 p hp]
          exact hpkt
        · obtain ⟨hd, hdp⟩ := hall d List.mem_cons_self
          rcases (filled_emit hd e he).2 p hp with hp | hp
          · rw [hdp p hp]
            exact hpkt
          · obtain ⟨-, c', hc', rfl⟩ := (written_emit _ _ _ _).2 p hp
            exact hpkts _ (hlater c' hc')

end Together

theorem ordered_stagedPackets (input : GenerateInput) : Ordered (stagedPackets input) := by
  unfold stagedPackets
  rcases h : (stageLoop input encLevels 0).bind (adjust input) with _ | pkts
  · exact .nil
  · obtain ⟨staged, hstaged, hadjust⟩ := Option.bind_eq_some_iff.mp h
    have hord : Ordered staged := .of_sublist (stageLoop_spec hstaged (Nat.zero_le _)).1
    rcases adjust_spec hadjust with ⟨-, rfl⟩ | ⟨-, -, us, hus, hpad⟩
    · exact hord
    · have hlevels := encLevel_updateLoop hus
      have hus : Ordered us := by rwa [Ordered, hlevels]
      rcases hpad with rfl | ⟨-, hpad⟩
      · exact hus
      · rcases appendPadding_spec hpad with rfl | ⟨pre, p, post, rfl, -, -, rfl⟩
        · exact hus
        · simpa [Ordered] using hus

section Together

variable {input : GenerateInput} {allocLen : ℕ}

/-- Where no packet is an Initial packet, none is in a datagram. -/
theorem emit_no_initial {pkts : List TxpPkt} (h : ∀ p ∈ pkts, p.encLevel ≠ .initial) (credit : ℕ) :
    ∀ d ∈ (emit input.path allocLen .empty (commitLoop input.el credit pkts).1).2, ∀ p ∈ d.pkts,
      p.encLevel ≠ .initial := by
  intro d hd p hp
  rcases (filled_emit (filled_empty _) d hd).2 p hp with hp | hp
  · cases hp
  · obtain ⟨-, c, hc, rfl⟩ := (written_emit _ _ _ _).2 p hp
    exact h _ (commitLoop_mem _ _ _ c hc)

/-- **The datagram of the Initial packet** is the first one, and holds what goes together with
it. -/
theorem send_initial (allocLen credit : ℕ) (input : GenerateInput) :
    ((∀ p ∈ companions allocLen credit input, p.encLevel ≠ .initial) ∧
      ∀ d ∈ (send allocLen credit input).2, ∀ p ∈ d.pkts, p.encLevel ≠ .initial) ∨
    (∃ p ∈ companions allocLen credit input, p.encLevel = .initial) ∧
      ∃ d others, (send allocLen credit input).2 = d :: others ∧
        d.pkts = companions allocLen credit input ∧
        ∀ e ∈ others, ∀ p ∈ e.pkts, p.encLevel ≠ .initial := by
  have hord := ordered_stagedPackets input
  unfold send generate companions
  generalize stagedPackets input = staged at hord
  rcases staged with _ | ⟨pkt, pkts⟩
  · exact .inl ⟨by simp [together], by simp [commitLoop, emit, finishDgram, Dgram.empty]⟩
  rw [Ordered, List.map_cons, List.pairwise_cons] at hord
  have hpkts : ∀ p ∈ pkts, p.encLevel ≠ .initial :=
    fun p hp => (hord.1 _ (List.mem_map_of_mem hp)).2
  have hnone : ∀ credit, ∀ p ∈ together input allocLen credit 0 pkts, p.encLevel ≠ .initial :=
    fun credit p hp => hpkts p ((together_spec pkts credit 0).1.subset hp)
  by_cases h0 : pkt.bytesAppended = 0
  · rw [together, commitLoop, if_pos h0, if_pos h0]
    exact .inl ⟨hnone credit, emit_no_initial hpkts credit⟩
  by_cases hi : pkt.encLevel = .initial
  swap
  · have hall : ∀ p ∈ pkt :: pkts, p.encLevel ≠ .initial := List.forall_mem_cons.mpr ⟨hi, hpkts⟩
    exact .inl ⟨fun p hp => hall p ((together_spec (pkt :: pkts) credit 0).1.subset hp),
      emit_no_initial hall credit⟩
  have hstop : finishDgram Dgram.empty = [] := rfl
  unfold together
  rw [if_neg h0]
  by_cases hc : checkUnvalidatedCredit credit pkt.bytesAppended = false
  · rw [commitLoop, if_neg h0, if_pos hc, if_pos (.inl hc), emit, hstop]
    exact .inl ⟨by simp, by simp⟩
  obtain ⟨c, hcp, hco, hcommits⟩ := commitLoop_cons input.el h0 hc pkts
  rw [hcommits, emit, hco, hcp, hstop]
  by_cases hn : (input.el pkt.encLevel).commitOutcome = .notWritten
  · rw [if_pos hn, if_pos (.inr hn)]
    exact .inl ⟨by simp, by simp⟩
  rw [if_neg hn, if_neg (not_or.mpr ⟨hc, hn⟩)]
  rcases hlen : pktLen input.path pkt with _ | len
  · simp only [qtxWritePkt, hlen]
    exact .inl ⟨by simp, by simp⟩
  by_cases hfits : fits allocLen 0 len = true
  swap
  · have hempty : Dgram.empty.dataLen = 0 := rfl
    simp only [qtxWritePkt, hlen, hempty, hfits, Nat.lt_irrefl]
    exact .inl ⟨by simp, by simp⟩
  have hempty : Dgram.empty.dataLen = 0 := rfl
  simp only [qtxWritePkt, hlen, hempty, hfits, hi, if_true, reduceCtorEq, if_false, List.nil_append,
    Bool.true_eq_false]
  have hpos : 0 < (Dgram.empty.append pkt len).dataLen := Nat.add_pos_right _ (by
    have := five_le_pktLen hlen
    omega)
  split_ifs with hw
  · obtain ⟨d, others, he, hd, ho⟩ := @emit_together input allocLen pkts
      (consumeUnvalidatedCredit credit pkt.bytesAppended) (Dgram.empty.append pkt len)
      ((filled_empty _).append hlen) hpos hord.2 hpkts
    exact .inr ⟨⟨pkt, List.mem_cons_self, hi⟩, d, others, he, hd, ho⟩
  · refine .inr ⟨⟨pkt, List.mem_cons_self, hi⟩, Dgram.empty.append pkt len, [], ?_, rfl, by simp⟩
    rw [emit, finishDgram_of_pos hpos]

/-- What packets take on the wire, and what was planned for them. -/
theorem sum_pktLen {path : Path} : ∀ {pkts : List TxpPkt}, (∀ p ∈ pkts, p.bytesAppended ≠ 0 ∧
    (pktLen path p).isSome = true) → (∀ p ∈ pkts, Fitted path p) →
    (pkts.map fun p => (pktLen path p).getD 0).sum + saved path pkts =
      totalDgramSize pkts + grown path pkts
  | [], _, _ => rfl
  | pkt :: pkts, hp, hf => by
    obtain ⟨⟨h0, hsome⟩, hp⟩ := List.forall_mem_cons.mp hp
    obtain ⟨hfit, hf⟩ := List.forall_mem_cons.mp hf
    obtain ⟨len, hlen⟩ := Option.isSome_iff_exists.mp hsome
    have ih := sum_pktLen hp hf
    have hadd := hfit.pktLen_add hlen
    unfold saved grown at ih ⊢
    simp only [List.map_cons, List.sum_cons, hlen, Option.getD_some, totalDgramSize_cons, if_neg h0]
    omega

end Together

section Short

variable {input : GenerateInput}

/-- What is up to date is at most what was planned. -/
theorem Updated.overhead_le {p q : TxpPkt} (hp : StagedPkt input p) (h : Updated input.path p q)
    (h0 : q.bytesAppended ≠ 0) (hle : p.bytesAppended + p.pktOverhead ≤ vlint2bMax) :
    q.pktOverhead ≤ p.pktOverhead := by
  obtain ⟨tagLen, htag, hover⟩ := hp.overhead
  obtain ⟨-, tagLen', htag', hcur⟩ := h.fitted hp h0
  rw [h.encLevel] at htag' hcur
  obtain rfl := Option.some.inj (htag.symm.trans htag')
  by_cases hi : p.encLevel = .initial
  · rw [hcur, hover, if_pos hi, hi]
  · rw [if_neg hi, h.bytesAppended] at hcur
    by_cases hz : getEncodedPktHdrLen input.path.curDcidLen
        (input.path.phdr p.encLevel (p.bytesAppended + tagLen)) = 0
    · omega
    · have hplanned := plannedHdrLen_eq hp.hdr
      have hbase := five_le_hdrBase input.path p.encLevel
      have hfield : vlintEncodeLen (p.bytesAppended + tagLen + txpDeterminePnLen) ≤ 2 := by
        refine vlintEncodeLen_le_two ?_
        unfold txpDeterminePnLen
        unfold vlint2bMax at hle
        omega
      rw [hcur, hover, hdrLen_eq hz, hplanned]
      split_ifs <;> omega

theorem totalDgramSize_updateLoop {pkts us : List TxpPkt}
    (h : List.Forall₂ (Updated input.path) pkts us) (hp : ∀ p ∈ pkts, StagedPkt input p)
    (hsum : (pkts.map fun p => p.bytesAppended + p.pktOverhead).sum ≤ vlint2bMax) :
    totalDgramSize us ≤ (pkts.map fun p => p.bytesAppended + p.pktOverhead).sum := by
  induction h with
  | nil => exact le_rfl
  | @cons p q pkts us hpq _ ih =>
    obtain ⟨hp, hpkts⟩ := List.forall_mem_cons.mp hp
    rw [List.map_cons, List.sum_cons] at hsum ⊢
    have ih := ih hpkts (by omega)
    rw [totalDgramSize_cons]
    split_ifs with h0
    · omega
    · have := hpq.overhead_le hp h0 (by omega)
      have := hpq.bytesAppended
      omega

/-- What is staged fits into a datagram, also after the adjustment. -/
theorem totalDgramSize_stagedPackets (hge : quicMinInitialDgramLen ≤ input.path.mdpl)
    (hle : input.path.mdpl ≤ vlint2bMax) {i : TxpPkt} (hi : i ∈ stagedPackets input)
    (hl : i.encLevel = .initial) (h0 : i.bytesAppended ≠ 0) :
    totalDgramSize (stagedPackets input) ≤ input.path.mdpl := by
  unfold stagedPackets at hi ⊢
  rcases h : (stageLoop input encLevels 0).bind (adjust input) with _ | pkts
  · exact Nat.zero_le _
  · rw [h, Option.getD_some] at hi
    rw [Option.getD_some]
    obtain ⟨staged, hstaged, hadjust⟩ := Option.bind_eq_some_iff.mp h
    obtain ⟨-, hp, hsum⟩ := stageLoop_spec hstaged (Nat.zero_le _)
    rw [Nat.zero_add] at hsum
    rcases adjust_spec hadjust with ⟨hn, rfl⟩ | ⟨-, hmin, us, hus, hpad⟩
    · have hneed : needPadding pkts = true := List.any_eq_true.mpr ⟨i, hi, by simp [hl, h0]⟩
      rw [hn] at hneed
      cases hneed
    · have hus := totalDgramSize_updateLoop (updated_updateLoop hus) hp (hsum.trans hle)
      rcases hpad with rfl | ⟨hlt, hpad⟩
      · exact hus.trans hsum
      · -- the padding brings the datagram to 1200 bytes
        rcases appendPadding_spec hpad with rfl | ⟨pre, p, post, rfl, -, hp, rfl⟩
        · exact hus.trans hsum
        · simp only [TxpPkt.padable, Bool.and_eq_true, decide_eq_true_eq] at hp
          have hsize : totalDgramSize (pre ++ p :: post) = totalDgramSize pre +
              (p.pktOverhead + p.bytesAppended + totalDgramSize post) := by
            rw [totalDgramSize_append, totalDgramSize_cons, if_neg hp.1.1]
          rw [totalDgramSize_append, totalDgramSize_cons]
          dsimp only
          split_ifs <;> omega

/-- A packet of such a datagram, with a tag of 16 bytes. -/
theorem Fitted.pktLen_of_le {path : Path} {pkt : TxpPkt} (h : Fitted path pkt)
    (htag : ∀ l t, path.tagLen l = some t → t = 16)
    (hle : pkt.pktOverhead + pkt.bytesAppended ≤ vlint2bMax) : ∃ len, pktLen path pkt = some len ∧
      quicMinValidPktLenCrypto ≤ len ∧ grows path pkt = 0 ∧
      (44 ≤ pkt.bytesAppended → saves path pkt = 0) := by
  obtain ⟨tagLen, ht, hover⟩ := h.overhead
  obtain rfl := htag _ _ ht
  have hbase := five_le_hdrBase path pkt.encLevel
  have hz : getEncodedPktHdrLen path.curDcidLen
      (path.phdr pkt.encLevel (pkt.bytesAppended + 16)) ≠ 0 := by
    refine hdrLen_ne_zero h.hdr ?_
    unfold txpDeterminePnLen vlintMax
    unfold vlint2bMax at hle
    omega
  have hlen : pktLen path pkt = some (getEncodedPktHdrLen path.curDcidLen
      (path.phdr pkt.encLevel (pkt.bytesAppended + 16)) + (pkt.bytesAppended + 16)) := by
    simp only [pktLen, ht, if_neg hz]
  have hgrows : grows path pkt = 0 ∧ (44 ≤ pkt.bytesAppended → saves path pkt = 0) := by
    unfold grows saves lengthFieldLen
    rw [ht, Option.getD_some]
    split_ifs with hi
    · have hp := plannedHdrLen_eq h.hdr
      rw [hi, if_neg (by decide)] at hp
      rw [if_pos hi, hp] at hover
      rw [hi] at hbase
      have hlt : pkt.bytesAppended + 16 + txpDeterminePnLen < 16384 := by
        unfold txpDeterminePnLen
        unfold vlint2bMax at hle
        omega
      have := vlintEncodeLen_le_two hlt
      refine ⟨by omega, fun h44 => ?_⟩
      rw [vlintEncodeLen_eq_two_iff.mpr ⟨by unfold txpDeterminePnLen; omega, hlt⟩]
    · exact ⟨rfl, fun _ => rfl⟩
  refine ⟨_, hlen, ?_, hgrows⟩
  rw [hdrLen_eq hz]
  unfold quicMinValidPktLenCrypto
  omega

theorem totalDgramSize_filter : ∀ pkts : List TxpPkt,
    totalDgramSize (pkts.filter fun p => p.bytesAppended ≠ 0) = totalDgramSize pkts
  | [] => rfl
  | pkt :: pkts => by
    have ih := totalDgramSize_filter pkts
    by_cases h0 : pkt.bytesAppended = 0
    · rw [List.filter_cons_of_neg (by simpa using h0), ih, totalDgramSize_cons, if_pos h0,
        Nat.zero_add]
    · rw [List.filter_cons_of_pos (by simpa using h0), totalDgramSize_cons, ih, totalDgramSize_cons]

/-- Where the credit covers all packets and they fit, they all go together. -/
theorem together_of_covered {allocLen : ℕ} (htag : ∀ l t, input.path.tagLen l = some t → t = 16)
    (hwritten : ∀ l, (input.el l).commitOutcome = .written) :
    ∀ {pkts : List TxpPkt} {credit dataLen : ℕ},
      (∀ p ∈ pkts, p.bytesAppended ≠ 0 → Fitted input.path p) →
      totalDgramSize pkts ≤ vlint2bMax → dataLen + totalDgramSize pkts ≤ allocLen →
      (credit = sizeMax ∨ (pkts.map TxpPkt.bytesAppended).sum ≤ credit) →
      together input allocLen credit dataLen pkts = pkts.filter fun p => p.bytesAppended ≠ 0
  | [], _, _, _, _, _, _ => by simp [together]
  | pkt :: pkts, credit, dataLen, hfit, hle, halloc, hcredit => by
    obtain ⟨hpkt, hpkts⟩ := List.forall_mem_cons.mp hfit
    rw [totalDgramSize_cons] at hle halloc
    rw [List.map_cons, List.sum_cons] at hcredit
    unfold together
    by_cases h0 : pkt.bytesAppended = 0
    · rw [if_pos h0, together_of_covered htag hwritten hpkts (by omega) (by omega) (by omega)]
      simp [h0]
    · rw [if_neg h0] at hle halloc
      obtain ⟨len, hlen, hmin, hgrows, -⟩ := (hpkt h0).pktLen_of_le htag (by omega)
      have hadd := (hpkt h0).pktLen_add hlen
      have hcheck : checkUnvalidatedCredit credit pkt.bytesAppended = true := by
        simp only [checkUnvalidatedCredit, decide_eq_true_eq]
        omega
      have hfits : fits allocLen dataLen len = true := by
        simp only [fits, Bool.and_eq_true, decide_eq_true_eq]
        omega
      have hrest : consumeUnvalidatedCredit credit pkt.bytesAppended = sizeMax ∨
          (pkts.map TxpPkt.bytesAppended).sum ≤
            consumeUnvalidatedCredit credit pkt.bytesAppended := by
        by_cases hmax : credit = sizeMax
        · exact .inl (by rw [hmax, consumeUnvalidatedCredit_unlimited])
        · rw [(consumeUnvalidatedCredit_eq hmax hcheck).1]
          omega
      simp only [h0, hcheck, hwritten, hlen, hfits, if_true, if_false, reduceCtorEq, or_self,
        Bool.true_eq_false]
      rw [together_of_covered htag hwritten hpkts (by omega) (by omega) hrest]
      simp [h0]

end Short

/-- **In datagrams of up to 16383 bytes**, with tags of 16 bytes, a datagram with an Initial packet
has at least 1200 bytes and at most `mdpl` whenever the credit covers all staged packets, no commit
fails and the Initial packet has at least 44 bytes of payload. -/
theorem initial_dgram_of_covered {allocLen credit : ℕ} {input : GenerateInput} (hr : NoStream input)
    (hge : quicMinInitialDgramLen ≤ input.path.mdpl) (hle : input.path.mdpl ≤ vlint2bMax)
    (halloc : input.path.mdpl ≤ allocLen) (htag : ∀ l t, input.path.tagLen l = some t → t = 16)
    (hwritten : ∀ l, (input.el l).commitOutcome = .written)
    (hcredit : credit = sizeMax ∨
      ((stagedPackets input).map TxpPkt.bytesAppended).sum ≤ credit)
    (hlong : ∀ p ∈ stagedPackets input, p.encLevel = .initial → p.bytesAppended ≠ 0 →
      44 ≤ p.bytesAppended) :
    ∀ d ∈ (send allocLen credit input).2, (∃ p ∈ d.pkts, p.encLevel = .initial) →
      quicMinInitialDgramLen ≤ d.dataLen ∧ d.dataLen ≤ input.path.mdpl := by
  intro e hem ⟨p, hp, hpl⟩
  rcases send_initial allocLen credit input with ⟨-, hdgrams⟩
    | ⟨⟨i, hic, hl⟩, d, others, he, hd, ho⟩
  · exact absurd hpl (hdgrams e hem p hp)
  · obtain ⟨hsub, hcomp⟩ := @together_spec input allocLen (stagedPackets input) credit 0
    obtain ⟨hready, hmin⟩ := ready_stagedPackets hr (hsub.subset hic) hl (hcomp i hic).1
    have htotal := totalDgramSize_stagedPackets hge hle (hsub.subset hic) hl (hcomp i hic).1
    have hall : companions allocLen credit input =
        (stagedPackets input).filter fun p => p.bytesAppended ≠ 0 :=
      together_of_covered htag hwritten hready.fitted (htotal.trans hle) (by omega) hcredit
    have hfitted : ∀ p ∈ companions allocLen credit input, Fitted input.path p :=
      fun p hp => hready.fitted p (hsub.subset hp) (hcomp p hp).1
    have hsize : totalDgramSize (companions allocLen credit input) =
        totalDgramSize (stagedPackets input) := by
      rw [hall, totalDgramSize_filter]
    have hone : ∀ p ∈ companions allocLen credit input,
        p.pktOverhead + p.bytesAppended ≤ vlint2bMax := by
      intro p hp
      have := List.single_le_sum (fun x _ => Nat.zero_le x) _ (List.mem_map_of_mem
        (f := fun p => if p.bytesAppended = 0 then 0 else p.pktOverhead + p.bytesAppended) hp)
      rw [← totalDgramSize, if_neg (hcomp p hp).1] at this
      omega
    have hsaved : saved input.path (companions allocLen credit input) = 0 := by
      refine List.sum_eq_zero fun x hx => ?_
      obtain ⟨p, hp, rfl⟩ := List.mem_map.mp hx
      by_cases hi : p.encLevel = .initial
      · obtain ⟨-, -, -, -, hs⟩ := (hfitted p hp).pktLen_of_le htag (hone p hp)
        exact hs (hlong p (hsub.subset hp) hi (hcomp p hp).1)
      · exact if_neg hi
    have hgrown : grown input.path (companions allocLen credit input) = 0 := by
      refine List.sum_eq_zero fun x hx => ?_
      obtain ⟨p, hp, rfl⟩ := List.mem_map.mp hx
      obtain ⟨-, -, -, hg, -⟩ := (hfitted p hp).pktLen_of_le htag (hone p hp)
      exact hg
    have hsum := sum_pktLen hcomp hfitted
    have hfill := (filled_emit (filled_empty _) d (by rw [← send, he]; simp)).1.dataLen
    rw [hd] at hfill
    rw [← companions, ← hfill, hsaved, hgrown, hsize] at hsum
    rw [he] at hem
    rcases List.mem_cons.mp hem with rfl | hem
    · omega
    · exact absurd hpl (ho e hem p hp)

end PapQuic.Txp.InitialSize
