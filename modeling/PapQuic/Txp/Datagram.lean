import PapQuic.Txp.Generate

/-! # Datagrams of the record layer

`ossl_qtx_write_pkt` of `ssl/quic/quic_record_tx.c` puts the packets that `txp_pkt_commit` passes to
it into datagrams, one after another as long as there is room. The log prints for each packet the
`num_bytes` of its ACKM record, which was computed with a length field of two bytes; the record
layer encodes the length field as short as it can. So what the log prints for the packets of a call
adds up to the bytes written if and only if their length fields have two bytes on average
(`printed_eq_written_iff`). -/

namespace PapQuic.Txp.Datagram

open Wire.Vlint Wire.Header Txp.Generate

/-! ### The record layer -/

/-- `QUIC_MIN_VALID_PKT_LEN_CRYPTO`. -/
def quicMinValidPktLenCrypto : ℕ := 21

/-- `pkt_len` of `qtx_write`; `none` when the level has no keys or the header cannot be encoded. -/
def pktLen (path : Path) (pkt : TxpPkt) : Option ℕ :=
  match path.tagLen pkt.encLevel with
  | none => none
  | some tagLen =>
    let payloadLen := pkt.bytesAppended + tagLen
    let predHdrLen := getEncodedPktHdrLen path.curDcidLen (path.phdr pkt.encLevel payloadLen)
    if predHdrLen = 0 then none else some (predHdrLen + payloadLen)

/-- `qtx_write` into a datagram that holds `dataLen` of at most `allocLen` bytes. -/
def fits (allocLen dataLen len : ℕ) : Bool :=
  quicMinValidPktLenCrypto ≤ allocLen - dataLen && len ≤ allocLen - dataLen

/-- A datagram: the packets in it and its length. -/
structure Dgram where
  pkts : List TxpPkt
  dataLen : ℕ
  deriving DecidableEq, Repr

def Dgram.empty : Dgram := ⟨[], 0⟩

def Dgram.append (d : Dgram) (pkt : TxpPkt) (len : ℕ) : Dgram := ⟨d.pkts ++ [pkt], d.dataLen + len⟩

/-- `ossl_qtx_finish_dgram`. -/
def finishDgram (d : Dgram) : List Dgram := if d.dataLen = 0 then [] else [d]

/-- `ossl_qtx_write_pkt`: the datagrams that are finished, and the one that is being filled. A
packet that does not fit is tried again in a datagram of its own. A 1-RTT packet ends its
datagram. -/
def qtxWritePkt (path : Path) (allocLen : ℕ) (cons : Dgram) (pkt : TxpPkt) :
    Option (List Dgram × Dgram) :=
  match pktLen path pkt with
  | none => none
  | some len =>
    let close (d : Dgram) : List Dgram × Dgram :=
      if pkt.encLevel = .oneRtt then (finishDgram d, .empty) else ([], d)
    if fits allocLen cons.dataLen len then some (close (cons.append pkt len))
    else if 0 < cons.dataLen && fits allocLen 0 len then
      let (done, d) := close (Dgram.empty.append pkt len)
      some (finishDgram cons ++ done, d)
    else none

/-- The packets that are passed to `txp_pkt_commit`, up to the first one that it cannot write: those
that are written, which are also logged, and the datagrams. -/
def emit (path : Path) (allocLen : ℕ) : Dgram → List Commit → List TxpPkt × List Dgram
  | cons, [] => ([], finishDgram cons)
  | cons, c :: commits =>
    if c.outcome = .notWritten then ([], finishDgram cons)
    else
      match qtxWritePkt path allocLen cons c.pkt with
      | none => ([], finishDgram cons)
      | some (done, cons) =>
        let (sent, dgrams) := emit path allocLen cons commits
        (c.pkt :: sent, done ++ dgrams)

/-- A call of `generate`: the packets that are logged as sent, and the datagrams for the network. -/
def send (allocLen credit : ℕ) (input : GenerateInput) : List TxpPkt × List Dgram :=
  emit input.path allocLen .empty (generate credit input).1

/-! ### What is written -/

/-- The bytes of datagrams. -/
def written (dgrams : List Dgram) : ℕ := (dgrams.map Dgram.dataLen).sum

theorem written_nil : written [] = 0 := rfl

theorem written_append (a b : List Dgram) : written (a ++ b) = written a + written b := by
  simp [written]

theorem written_finishDgram (d : Dgram) : written (finishDgram d) = d.dataLen := by
  unfold finishDgram
  split_ifs with h
  · rw [h]
    rfl
  · simp [written]

variable {path : Path} {pkt : TxpPkt}

theorem written_qtxWritePkt {allocLen : ℕ} {cons d : Dgram} {done : List Dgram}
    (h : qtxWritePkt path allocLen cons pkt = some (done, d)) :
    ∃ len, pktLen path pkt = some len ∧ len ≤ allocLen ∧
      written done + d.dataLen = cons.dataLen + len := by
  unfold qtxWritePkt at h
  split at h
  · cases h
  · next len hlen =>
    dsimp only at h
    have hle : len ≤ allocLen := by
      split_ifs at h with hfits _ hfits
      all_goals simp only [fits, Bool.and_eq_true, decide_eq_true_eq] at hfits
      all_goals omega
    refine ⟨len, hlen, hle, ?_⟩
    split_ifs at h
    all_goals cases h
    all_goals simp [written_append, written_finishDgram, Dgram.append, Dgram.empty, written_nil]

/-- **The datagrams** hold the packets that are logged as sent, and nothing else. -/
theorem written_emit (path : Path) (allocLen : ℕ) : ∀ (commits : List Commit) (cons : Dgram),
    written (emit path allocLen cons commits).2 =
      cons.dataLen + ((emit path allocLen cons commits).1.map fun p => (pktLen path p).getD 0).sum ∧
    ∀ p ∈ (emit path allocLen cons commits).1, (∃ len ≤ allocLen, pktLen path p = some len) ∧
      ∃ c ∈ commits, c.pkt = p
  | [], cons => ⟨by simp [emit, written_finishDgram], by simp [emit]⟩
  | c :: commits, cons => by
    unfold emit
    split_ifs with hc
    · exact ⟨by simp [written_finishDgram], by simp⟩
    · rcases hw : qtxWritePkt path allocLen cons c.pkt with _ | ⟨done, d⟩
      · exact ⟨by simp [written_finishDgram], by simp⟩
      · obtain ⟨len, hlen, hle, hsum⟩ := written_qtxWritePkt hw
        obtain ⟨ih, ihm⟩ := written_emit path allocLen commits d
        refine ⟨?_, fun p hp => ?_⟩
        · simp only [written_append, ih, List.map_cons, List.sum_cons, hlen, Option.getD_some]
          omega
        · rcases List.mem_cons.mp hp with rfl | hp
          · exact ⟨⟨len, hle, hlen⟩, c, by simp, rfl⟩
          · obtain ⟨h1, c', hc', he⟩ := ihm p hp
            exact ⟨h1, c', List.mem_cons_of_mem _ hc', he⟩

/-! ### What was planned -/

/-- The header of a level with a length field of two bytes. -/
def plannedHdrLen (path : Path) (encLevel : EncLevel) : ℕ :=
  getEncodedPktHdrLen path.curDcidLen (path.phdr encLevel (vlint2bMax - txpDeterminePnLen))

variable {encLevel : EncLevel}

theorem txpDetermineGeometry_spec {runningTotal cmpl cmppl overhead : ℕ}
    (h : txpDetermineGeometry path encLevel runningTotal = some (cmpl, cmppl, overhead)) :
    plannedHdrLen path encLevel ≠ 0 ∧ cmpl ≤ path.mdpl - runningTotal ∧ cmpl = overhead + cmppl ∧
      ∃ tagLen, path.tagLen encLevel = some tagLen ∧
        overhead = plannedHdrLen path encLevel + tagLen := by
  simp only [txpDetermineGeometry] at h
  have hc : (if runningTotal > path.mdpl then 0 else path.mdpl - runningTotal) ≤
      path.mdpl - runningTotal := by
    split_ifs <;> omega
  generalize (if runningTotal > path.mdpl then 0 else path.mdpl - runningTotal) = room at h hc
  rw [← plannedHdrLen] at h
  split_ifs at h with hz
  rw [not_or, not_lt] at hz
  split at h
  · cases h
  · next tagLen htag =>
    split_ifs at h with ht
    simp only [Option.some.injEq, Prod.mk.injEq] at h
    obtain ⟨rfl, rfl, rfl⟩ := h
    exact ⟨hz.1, hc, by omega, tagLen, htag, by omega⟩

/-- The `num_bytes` of a packet: its payload, and the header and tag that were planned for it. -/
def Planned (path : Path) (pkt : TxpPkt) : Prop :=
  plannedHdrLen path pkt.encLevel ≠ 0 ∧ ∃ tagLen, path.tagLen pkt.encLevel = some tagLen ∧
    pkt.numBytes = pkt.bytesAppended + (plannedHdrLen path pkt.encLevel + tagLen)

variable {input : GenerateInput}

theorem stageLevel_spec {runningTotal : ℕ}
    (h : stageLevel input encLevel runningTotal = .staged pkt) :
    ∃ cmpl cmppl overhead g, txpDetermineGeometry input.path encLevel runningTotal =
      some (cmpl, cmppl, overhead) ∧ (input.el encLevel).generateForEl cmppl = some g ∧
      pkt = ⟨encLevel, g.val.bytesAppended, cmppl, g.val.doneImplicit, g.val.forcePad, cmpl,
        overhead, g.val.bytesAppended + overhead⟩ := by
  unfold stageLevel at h
  dsimp only at h
  generalize (if txpNeedPing input.archetype (input.el encLevel) then 1 else 0) = reserve at h
  split_ifs at h
  split at h
  · cases h
  · next cmpl cmppl overhead hgeom =>
    split_ifs at h
    split at h
    · cases h
    · next g hg =>
      cases h
      exact ⟨cmpl, cmppl, overhead, g, hgeom, hg, rfl⟩

theorem planned_stageLevel {runningTotal : ℕ}
    (h : stageLevel input encLevel runningTotal = .staged pkt) :
    Planned input.path pkt := by
  obtain ⟨cmpl, cmppl, overhead, g, hgeom, -, rfl⟩ := stageLevel_spec h
  obtain ⟨hz, -, -, tagLen, htag, rfl⟩ := txpDetermineGeometry_spec hgeom
  exact ⟨hz, tagLen, htag, rfl⟩

theorem planned_stageLoop {input : GenerateInput} : ∀ {levels : List EncLevel} {runningTotal : ℕ}
    {pkts : List TxpPkt}, stageLoop input levels runningTotal = some pkts →
    ∀ p ∈ pkts, Planned input.path p
  | [], _, _, h => by
    cases h
    simp
  | encLevel :: levels, runningTotal, pkts, h => by
    unfold stageLoop at h
    rcases hs : stageLevel input encLevel runningTotal with _ | _ | _ | pkt
    · rw [hs] at h
      exact planned_stageLoop h
    · rw [hs] at h
      cases h
      simp
    · rw [hs] at h
      cases h
    · rw [hs] at h
      obtain ⟨rest, hrest, rfl⟩ := Option.map_eq_some_iff.mp h
      intro p hp
      rcases List.mem_cons.mp hp with rfl | hp
      · exact planned_stageLevel hs
      · exact planned_stageLoop hrest p hp

/-- The update of the overheads changes neither the payload nor `num_bytes`. -/
theorem updateLoop_forall {input : GenerateInput} {P : TxpPkt → Prop}
    (hP : ∀ p q : TxpPkt, q.encLevel = p.encLevel → q.bytesAppended = p.bytesAppended →
      q.numBytes = p.numBytes → P p → P q) : ∀ {pkts pkts' : List TxpPkt},
    updateLoop input pkts = some pkts' → (∀ p ∈ pkts, P p) → ∀ p ∈ pkts', P p
  | [], _, h, _ => by
    cases h
    simp
  | pkt :: pkts, pkts', h, hp => by
    have hpkts : ∀ p ∈ pkts, P p := fun p hm => hp p (List.mem_cons_of_mem pkt hm)
    unfold updateLoop at h
    split_ifs at h
    · obtain ⟨rest, hrest, rfl⟩ := Option.map_eq_some_iff.mp h
      exact List.forall_mem_cons.mpr ⟨hp pkt (by simp), updateLoop_forall hP hrest hpkts⟩
    · simp only [Option.bind_eq_bind, Option.bind_eq_some_iff, Option.pure_def,
        Option.some.injEq] at h
      obtain ⟨pkt', hpkt', rest, hrest, rfl⟩ := h
      refine List.forall_mem_cons.mpr ⟨?_, updateLoop_forall hP hrest hpkts⟩
      have hu : (txpPktPostgenUpdatePktOverhead input.path pkt).encLevel = pkt.encLevel ∧
          (txpPktPostgenUpdatePktOverhead input.path pkt).bytesAppended = pkt.bytesAppended ∧
          (txpPktPostgenUpdatePktOverhead input.path pkt).numBytes = pkt.numBytes := by
        unfold txpPktPostgenUpdatePktOverhead
        split <;> exact ⟨rfl, rfl, rfl⟩
      have he : pkt'.encLevel = (txpPktPostgenUpdatePktOverhead input.path pkt).encLevel ∧
          pkt'.bytesAppended = (txpPktPostgenUpdatePktOverhead input.path pkt).bytesAppended ∧
          pkt'.numBytes = (txpPktPostgenUpdatePktOverhead input.path pkt).numBytes := by
        unfold expandMaxPpl at hpkt'
        dsimp only at hpkt'
        split_ifs at hpkt' <;> cases hpkt' <;> exact ⟨rfl, rfl, rfl⟩
      exact hP pkt pkt' (he.1.trans hu.1) (he.2.1.trans hu.2.1) (he.2.2.trans hu.2.2)
        (hp pkt (by simp))

theorem planned_appendPadding {input : GenerateInput} {deficit : ℕ} : ∀ {pkts pkts' : List TxpPkt},
    appendPadding input deficit pkts = some pkts' → (∀ p ∈ pkts, Planned input.path p) →
    ∀ p ∈ pkts', Planned input.path p
  | [], _, h, _ => by
    cases h
    simp
  | pkt :: pkts, pkts', h, hp => by
    obtain ⟨hpkt, hpkts⟩ := List.forall_mem_cons.mp hp
    unfold appendPadding at h
    split_ifs at h
    · cases h
      obtain ⟨hz, tagLen, htag, hn⟩ := hpkt
      refine List.forall_mem_cons.mpr ⟨⟨hz, tagLen, htag, ?_⟩, hpkts⟩
      dsimp only
      omega
    · obtain ⟨rest, hrest, rfl⟩ := Option.map_eq_some_iff.mp h
      exact List.forall_mem_cons.mpr ⟨hpkt, planned_appendPadding hrest hpkts⟩

/-- What the adjustment does: nothing, or the overheads are brought up to date and a datagram that
is too short is padded. -/
theorem adjust_spec {pkts pkts' : List TxpPkt} (h : adjust input pkts = some pkts') :
    (needPadding pkts = false ∧ pkts' = pkts) ∨
      needPadding pkts = true ∧ quicMinInitialDgramLen ≤ totalDgramSize pkts' ∧
        ∃ updated, updateLoop input pkts = some updated ∧
          (pkts' = updated ∨ totalDgramSize updated < quicMinInitialDgramLen ∧
            appendPadding input (quicMinInitialDgramLen - totalDgramSize updated) updated =
              some pkts') := by
  unfold adjust at h
  by_cases hn : needPadding pkts = true
  · rw [if_pos hn] at h
    obtain ⟨updated, hupdated, h⟩ := Option.bind_eq_some_iff.mp h
    refine .inr ⟨hn, ?_⟩
    dsimp only at h
    by_cases hu : totalDgramSize updated < quicMinInitialDgramLen
    · rw [if_pos hu] at h
      obtain ⟨padded, hpadded, h⟩ := Option.bind_eq_some_iff.mp h
      split_ifs at h with ht
      cases h
      exact ⟨not_lt.mp ht, updated, hupdated, .inr ⟨hu, hpadded⟩⟩
    · rw [if_neg hu] at h
      obtain ⟨padded, hpadded, h⟩ := Option.bind_eq_some_iff.mp h
      obtain rfl : updated = padded := Option.some.inj hpadded
      rw [if_neg hu] at h
      obtain rfl : updated = pkts' := Option.some.inj h
      exact ⟨not_lt.mp hu, updated, hupdated, .inl rfl⟩
  · rw [if_neg hn] at h
    cases h
    exact .inl ⟨by simpa using hn, rfl⟩

theorem planned_adjust {pkts pkts' : List TxpPkt} (h : adjust input pkts = some pkts')
    (hp : ∀ p ∈ pkts, Planned input.path p) :
    ∀ p ∈ pkts', Planned input.path p := by
  rcases adjust_spec h with ⟨-, rfl⟩ | ⟨-, -, updated, hupdated, hpad⟩
  · exact hp
  · have hu : ∀ p ∈ updated, Planned input.path p :=
      updateLoop_forall (fun p q h1 h2 h3 hq => by rwa [Planned, h1, h2, h3]) hupdated hp
    rcases hpad with rfl | ⟨-, hpadded⟩
    · exact hu
    · exact planned_appendPadding hpadded hu

theorem planned_stagedPackets (input : GenerateInput) :
    ∀ p ∈ stagedPackets input, Planned input.path p := by
  unfold stagedPackets
  rcases h : (stageLoop input encLevels 0).bind (adjust input) with _ | pkts
  · simp
  · obtain ⟨staged, hstaged, hadjust⟩ := Option.bind_eq_some_iff.mp h
    exact planned_adjust hadjust (planned_stageLoop hstaged)

theorem commitLoop_mem (el : EncLevel → ElInput) : ∀ (pkts : List TxpPkt) (credit : ℕ),
    ∀ c ∈ (commitLoop el credit pkts).1, c.pkt ∈ pkts
  | [], _ => by simp [commitLoop]
  | pkt :: pkts, credit => by
    intro c hc
    simp only [commitLoop] at hc
    split_ifs at hc
    · exact List.mem_cons_of_mem _ (commitLoop_mem el pkts _ c hc)
    · cases hc
    · rcases List.mem_cons.mp hc with rfl | hc
      · simp
      · exact List.mem_cons_of_mem _ (commitLoop_mem el pkts _ c hc)
    · rw [List.mem_singleton.mp hc]
      simp

/-! ### What is printed -/

/-- The size of the length field of a long header on the wire. -/
def lengthFieldLen (path : Path) (pkt : TxpPkt) : ℕ :=
  vlintEncodeLen (pkt.bytesAppended + (path.tagLen pkt.encLevel).getD 0 + txpDeterminePnLen)

/-- The packets with a long header. -/
def longs (pkts : List TxpPkt) : List TxpPkt := pkts.filter fun p => p.encLevel ≠ .oneRtt

theorem longs_cons (pkt : TxpPkt) (pkts : List TxpPkt) :
    longs (pkt :: pkts) = if pkt.encLevel = .oneRtt then longs pkts else pkt :: longs pkts := by
  by_cases h : pkt.encLevel = .oneRtt <;> simp [longs, h]

/-- A header without its length field. -/
def hdrBase (path : Path) (encLevel : EncLevel) : ℕ :=
  if encLevel = .oneRtt then 1 + path.curDcidLen + txpDeterminePnLen
  else 1 + 4 + 1 + path.curDcidLen + 1 + path.curScidLen + txpDeterminePnLen +
    if encLevel = .initial then tokenFieldLen (path.phdr encLevel 0) else 0

theorem five_le_hdrBase (path : Path) (encLevel : EncLevel) : 5 ≤ hdrBase path encLevel := by
  unfold hdrBase txpDeterminePnLen
  split_ifs <;> omega

theorem hdrLen_eq {len : ℕ} (h : getEncodedPktHdrLen path.curDcidLen (path.phdr encLevel len) ≠ 0) :
    getEncodedPktHdrLen path.curDcidLen (path.phdr encLevel len) = hdrBase path encLevel +
      if encLevel = .oneRtt then 0 else vlintEncodeLen (len + txpDeterminePnLen) := by
  have ht : tokenFieldLen (path.phdr encLevel len) = tokenFieldLen (path.phdr encLevel 0) := rfl
  have hlen : (path.phdr encLevel len).len + (path.phdr encLevel len).pnLen =
    len + txpDeterminePnLen := rfl
  unfold getEncodedPktHdrLen at h ⊢
  rw [ht, hlen, show (path.phdr encLevel len).encLevel = encLevel from rfl] at h ⊢
  unfold hdrBase
  by_cases h1 : encLevel = .oneRtt
  · rw [if_pos h1] at h
    rw [if_pos h1, if_pos h1, if_pos h1]
    split_ifs at h ⊢
    · exact absurd rfl h
    · rfl
  · rw [if_neg h1] at h
    rw [if_neg h1, if_neg h1, if_neg h1]
    split_ifs at h ⊢
    all_goals first | exact absurd rfl h | rfl

/-- What is printed for a packet differs from what is written by the length field. -/
theorem numBytes_eq {len : ℕ} (hp : Planned path pkt) (hlen : pktLen path pkt = some len) :
    if pkt.encLevel = .oneRtt then pkt.numBytes = len
    else pkt.numBytes + lengthFieldLen path pkt = len + 2 := by
  obtain ⟨hz, tagLen, htag, hn⟩ := hp
  simp only [pktLen, htag] at hlen
  split_ifs at hlen with h0
  simp only [Option.some.injEq] at hlen
  have h2 : vlintEncodeLen (vlint2bMax - txpDeterminePnLen + txpDeterminePnLen) = 2 := by decide
  rw [hdrLen_eq h0] at hlen
  rw [plannedHdrLen, hdrLen_eq hz, h2] at hn
  split_ifs at hlen hn ⊢
  · omega
  · rw [lengthFieldLen, htag, Option.getD_some]
    omega

/-! ### The packets of a datagram -/

/-- A datagram is as long as its packets together. -/
structure Filled (path : Path) (d : Dgram) : Prop where
  dataLen : d.dataLen = (d.pkts.map fun p => (pktLen path p).getD 0).sum
  isSome : ∀ p ∈ d.pkts, (pktLen path p).isSome = true

theorem filled_empty (path : Path) : Filled path .empty := ⟨rfl, by simp [Dgram.empty]⟩

theorem Filled.append {d : Dgram} {len : ℕ} (h : Filled path d)
    (hlen : pktLen path pkt = some len) : Filled path (d.append pkt len) where
  dataLen := by simp [Dgram.append, h.dataLen, hlen]
  isSome p hp := by
    rcases List.mem_append.mp hp with hp | hp
    · exact h.isSome p hp
    · rw [List.mem_singleton.mp hp, hlen]
      rfl

theorem mem_finishDgram {d x : Dgram} (h : x ∈ finishDgram d) : x = d := by
  unfold finishDgram at h
  split_ifs at h
  · cases h
  · exact List.mem_singleton.mp h

/-- Of the packets in a datagram, all that hold of those before hold after another one is
written. -/
theorem filled_qtxWritePkt {allocLen : ℕ} {cons d : Dgram} {done : List Dgram}
    (hcons : Filled path cons) (h : qtxWritePkt path allocLen cons pkt = some (done, d)) :
    ∀ x ∈ d :: done, Filled path x ∧ ∀ p ∈ x.pkts, p ∈ cons.pkts ∨ p = pkt := by
  unfold qtxWritePkt at h
  split at h
  · cases h
  · next len hlen =>
    have hself : Filled path cons ∧ ∀ p ∈ cons.pkts, p ∈ cons.pkts ∨ p = pkt :=
      ⟨hcons, fun _ => .inl⟩
    have hempty : Filled path .empty ∧ ∀ p ∈ Dgram.empty.pkts, p ∈ cons.pkts ∨ p = pkt :=
      ⟨filled_empty path, by simp [Dgram.empty]⟩
    have hadd : Filled path (cons.append pkt len) ∧
        ∀ p ∈ (cons.append pkt len).pkts, p ∈ cons.pkts ∨ p = pkt :=
      ⟨hcons.append hlen, by simp [Dgram.append]⟩
    have hnew : Filled path (Dgram.empty.append pkt len) ∧
        ∀ p ∈ (Dgram.empty.append pkt len).pkts, p ∈ cons.pkts ∨ p = pkt :=
      ⟨(filled_empty path).append hlen, by simp [Dgram.append, Dgram.empty]⟩
    dsimp only at h
    split_ifs at h
    all_goals
      cases h
      intro x hx
      simp only [List.mem_cons, List.mem_append, List.not_mem_nil, or_false] at hx
    · rcases hx with rfl | hx
      · exact hempty
      · rwa [mem_finishDgram hx]
    · rwa [hx]
    · rcases hx with rfl | hx | hx
      · exact hempty
      · rwa [mem_finishDgram hx]
      · rwa [mem_finishDgram hx]
    · rcases hx with rfl | hx
      · exact hnew
      · rwa [mem_finishDgram hx]

/-- **Every datagram** is as long as its packets together, and these are logged as sent. -/
theorem filled_emit {path : Path} {allocLen : ℕ} : ∀ {commits : List Commit} {cons : Dgram},
    Filled path cons → ∀ d ∈ (emit path allocLen cons commits).2, Filled path d ∧
      ∀ p ∈ d.pkts, p ∈ cons.pkts ∨ p ∈ (emit path allocLen cons commits).1
  | [], cons, h, d, hd => by
    rw [mem_finishDgram hd]
    exact ⟨h, fun _ => .inl⟩
  | c :: commits, cons, h, d, hd => by
    unfold emit at hd ⊢
    split_ifs at hd ⊢
    · rw [mem_finishDgram hd]
      exact ⟨h, fun _ => .inl⟩
    · rcases hw : qtxWritePkt path allocLen cons c.pkt with _ | ⟨done, cons'⟩
      · simp only [hw] at hd
        rw [mem_finishDgram hd]
        exact ⟨h, fun _ => .inl⟩
      · simp only [hw] at hd ⊢
        have hwrite := filled_qtxWritePkt h hw
        rcases List.mem_append.mp hd with hd | hd
        · obtain ⟨hfill, hpkts⟩ := hwrite d (List.mem_cons_of_mem _ hd)
          exact ⟨hfill, fun p hp => (hpkts p hp).imp_right fun he => by simp [he]⟩
        · obtain ⟨hfill', hpkts'⟩ := hwrite cons' List.mem_cons_self
          obtain ⟨hfill, hpkts⟩ := filled_emit hfill' d hd
          refine ⟨hfill, fun p hp => ?_⟩
          rcases hpkts p hp with hp | hp
          · exact (hpkts' p hp).imp_right fun he => by simp [he]
          · exact .inr (List.mem_cons_of_mem _ hp)

/-- The packets that are logged are those of the first commits. -/
theorem emit_fst (path : Path) (allocLen : ℕ) : ∀ (commits : List Commit) (cons : Dgram),
    ((commits.take (emit path allocLen cons commits).1.length).map Commit.pkt) =
      (emit path allocLen cons commits).1
  | [], _ => rfl
  | c :: commits, cons => by
    unfold emit
    split_ifs
    · rfl
    · rcases qtxWritePkt path allocLen cons c.pkt with _ | ⟨done, cons'⟩
      · rfl
      · exact congrArg (c.pkt :: ·) (emit_fst path allocLen commits cons')

theorem five_le_pktLen {len : ℕ} (h : pktLen path pkt = some len) :
    5 ≤ len := by
  unfold pktLen at h
  split at h
  · cases h
  · next tagLen htag =>
    dsimp only at h
    split_ifs at h with h0
    have hbase := five_le_hdrBase path pkt.encLevel
    rw [hdrLen_eq h0, Option.some.injEq] at h
    omega

theorem five_mul_length_le {pkts : List TxpPkt} (h : ∀ p ∈ pkts, (pktLen path p).isSome = true) :
    5 * pkts.length ≤ (pkts.map fun p => (pktLen path p).getD 0).sum := by
  induction pkts with
  | nil => exact Nat.le_refl 0
  | cons p pkts ih =>
    obtain ⟨len, hlen⟩ := Option.isSome_iff_exists.mp (h p List.mem_cons_self)
    have hfive := five_le_pktLen hlen
    have hrest := ih fun q hq => h q (List.mem_cons_of_mem _ hq)
    simp only [List.length_cons, List.map_cons, List.sum_cons, hlen, Option.getD_some]
    omega

/-- **The size that is printed for a packet is that of its datagram** exactly when the packet is
alone in it and has no length field or one of two bytes. -/
theorem numBytes_eq_dataLen_iff {d : Dgram} (hd : Filled path d) (hpkt : pkt ∈ d.pkts)
    (hp : Planned path pkt) :
    pkt.numBytes = d.dataLen ↔
      d.pkts = [pkt] ∧ (pkt.encLevel = .oneRtt ∨ lengthFieldLen path pkt = 2) := by
  obtain ⟨len, hlen⟩ := Option.isSome_iff_exists.mp (hd.isSome pkt hpkt)
  have hsum : d.dataLen = len + ((d.pkts.erase pkt).map fun p => (pktLen path p).getD 0).sum := by
    rw [hd.dataLen, ← List.sum_map_erase _ hpkt, hlen, Option.getD_some]
  have hothers : 5 * (d.pkts.erase pkt).length ≤
      ((d.pkts.erase pkt).map fun p => (pktLen path p).getD 0).sum :=
    five_mul_length_le fun p hp => hd.isSome p (List.mem_of_mem_erase hp)
  have hnone : (d.pkts.erase pkt).length = 0 →
      ((d.pkts.erase pkt).map fun p => (pktLen path p).getD 0).sum = 0 := by
    intro h
    rw [List.length_eq_zero_iff.mp h]
    rfl
  have hone : d.pkts = [pkt] ↔ (d.pkts.erase pkt).length = 0 := by
    rw [List.length_erase_of_mem hpkt, Nat.sub_eq_zero_iff_le]
    constructor
    · intro h
      simp [h]
    · intro h
      obtain ⟨p, hp⟩ := List.length_eq_one_iff.mp (Nat.le_antisymm h (List.length_pos_of_mem hpkt))
      rw [hp] at hpkt ⊢
      rw [List.mem_singleton.mp hpkt]
  have hbytes := numBytes_eq hp hlen
  rw [hone]
  -- another packet has five bytes at least, more than the two that a length field is planned with
  split_ifs at hbytes with h1
  · simp only [h1, true_or, and_true]
    omega
  · simp only [h1, false_or]
    omega

/-- What is printed for the packets of a call, and what is written, differ by the length fields. -/
theorem printed_add_lengthFields (allocLen credit : ℕ) (input : GenerateInput) :
    ((send allocLen credit input).1.map TxpPkt.numBytes).sum +
        ((longs (send allocLen credit input).1).map (lengthFieldLen input.path)).sum =
      written (send allocLen credit input).2 + 2 *
        (longs (send allocLen credit input).1).length := by
  obtain ⟨hw, hm⟩ := written_emit input.path allocLen (generate credit input).1 .empty
  rw [← send] at hw hm
  have hsent : ∀ p ∈ (send allocLen credit input).1,
      Planned input.path p ∧ ∃ len, pktLen input.path p = some len := by
    intro p hp
    obtain ⟨⟨len, -, hlen⟩, c, hc, rfl⟩ := hm p hp
    exact ⟨planned_stagedPackets input _ (commitLoop_mem _ _ _ c hc), len, hlen⟩
  have hzero : Dgram.empty.dataLen = 0 := rfl
  rw [hw, hzero, Nat.zero_add]
  generalize (send allocLen credit input).1 = sent at hsent
  clear hw hm
  induction sent with
  | nil => rfl
  | cons p sent ih =>
    obtain ⟨⟨hp, len, hlen⟩, hsent⟩ := List.forall_mem_cons.mp hsent
    have ih := ih hsent
    have he := numBytes_eq hp hlen
    rw [longs_cons]
    split_ifs at he ⊢
    · simp only [List.map_cons, List.sum_cons, hlen, Option.getD_some]
      omega
    · simp only [List.map_cons, List.sum_cons, hlen, Option.getD_some, List.length_cons]
      omega

/-- **Printed and written.** For every call of `generate`, the sizes that are printed for the
packets sent add up to the bytes of the datagrams if and only if the length fields of the Initial,
0-RTT and Handshake packets among them have two bytes on average. -/
theorem printed_eq_written_iff (allocLen credit : ℕ) (input : GenerateInput) :
    ((send allocLen credit input).1.map TxpPkt.numBytes).sum =
        written (send allocLen credit input).2 ↔
      ((longs (send allocLen credit input).1).map (lengthFieldLen input.path)).sum =
        2 * (longs (send allocLen credit input).1).length := by
  have := printed_add_lengthFields allocLen credit input
  omega

/-- A Handshake packet with 20 bytes of payload: 65 bytes are printed and 64 are written. -/
theorem printed_eq_written_handshake :
    let r := send 1200 3600 (onePacket .handshake 20)
    (r.1.map TxpPkt.numBytes).sum = 65 ∧ written r.2 = 64 := by
  decide +kernel

/-- In buffers of up to 16383 bytes the length field of a packet has one byte or two. -/
theorem lengthFieldLen_le_two {len : ℕ} (hlen : pktLen path pkt = some len)
    (hle : len ≤ vlint2bMax) :
    lengthFieldLen path pkt ≤ 2 ∧ (lengthFieldLen path pkt = 2 ↔
      64 ≤ pkt.bytesAppended + (path.tagLen pkt.encLevel).getD 0 + txpDeterminePnLen) := by
  have hlt : pkt.bytesAppended + (path.tagLen pkt.encLevel).getD 0 + txpDeterminePnLen < 16384 := by
    unfold pktLen at hlen
    split at hlen
    · cases hlen
    · next tagLen htag =>
      dsimp only at hlen
      split_ifs at hlen with h0
      have hbase := five_le_hdrBase path pkt.encLevel
      rw [hdrLen_eq h0, Option.some.injEq] at hlen
      rw [htag, Option.getD_some]
      unfold txpDeterminePnLen
      unfold vlint2bMax at hle
      omega
  refine ⟨vlintEncodeLen_le_two hlt, ?_⟩
  rw [lengthFieldLen, vlintEncodeLen_eq_two_iff]
  omega

/-- **Printed and written in datagrams of up to 16383 bytes**: the two agree exactly when each of
the Initial, 0-RTT and Handshake packets sent has at least 64 bytes of packet number, payload and
tag. -/
theorem printed_eq_written_iff_of_le {allocLen : ℕ} (halloc : allocLen ≤ vlint2bMax) (credit : ℕ)
    (input : GenerateInput) :
    ((send allocLen credit input).1.map TxpPkt.numBytes).sum =
        written (send allocLen credit input).2 ↔
      ∀ p ∈ longs (send allocLen credit input).1,
        64 ≤ p.bytesAppended + (input.path.tagLen p.encLevel).getD 0 + txpDeterminePnLen := by
  have hsum := printed_add_lengthFields allocLen credit input
  have hm := (written_emit input.path allocLen (generate credit input).1 .empty).2
  rw [← send] at hm
  have hfield : ∀ p ∈ longs (send allocLen credit input).1, lengthFieldLen input.path p ≤ 2 ∧
      (lengthFieldLen input.path p = 2 ↔
        64 ≤ p.bytesAppended + (input.path.tagLen p.encLevel).getD 0 + txpDeterminePnLen) := by
    intro p hp
    obtain ⟨⟨len, hle, hlen⟩, -⟩ := hm p (List.mem_of_mem_filter hp)
    exact lengthFieldLen_le_two hlen (hle.trans halloc)
  have hiff : ((longs (send allocLen credit input).1).map (lengthFieldLen input.path)).sum =
      2 * (longs (send allocLen credit input).1).length ↔
        ∀ p ∈ longs (send allocLen credit input).1, lengthFieldLen input.path p = 2 := by
    generalize longs (send allocLen credit input).1 = sent at hfield
    clear hsum hm
    -- no field has more than two bytes, so the sum is as large as it can be only if all have two
    have hbound : (sent.map (lengthFieldLen input.path)).sum ≤ 2 * sent.length ∧
        ((sent.map (lengthFieldLen input.path)).sum = 2 * sent.length ↔
          ∀ p ∈ sent, lengthFieldLen input.path p = 2) := by
      induction sent with
      | nil => simp
      | cons p sent ih =>
        obtain ⟨hp, hsent⟩ := List.forall_mem_cons.mp hfield
        obtain ⟨ih1, ih2⟩ := ih hsent
        rw [List.map_cons, List.sum_cons, List.length_cons, List.forall_mem_cons, ← ih2]
        omega
    exact hbound.2
  rw [← forall₂_congr fun p hp => (hfield p hp).2, ← hiff]
  omega

end PapQuic.Txp.Datagram
