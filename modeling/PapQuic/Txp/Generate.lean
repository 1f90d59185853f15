import PapQuic.Wire.Header
import PapQuic.Txp.Credit

/-! # Generating datagrams

`ossl_quic_tx_packetiser_generate` of `ssl/quic/quic_txp.c`. It stages at most one packet for each
encryption level, adds padding where the datagram needs it, and then commits the staged packets one
by one, as far as the unvalidated credit reaches. Which frames go into a packet is decided by
`txp_generate_for_el` and is an input here (`ElInput.generateForEl`), as is what can fail for lack
of memory; the lengths, the padding and the credit are computed as in the source.

* `commitLoop_credit`: with a credit that is not unlimited, the loop takes from it exactly the
  payload bytes of the packets it commits, and never more than there is. -/

namespace PapQuic.Txp.Generate

open Wire.Packet Wire.Header Txp.Credit

/-! ### Inputs -/

/-- `TX_PACKETISER_ARCHETYPE_*`. -/
inductive Archetype
  | normal | probe | ackOnly
  deriving DecidableEq, Repr

/-- `allow_padding` of the archetype table, the same at every encryption level. -/
def Archetype.allowPadding : Archetype → Bool
  | .ackOnly => false
  | _ => true

/-- `allow_ping` of the archetype table. -/
def Archetype.allowPing : Archetype → Bool
  | .ackOnly => false
  | _ => true

/-- `require_ack_eliciting` of the archetype table. -/
def Archetype.requireAckEliciting : Archetype → Bool
  | .probe => true
  | _ => false

/-- What the lengths of packets depend on. -/
structure Path where
  mdpl : ℕ
  curDcidLen : ℕ
  curScidLen : ℕ
  initialTokenLen : ℕ
  /-- The tag length of a level's cipher, `none` while the level has no keys. -/
  tagLen : EncLevel → Option ℕ

/-- What `txp_generate_for_el` leaves in the packet. -/
structure Generated where
  bytesAppended : ℕ
  forcePad : Bool
  doneImplicit : Bool
  deriving DecidableEq, Repr

/-- How `txp_pkt_commit` ends. -/
inductive CommitOutcome
  /-- It fails before the packet is in a datagram. -/
  | notWritten
  /-- The packet is in a datagram, but the function returns 0. -/
  | writtenFailed
  | written
  deriving DecidableEq, Repr

/-- What an encryption level brings to a call of `generate`. -/
structure ElInput where
  /-- `txp_should_try_staging`. -/
  shouldTryStaging : Bool
  /-- The level's bit in `force_ack_eliciting`. -/
  forceAckEliciting : Bool
  /-- The allocation in `tx_helper_init`. -/
  initAlloc : Bool
  /-- `txp_generate_for_el` within a budget; `none` when it does not succeed. -/
  generateForEl : (maxPpl : ℕ) → Option {g : Generated // g.bytesAppended ≤ maxPpl}
  /-- The allocation in `tx_helper_expand_max_ppl`. -/
  expandAlloc : Bool
  /-- The allocation in `txp_pkt_append_padding`. -/
  paddingAlloc : Bool
  commitOutcome : CommitOutcome

structure GenerateInput where
  path : Path
  archetype : Archetype
  el : EncLevel → ElInput

/-- A call that stages one packet with the given payload: connection ids of eight bytes, no token, a
tag of 16 bytes, datagrams of at most 1200 bytes. -/
def onePacket (encLevel : EncLevel) (bytes : ℕ) : GenerateInput where
  path := ⟨1200, 8, 8, 0, fun _ => some 16⟩
  archetype := .normal
  el := fun l =>
    { shouldTryStaging := l = encLevel
      forceAckEliciting := false
      initAlloc := true
      generateForEl := fun maxPpl =>
        if h : bytes ≤ maxPpl then some ⟨⟨bytes, false, false⟩, h⟩ else none
      expandAlloc := true
      paddingAlloc := true
      commitOutcome := .written }

/-! ### Staging -/

/-- `struct txp_pkt`, once its level has been staged. -/
structure TxpPkt where
  encLevel : EncLevel
  bytesAppended : ℕ
  maxPpl : ℕ
  doneImplicit : Bool
  forcePad : Bool
  cmpl : ℕ
  pktOverhead : ℕ
  /-- `num_bytes` of the packet's ACKM record. -/
  numBytes : ℕ
  deriving DecidableEq, Repr

/-- `txp_determine_pn_len`. -/
def txpDeterminePnLen : ℕ := 4

/-- The packet header of a level whose payload has the given length. -/
def Path.phdr (path : Path) (encLevel : EncLevel) (len : ℕ) : PktHdr where
  encLevel := encLevel
  pnLen := txpDeterminePnLen
  dstConnIdLen := path.curDcidLen
  srcConnIdLen := path.curScidLen
  tokenLen := if encLevel = .initial then path.initialTokenLen else 0
  len := len

/-- `OSSL_QUIC_VLINT_2B_MAX`. -/
def vlint2bMax : ℕ := 16383

/-- `txp_determine_geometry`: `cmpl`, `cmppl` and `pkt_overhead`. The length field is taken to be of
two bytes. -/
def txpDetermineGeometry (path : Path) (encLevel : EncLevel) (runningTotal : ℕ) :
    Option (ℕ × ℕ × ℕ) :=
  let hdrLen := getEncodedPktHdrLen path.curDcidLen
    (path.phdr encLevel (vlint2bMax - txpDeterminePnLen))
  let cmpl := if runningTotal > path.mdpl then 0 else path.mdpl - runningTotal
  if hdrLen = 0 ∨ cmpl < hdrLen then none
  else
    match path.tagLen encLevel with
    | none => none
    | some tagLen =>
      if cmpl - hdrLen ≤ tagLen then none
      else
        let cmppl := cmpl - hdrLen - tagLen
        some (cmpl, cmppl, cmpl - cmppl)

/-- `txp_need_ping`. -/
def txpNeedPing (archetype : Archetype) (el : ElInput) : Bool :=
  archetype.allowPing && (archetype.requireAckEliciting || el.forceAckEliciting)

/-- What staging a level comes to. -/
inductive Staged
  | skipped
  /-- No room for another packet: staging ends. -/
  | noRoom
  /-- `txp_generate_for_el` failed: nothing is sent. -/
  | failed
  | staged (pkt : TxpPkt)

/-- One round of the staging loop. -/
def stageLevel (input : GenerateInput) (encLevel : EncLevel) (runningTotal : ℕ) : Staged :=
  let el := input.el encLevel
  if el.shouldTryStaging = false then .skipped
  else
    match txpDetermineGeometry input.path encLevel runningTotal with
    | none => .noRoom
    | some (cmpl, cmppl, overhead) =>
      if (if txpNeedPing input.archetype el then 1 else 0) > cmppl ∨ el.initAlloc = false
        then .noRoom
      else
        match el.generateForEl cmppl with
        | none => .failed
        | some g =>
          .staged ⟨encLevel, g.val.bytesAppended, cmppl, g.val.doneImplicit, g.val.forcePad, cmpl,
            overhead, g.val.bytesAppended + overhead⟩

/-- The staging loop; `none` when it gives up on the whole call. -/
def stageLoop (input : GenerateInput) : List EncLevel → ℕ → Option (List TxpPkt)
  | [], _ => some []
  | encLevel :: levels, runningTotal =>
    match stageLevel input encLevel runningTotal with
    | .skipped => stageLoop input levels runningTotal
    | .noRoom => some []
    | .failed => none
    | .staged pkt =>
      (stageLoop input levels (runningTotal + pkt.bytesAppended + pkt.pktOverhead)).map (pkt :: ·)

/-- The levels in the order of the loops. -/
def encLevels : List EncLevel := [.initial, .zeroRtt, .handshake, .oneRtt]

/-! ### Padding -/

/-- `QUIC_MIN_INITIAL_DGRAM_LEN`. -/
def quicMinInitialDgramLen : ℕ := 1200

/-- `txp_pkt_postgen_update_pkt_overhead`: the overhead without the assumption on the length field.
That of an Initial packet stays. -/
def txpPktPostgenUpdatePktOverhead (path : Path) (pkt : TxpPkt) : TxpPkt :=
  match pkt.encLevel, path.tagLen pkt.encLevel with
  | .initial, _ | _, none => pkt
  | encLevel, some tagLen =>
    let ciphertextLen := pkt.bytesAppended + tagLen
    let hdrLen := getEncodedPktHdrLen path.curDcidLen (path.phdr encLevel ciphertextLen)
    { pkt with pktOverhead := hdrLen + ciphertextLen - pkt.bytesAppended }

/-- The budget of the packet after the update; `none` when memory for a larger one is short. -/
def expandMaxPpl (el : ElInput) (pkt : TxpPkt) : Option TxpPkt :=
  if pkt.cmpl ≥ pkt.pktOverhead then
    let newMaxPpl := pkt.cmpl - pkt.pktOverhead
    if newMaxPpl ≤ pkt.maxPpl then some pkt
    else if el.expandAlloc then some { pkt with maxPpl := newMaxPpl } else none
  else some pkt

/-- The loop over the packets of a datagram that needs padding: their overheads and budgets are
brought up to date. Packets with nothing in them are left alone. -/
def updateLoop (input : GenerateInput) : List TxpPkt → Option (List TxpPkt)
  | [] => some []
  | pkt :: pkts =>
    if pkt.bytesAppended = 0 then (updateLoop input pkts).map (pkt :: ·)
    else do
      let pkt ← expandMaxPpl (input.el pkt.encLevel)
        (txpPktPostgenUpdatePktOverhead input.path pkt)
      let pkts ← updateLoop input pkts
      return pkt :: pkts

/-- The size of the datagram the packets make. -/
def totalDgramSize (pkts : List TxpPkt) : ℕ :=
  (pkts.map fun p => if p.bytesAppended = 0 then 0 else p.pktOverhead + p.bytesAppended).sum

/-- Whether padding can go into a packet. -/
def TxpPkt.padable (archetype : Archetype) (pkt : TxpPkt) : Bool :=
  pkt.bytesAppended ≠ 0 && archetype.allowPadding && !pkt.doneImplicit

/-- `txp_pkt_append_padding`, on the first packet that can take it; `none` when it fails. Where no
packet can, nothing changes. -/
def appendPadding (input : GenerateInput) (deficit : ℕ) : List TxpPkt → Option (List TxpPkt)
  | [] => some []
  | pkt :: pkts =>
    if pkt.padable input.archetype then
      if pkt.maxPpl - pkt.bytesAppended < deficit ∨
        (input.el pkt.encLevel).paddingAlloc = false then
        none
      else
        some ({ pkt with bytesAppended := pkt.bytesAppended + deficit,
                         numBytes := pkt.numBytes + deficit } :: pkts)
    else (appendPadding input deficit pkts).map (pkt :: ·)

/-- The datagram has to be padded. -/
def needPadding (pkts : List TxpPkt) : Bool :=
  pkts.any fun p => p.forcePad || (p.encLevel = .initial && p.bytesAppended ≠ 0)

/-- The adjustment of the staged packets; `none` when nothing is sent. -/
def adjust (input : GenerateInput) (pkts : List TxpPkt) : Option (List TxpPkt) :=
  if needPadding pkts then do
    let pkts ← updateLoop input pkts
    let pkts ←
      if totalDgramSize pkts < quicMinInitialDgramLen then
        appendPadding input (quicMinInitialDgramLen - totalDgramSize pkts) pkts
      else some pkts
    if totalDgramSize pkts < quicMinInitialDgramLen then none else some pkts
  else some pkts

/-! ### Commit -/

/-- A packet passed to `txp_pkt_commit`. -/
structure Commit where
  pkt : TxpPkt
  creditBefore : ℕ
  creditAfter : ℕ
  outcome : CommitOutcome
  deriving DecidableEq, Repr

/-- The commit loop: the packets passed to `txp_pkt_commit`, and the credit at the end. -/
def commitLoop (el : EncLevel → ElInput) : ℕ → List TxpPkt → List Commit × ℕ
  | credit, [] => ([], credit)
  | credit, pkt :: pkts =>
    if pkt.bytesAppended = 0 then commitLoop el credit pkts
    else if checkUnvalidatedCredit credit pkt.bytesAppended = false then ([], credit)
    else
      let after := consumeUnvalidatedCredit credit pkt.bytesAppended
      let c : Commit := ⟨pkt, credit, after, (el pkt.encLevel).commitOutcome⟩
      if c.outcome = .written then
        (c :: (commitLoop el after pkts).1, (commitLoop el after pkts).2)
      else ([c], after)

/-- The packets that come to the commit loop; none when an earlier phase gives up. -/
def stagedPackets (input : GenerateInput) : List TxpPkt :=
  ((stageLoop input encLevels 0).bind (adjust input)).getD []

/-- `ossl_quic_tx_packetiser_generate`: the packets passed to `txp_pkt_commit` and the credit. -/
def generate (credit : ℕ) (input : GenerateInput) : List Commit × ℕ :=
  commitLoop input.el credit (stagedPackets input)

/-- The length of a packet on the wire: header, ciphertext and tag. -/
def encodedLen (path : Path) (encLevel : EncLevel) (bytesAppended : ℕ) : ℕ :=
  let ciphertextLen := bytesAppended + (path.tagLen encLevel).getD 0
  getEncodedPktHdrLen path.curDcidLen (path.phdr encLevel ciphertextLen) + ciphertextLen

/-! ### What the commit loop does to the credit -/

/-- The payload bytes of the packets passed to `txp_pkt_commit`. -/
def bytesCommitted (commits : List Commit) : ℕ := (commits.map fun c => c.pkt.bytesAppended).sum

/-- With an unlimited credit the loop leaves it unlimited. -/
theorem commitLoop_unlimited (el : EncLevel → ElInput) : ∀ pkts : List TxpPkt,
    (commitLoop el sizeMax pkts).2 = sizeMax ∧
      ∀ c ∈ (commitLoop el sizeMax pkts).1, c.creditBefore = sizeMax ∧ c.creditAfter = sizeMax
  | [] => ⟨rfl, by simp [commitLoop]⟩
  | pkt :: pkts => by
    obtain ⟨ih1, ih2⟩ := commitLoop_unlimited el pkts
    simp only [commitLoop, consumeUnvalidatedCredit_unlimited]
    split_ifs
    · exact ⟨ih1, ih2⟩
    · exact ⟨rfl, by simp⟩
    · exact ⟨ih1, by simpa using ih2⟩
    · exact ⟨rfl, by simp⟩

/-- **What a limited credit pays for.** The loop takes exactly the payload bytes of the packets it
commits, which are covered; and the credit each packet meets covers it. -/
theorem commitLoop_credit (el : EncLevel → ElInput) : ∀ (pkts : List TxpPkt) (credit : ℕ),
    credit < sizeMax →
    (commitLoop el credit pkts).2 + bytesCommitted (commitLoop el credit pkts).1 = credit ∧
      ∀ c ∈ (commitLoop el credit pkts).1,
        c.pkt.bytesAppended ≤ c.creditBefore ∧ c.creditBefore < sizeMax ∧
          c.creditAfter + c.pkt.bytesAppended = c.creditBefore
  | [], credit, _ => ⟨by simp [commitLoop, bytesCommitted], by simp [commitLoop]⟩
  | pkt :: pkts, credit, hlt => by
    simp only [commitLoop]
    split_ifs with h0 hchk hw
    · exact commitLoop_credit el pkts credit hlt
    · exact ⟨by simp [bytesCommitted], by simp⟩
    · obtain ⟨he, hle, -⟩ := consumeUnvalidatedCredit_eq (show credit ≠ sizeMax by omega)
        (by simpa using hchk)
      rw [he]
      obtain ⟨ih1, ih2⟩ := commitLoop_credit el pkts (credit - pkt.bytesAppended) (by omega)
      refine ⟨?_, ?_⟩
      · simp only [bytesCommitted, List.map_cons, List.sum_cons] at ih1 ⊢
        omega
      · intro c hc
        rcases List.mem_cons.mp hc with rfl | hc
        · exact ⟨hle, hlt, by dsimp only; omega⟩
        · exact ih2 c hc
    · obtain ⟨he, hle, -⟩ := consumeUnvalidatedCredit_eq (show credit ≠ sizeMax by omega)
        (by simpa using hchk)
      rw [he]
      refine ⟨by simp only [bytesCommitted, List.map_cons, List.map_nil, List.sum_cons,
        List.sum_nil]; omega, ?_⟩
      intro c hc
      obtain rfl := List.mem_singleton.mp hc
      exact ⟨hle, hlt, by dsimp only; omega⟩

end PapQuic.Txp.Generate
