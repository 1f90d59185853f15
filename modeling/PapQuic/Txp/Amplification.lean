import PapQuic.Lib.Run
import PapQuic.Txp.Generate
import Mathlib.Algebra.BigOperators.Group.Finset.Basic
import Mathlib.Algebra.Order.BigOperators.Group.Finset

/-! # Amplification on the wire

A server may send a peer whose address is not validated at most three times what it has received.
The packetiser keeps a credit for this, but not in the bytes of the wire: a packet costs its payload
only, without header and tag, and every packet of a datagram earns three times the whole datagram.
So the bound on the wire can be exceeded (`amplification_exceeded`). It holds in every run in which
each datagram is earned once and, whenever the credit check lets a packet pass, the credit covers
the packet as encoded and the headers and tags of all packets before it (`amplification_bound`). -/

namespace PapQuic.Txp.Amplification

open Lib.Run Wire.Packet Wire.Header Txp.Credit Txp.Generate

/-! ### The channel and the wire -/

/-- What happens to a channel that is not validated. -/
inductive NetStep
  /-- A datagram is received. -/
  | datagram (len : ℕ)
  /-- `ossl_quic_handle_frames` on a packet of datagram `i`. -/
  | packet (i : ℕ) (encLevel : EncLevel)
  | generate (input : GenerateInput)

/-- The credit of the channel, and what has passed on the wire. -/
structure Net where
  credit : ℕ
  /-- The lengths of the datagrams received. -/
  datagrams : List ℕ
  /-- The datagrams of the packets handled. -/
  handled : List ℕ
  /-- The payload bytes of the packets passed to commit. -/
  payload : ℕ
  /-- Their headers and tags. -/
  overhead : ℕ
  /-- The encoded length of the packets sent. -/
  sent : ℕ
  deriving DecidableEq, Repr

def Net.new : Net := ⟨0, [], [], 0, 0, 0⟩

/-- The encoded length of a committed packet. -/
def Commit.encodedLen (path : Path) (c : Commit) : ℕ :=
  Generate.encodedLen path c.pkt.encLevel c.pkt.bytesAppended

/-- The headers and tags of committed packets. -/
def overheadOf (path : Path) (commits : List Commit) : ℕ :=
  (commits.map fun c => Commit.encodedLen path c - c.pkt.bytesAppended).sum

/-- The encoded length of those that were written to a datagram. -/
def sentOf (path : Path) (commits : List Commit) : ℕ :=
  (commits.map fun c => if c.outcome = .notWritten then 0 else Commit.encodedLen path c).sum

def step (net : Net) : NetStep → Net
  | .datagram len => { net with datagrams := net.datagrams ++ [len] }
  | .packet i encLevel =>
    match net.datagrams[i]? with
    | none => net
    | some dgramLen =>
      { net with
        credit := if encLevel = .handshake then setValidated net.credit
          else addUnvalidatedCredit net.credit dgramLen
        handled := i :: net.handled }
  | .generate input =>
    let r := Generate.generate net.credit input
    { net with
      credit := r.2
      payload := net.payload + bytesCommitted r.1
      overhead := net.overhead + overheadOf input.path r.1
      sent := net.sent + sentOf input.path r.1 }

/-! ### When the credit covers the wire -/

/-- Whenever the check lets a packet pass, the credit covers the encoded packet and the headers and
tags before it. -/
def Covered (path : Path) (el : EncLevel → ElInput) : ℕ → ℕ → List TxpPkt → Prop
  | _, _, [] => True
  | credit, overhead, pkt :: pkts =>
    let enc := encodedLen path pkt.encLevel pkt.bytesAppended
    if pkt.bytesAppended = 0 then Covered path el credit overhead pkts
    else if checkUnvalidatedCredit credit pkt.bytesAppended = false then True
    else overhead + enc ≤ credit ∧
      ((el pkt.encLevel).commitOutcome = .written →
        Covered path el (credit - pkt.bytesAppended) (overhead + (enc - pkt.bytesAppended)) pkts)

/-- The condition on a step. -/
def Meets (net : Net) : NetStep → Prop
  | .datagram _ => True
  | .packet i _ => i ∉ net.handled
  | .generate input =>
    Covered input.path input.el net.credit net.overhead (stagedPackets input)

theorem le_encodedLen (path : Path) (encLevel : EncLevel) (n : ℕ) :
    n ≤ encodedLen path encLevel n := by
  unfold encodedLen; dsimp only; omega

theorem overheadOf_cons (path : Path) (c : Commit) (cs : List Commit) :
    overheadOf path (c :: cs) =
      (Commit.encodedLen path c - c.pkt.bytesAppended) + overheadOf path cs := by
  simp [overheadOf]

theorem sentOf_cons (path : Path) (c : Commit) (cs : List Commit) :
    sentOf path (c :: cs) =
      (if c.outcome = .notWritten then 0 else Commit.encodedLen path c) + sentOf path cs := by
  simp [sentOf]

theorem bytesCommitted_cons (c : Commit) (cs : List Commit) :
    bytesCommitted (c :: cs) = c.pkt.bytesAppended + bytesCommitted cs := by
  simp [bytesCommitted]

theorem sentOf_cons_le (path : Path) (c : Commit) (cs : List Commit) :
    sentOf path (c :: cs) ≤ Commit.encodedLen path c + sentOf path cs := by
  rw [sentOf_cons]
  split_ifs <;> omega

/-- What is sent is payload, headers and tags of packets passed to commit. -/
theorem sentOf_le (path : Path) : ∀ cs : List Commit,
    sentOf path cs ≤ bytesCommitted cs + overheadOf path cs
  | [] => by simp [sentOf]
  | c :: cs => by
    have ih := sentOf_le path cs
    have h := sentOf_cons_le path c cs
    have hle : c.pkt.bytesAppended ≤ Commit.encodedLen path c := le_encodedLen _ _ _
    rw [bytesCommitted_cons, overheadOf_cons]
    omega

/-- **One call of `generate`**: what a covered call sends stays within the bound. -/
theorem commitLoop_covered (path : Path) (el : EncLevel → ElInput) (bound : ℕ) :
    ∀ (pkts : List TxpPkt) (credit payload overhead sent : ℕ), credit < sizeMax →
      credit + payload ≤ bound → sent ≤ payload + overhead → sent ≤ bound →
      Covered path el credit overhead pkts →
      sent + sentOf path (commitLoop el credit pkts).1 ≤ bound
  | [], credit, payload, overhead, sent, _, _, _, hs, _ => by simpa [commitLoop, sentOf] using hs
  | pkt :: pkts, credit, payload, overhead, sent, hlt, hb, hso, hs, hc => by
    simp only [Covered] at hc
    simp only [commitLoop]
    split_ifs at hc ⊢ with h0 hchk hw
    · exact commitLoop_covered path el bound pkts credit payload overhead sent hlt hb hso hs hc
    · simpa [sentOf] using hs
    · obtain ⟨he, hle, -⟩ := consumeUnvalidatedCredit_eq (show credit ≠ sizeMax by omega)
        (by simpa using hchk)
      have henc := le_encodedLen path pkt.encLevel pkt.bytesAppended
      rw [he, sentOf_cons, if_neg (by simp [hw]), ← Nat.add_assoc]
      exact commitLoop_covered path el bound pkts (credit - pkt.bytesAppended)
        (payload + pkt.bytesAppended)
        (overhead + (encodedLen path pkt.encLevel pkt.bytesAppended - pkt.bytesAppended))
        _ (by omega) (by omega) (by dsimp only [Commit.encodedLen]; omega)
        (by dsimp only [Commit.encodedLen]; omega) (hc.2 hw)
    · have h := sentOf_cons_le path
        ⟨pkt, credit, consumeUnvalidatedCredit credit pkt.bytesAppended,
          (el pkt.encLevel).commitOutcome⟩ []
      have hnil : sentOf path [] = 0 := rfl
      have hcov := hc.1
      dsimp only [Commit.encodedLen] at h ⊢
      omega

/-! ### Whole runs -/

/-- The bytes of the datagrams with the given indices. -/
def bytesAt (datagrams indices : List ℕ) : ℕ := (indices.map fun i => datagrams.getD i 0).sum

/-- Datagrams that are counted once each are no more than all of them. -/
theorem bytesAt_le (datagrams : List ℕ) {indices : List ℕ} (hnd : indices.Nodup) :
    bytesAt datagrams indices ≤ datagrams.sum := by
  have hlist : (List.range datagrams.length).map (fun i => datagrams.getD i 0) = datagrams :=
    List.ext_getElem (by simp) fun i h1 h2 => by simp [List.getD, h2]
  have hsum : datagrams.sum =
      ∑ i ∈ (List.range datagrams.length).toFinset, datagrams.getD i 0 := by
    rw [List.sum_toFinset _ List.nodup_range, hlist]
  rw [hsum, bytesAt, ← List.sum_toFinset _ hnd]
  -- an index past the end counts nothing
  rw [← Finset.sum_filter_of_ne (p := (· < datagrams.length))]
  · exact Finset.sum_le_sum_of_subset fun i hi => by simpa using (Finset.mem_filter.mp hi).2
  · intro i _ hne
    by_contra hlt
    exact hne (by rw [List.getD_eq_getElem?_getD, List.getElem?_eq_none (by omega)]; rfl)

/-- The invariant: the credit is limited; with the payload it has paid for it is at most what the
handled datagrams have earned, each counted once; and the wire is within the bound. -/
structure Within (net : Net) : Prop where
  limited : net.credit < sizeMax
  earned : net.credit + net.payload ≤ 3 * bytesAt net.datagrams net.handled
  nodup : net.handled.Nodup
  handled_lt : ∀ i ∈ net.handled, i < net.datagrams.length
  sent_le : net.sent ≤ net.payload + net.overhead
  bound : net.sent ≤ 3 * net.datagrams.sum

/-- The credit never gains more than three times the datagram, and stays limited. -/
theorem addUnvalidatedCredit_le {credit : ℕ} (bytes : ℕ) (h : credit < sizeMax) :
    addUnvalidatedCredit credit bytes ≤ credit + 3 * bytes ∧
      addUnvalidatedCredit credit bytes < sizeMax := by
  have hd : creditDelta bytes ≤ 3 * bytes := by
    rw [creditDelta, Nat.mul_comm]; exact Nat.mod_le _ _
  unfold addUnvalidatedCredit
  rw [if_pos (by omega)]
  split_ifs <;> omega

theorem bytesAt_snoc {datagrams handled : List ℕ} (len : ℕ)
    (h : ∀ i ∈ handled, i < datagrams.length) :
    bytesAt (datagrams ++ [len]) handled = bytesAt datagrams handled := by
  unfold bytesAt
  congr 1
  refine List.map_congr_left fun i hi => ?_
  rw [List.getD_append _ _ _ _ (h i hi)]

/-- The step is no packet that validates the address. -/
def NetStep.Unvalidated : NetStep → Prop
  | .packet _ encLevel => encLevel ≠ .handshake
  | _ => True

/-- **One step keeps the invariant.** -/
theorem within_step (net : Net) (s : NetStep) (h : Within net)
    (hc : Meets net s ∧ s.Unvalidated) : Within (step net s) := by
  obtain ⟨hm, hu⟩ := hc
  cases s with
  | datagram len =>
    refine ⟨h.limited, ?_, h.nodup, ?_, h.sent_le, ?_⟩
    · simp only [step, bytesAt_snoc len h.handled_lt]; exact h.earned
    · intro i hi
      simp only [step, List.length_append, List.length_singleton]
      exact Nat.lt_succ_of_lt (h.handled_lt i hi)
    · have := h.bound
      simp only [step, List.sum_append, List.sum_singleton]
      omega
  | packet i encLevel =>
    rcases hd : net.datagrams[i]? with _ | len
    · simpa only [step, hd] using h
    · obtain ⟨hlt, hlen⟩ := List.getElem?_eq_some_iff.mp hd
      obtain ⟨hle, hlim⟩ := addUnvalidatedCredit_le len h.limited
      have hearn := h.earned
      simp only [step, hd, if_neg (show encLevel ≠ .handshake from hu)]
      refine ⟨hlim, ?_, List.nodup_cons.mpr ⟨hm, h.nodup⟩, ?_, h.sent_le, h.bound⟩
      · simp only [bytesAt, List.map_cons, List.sum_cons, List.getD_eq_getElem?_getD, hd,
          Option.getD_some] at hearn ⊢
        omega
      · intro j hj
        rcases List.mem_cons.mp hj with rfl | hj
        · exact hlt
        · exact h.handled_lt j hj
  | generate input =>
    obtain ⟨he, -⟩ := commitLoop_credit input.el (stagedPackets input) net.credit h.limited
    have hall := bytesAt_le net.datagrams h.nodup
    have hearn := h.earned
    have hsent := commitLoop_covered input.path input.el (3 * net.datagrams.sum)
      (stagedPackets input) net.credit net.payload net.overhead net.sent h.limited (by omega)
      h.sent_le h.bound hm
    have hle := sentOf_le input.path (commitLoop input.el net.credit (stagedPackets input)).1
    have hlim := h.limited
    have hso := h.sent_le
    refine ⟨?_, ?_, h.nodup, h.handled_lt, ?_, hsent⟩
    · simp only [step, Generate.generate]; omega
    · simp only [step, Generate.generate]; omega
    · simp only [step, Generate.generate]; omega

/-- **The bound on the wire.** In every run of a channel that is not validated, if each datagram is
earned at most once and every packet the credit check lets pass is covered as encoded, then at every
time at most three times the bytes received have been sent. -/
theorem amplification_bound (steps : List NetStep)
    (h : AllMeet step (fun net s => Meets net s ∧ s.Unvalidated) .new steps) :
    ∀ pre post, steps = pre ++ post →
      (run step .new pre).sent ≤ 3 * (run step .new pre).datagrams.sum := by
  rintro pre post rfl
  have h0 : Within .new :=
    ⟨by decide, by decide, List.nodup_nil, by simp [Net.new], by decide, by decide⟩
  exact (AllMeet.invariant within_step h0 h.take).bound

theorem amplification_bound_one_datagram :
    (run step .new [.datagram 1200, .packet 0 .initial, .generate (onePacket .initial 1154)]).sent ≤
      3 * (run step .new [.datagram 1200, .packet 0 .initial,
        .generate (onePacket .initial 1154)]).datagrams.sum := by
  refine amplification_bound
    [.datagram 1200, .packet 0 .initial, .generate (onePacket .initial 1154)] ?_ _ [] (by simp)
  refine ⟨⟨trivial, trivial⟩, ⟨List.not_mem_nil, EncLevel.noConfusion⟩, ⟨?_, trivial⟩, trivial⟩
  -- one Initial packet of 1200 bytes is staged, and the credit is 3600
  have hstaged : stagedPackets (onePacket .initial 1154) =
      [⟨.initial, 1154, 1154, false, false, 1200, 46, 1200⟩] := by decide +kernel
  have hcredit : (step (step .new (.datagram 1200)) (.packet 0 .initial)).credit = 3600 := by
    decide +kernel
  have hover : (step (step .new (.datagram 1200)) (.packet 0 .initial)).overhead = 0 := by
    decide +kernel
  simp only [Meets, hstaged, hcredit, hover, Covered]
  decide +kernel

/-- One datagram of 1200 bytes pays for three of 1200 bytes and a Handshake packet more. -/
theorem amplification_exceeded :
    let steps := [.datagram 1200, .packet 0 .initial, .generate (onePacket .initial 1154),
      .generate (onePacket .initial 1154), .generate (onePacket .initial 1154),
      .generate (onePacket .handshake 100)]
    (run step .new steps).datagrams.sum = 1200 ∧ (run step .new steps).sent = 3745 ∧
      (run step .new steps).credit ≠ sizeMax := by
  decide +kernel

end PapQuic.Txp.Amplification
