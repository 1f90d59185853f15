import PapQuic.Lib.Run
import PapQuic.Txp.Generate

/-! # Credit accounting

The life of the unvalidated credit of a server channel, from creation on: packets are received,
datagrams are generated, and at some point the peer's address is validated. Until then the credit is
three times the bytes received less the payload bytes passed to commit, and from then on it is
unlimited (`credit_accounting`). Neither the cap of `add` nor the floor of `consume` is ever
reached. -/

namespace PapQuic.Txp.Accounting

open Lib.Run Wire.Packet Wire.Header Txp.Credit Txp.Generate

/-- What happens to a channel. -/
inductive ChannelStep
  /-- `ossl_quic_handle_frames` on a packet of a datagram of `dgramLen` bytes. -/
  | handleFrames (encLevel : EncLevel) (dgramLen : ℕ)
  /-- `ossl_quic_tx_packetiser_generate`. -/
  | generate (input : GenerateInput)
  /-- `ossl_quic_tx_packetiser_set_validated`: a valid token, `unlimited_amplification`, or the end
  of the handshake. -/
  | setValidated

/-- The credit of a channel, the packets passed to commit, and the operations on the credit. -/
structure Channel where
  credit : ℕ
  commits : List Commit
  ops : List CreditOp

/-- A server channel as it is created. -/
def Channel.new : Channel := ⟨0, [], []⟩

def step (ch : Channel) : ChannelStep → Channel
  | .handleFrames .handshake _ =>
    ⟨setValidated ch.credit, ch.commits, ch.ops ++ [.setValidated ch.credit]⟩
  | .handleFrames _ dgramLen =>
    ⟨addUnvalidatedCredit ch.credit dgramLen, ch.commits, ch.ops ++ [.add ch.credit dgramLen]⟩
  | .generate input =>
    let r := Generate.generate ch.credit input
    ⟨r.2, ch.commits ++ r.1,
      ch.ops ++ r.1.map fun c => .consume c.creditBefore c.pkt.bytesAppended⟩
  | .setValidated => ⟨setValidated ch.credit, ch.commits, ch.ops ++ [.setValidated ch.credit]⟩

/-- The `dgram_len` a step counts. -/
def ChannelStep.dgramLen : ChannelStep → ℕ
  | .handleFrames _ dgramLen => dgramLen
  | _ => 0

/-- The sum of `dgram_len` over the received packets. -/
def received (steps : List ChannelStep) : ℕ := (steps.map ChannelStep.dgramLen).sum

/-- The step calls `set_validated`. -/
def ChannelStep.validates : ChannelStep → Bool
  | .handleFrames .handshake _ | .setValidated => true
  | _ => false

/-- `set_validated` has been called. -/
def validated (steps : List ChannelStep) : Bool := steps.any ChannelStep.validates

theorem bytesCommitted_append (a b : List Commit) :
    bytesCommitted (a ++ b) = bytesCommitted a + bytesCommitted b := by
  simp [bytesCommitted]

/-! ### One step -/

/-- A channel that is not validated: its books balance. -/
structure Balanced (ch : Channel) (received : ℕ) : Prop where
  balance : ch.credit + bytesCommitted ch.commits = 3 * received
  ops : ∀ op ∈ ch.ops, ¬ op.saturates

/-- A channel that is validated: its credit is unlimited. -/
structure Unlimited (ch : Channel) : Prop where
  credit : ch.credit = sizeMax
  ops : ∀ op ∈ ch.ops, ¬ op.saturates

theorem forall_mem_snoc {P : CreditOp → Prop} {ops : List CreditOp} {op : CreditOp}
    (h : ∀ o ∈ ops, P o) (ho : P op) : ∀ o ∈ ops ++ [op], P o := by
  intro o hm
  rcases List.mem_append.mp hm with hm | hm
  · exact h o hm
  · obtain rfl := List.mem_singleton.mp hm
    exact ho

/-- A step that does not validate keeps the books in balance. -/
theorem balanced_step {ch : Channel} {n : ℕ} {s : ChannelStep} (h : Balanced ch n)
    (hs : s.validates = false) (hn : 3 * (n + s.dgramLen) ≤ sizeMax - 1) :
    Balanced (step ch s) (n + s.dgramLen) := by
  have hb := h.balance
  have hM : 0 < sizeMax := by decide
  cases s with
  | setValidated => cases hs
  | generate input =>
    obtain ⟨he, hc⟩ := commitLoop_credit input.el (stagedPackets input) ch.credit (by omega)
    refine ⟨?_, ?_⟩
    · simp only [step, Generate.generate, ChannelStep.dgramLen, bytesCommitted_append]
      omega
    · intro op hop
      rcases List.mem_append.mp hop with hop | hop
      · exact h.ops op hop
      · obtain ⟨c, hcm, rfl⟩ := List.mem_map.mp hop
        have := (hc c hcm).1
        exact fun hsat => absurd hsat.2 (by omega)
  | handleFrames encLevel dgramLen =>
    have hle : ch.credit + 3 * dgramLen ≤ sizeMax - 1 := by
      simp only [ChannelStep.dgramLen] at hn; omega
    obtain ⟨he, hsat⟩ := addUnvalidatedCredit_eq hle
    cases encLevel with
    | handshake => cases hs
    | initial | zeroRtt | oneRtt =>
      refine ⟨?_, forall_mem_snoc h.ops hsat⟩
      simp only [step, ChannelStep.dgramLen, he]
      omega

/-- A step that validates makes the credit unlimited. -/
theorem unlimited_of_validates {ch : Channel} {s : ChannelStep} (hs : s.validates = true)
    (h : ∀ op ∈ ch.ops, ¬ op.saturates) : Unlimited (step ch s) := by
  cases s with
  | generate input => cases hs
  | setValidated => exact ⟨rfl, forall_mem_snoc h id⟩
  | handleFrames encLevel dgramLen =>
    cases encLevel with
    | handshake => exact ⟨rfl, forall_mem_snoc h id⟩
    | initial | zeroRtt | oneRtt => cases hs

/-- An unlimited credit stays unlimited. -/
theorem unlimited_step (ch : Channel) (s : ChannelStep) (h : Unlimited ch) :
    Unlimited (step ch s) := by
  cases s with
  | setValidated => exact unlimited_of_validates rfl h.ops
  | generate input =>
    obtain ⟨he, hc⟩ := commitLoop_unlimited input.el (stagedPackets input)
    refine ⟨?_, ?_⟩
    · simp only [step, Generate.generate, h.credit, he]
    · intro op hop
      simp only [step, Generate.generate, h.credit] at hop
      rcases List.mem_append.mp hop with hop | hop
      · exact h.ops op hop
      · obtain ⟨c, hcm, rfl⟩ := List.mem_map.mp hop
        rw [(hc c hcm).1]
        exact not_saturates_unlimited_consume _
  | handleFrames encLevel dgramLen =>
    cases encLevel with
    | handshake => exact unlimited_of_validates rfl h.ops
    | initial | zeroRtt | oneRtt =>
      refine ⟨?_, ?_⟩
      · simp only [step, h.credit, addUnvalidatedCredit_unlimited]
      · simp only [step, h.credit]
        exact forall_mem_snoc h.ops (not_saturates_unlimited_add _)

/-! ### Whole runs -/

/-- The state of the books after a run. -/
theorem run_books (steps : List ChannelStep) (h : 3 * received steps ≤ sizeMax - 1) :
    (validated steps = false ∧ Balanced (run step .new steps) (received steps)) ∨
      (validated steps = true ∧ Unlimited (run step .new steps)) := by
  induction steps using List.reverseRecOn with
  | nil => exact .inl ⟨rfl, ⟨rfl, by simp [Channel.new]⟩⟩
  | append_singleton steps s ih =>
    have hr : received (steps ++ [s]) = received steps + s.dgramLen := by simp [received]
    have hv : validated (steps ++ [s]) = (validated steps || s.validates) := by simp [validated]
    rw [hr] at h ⊢
    rw [hv, run_append]
    rcases ih (by omega) with ⟨hf, hb⟩ | ⟨ht, hu⟩
    · rcases hs : s.validates
      · exact .inl ⟨by simp [hf], balanced_step hb hs h⟩
      · exact .inr ⟨by simp, unlimited_of_validates hs hb.ops⟩
    · exact .inr ⟨by simp [ht], unlimited_step _ s hu⟩

/-- **Credit accounting.** As long as three times the bytes received fit: until `set_validated` is
called the credit is three times the bytes received less the payload bytes passed to commit, which
are no more than that; no operation has taken a cap or a floor; the credit is unlimited exactly when
`set_validated` has been called, and stays so. -/
theorem credit_accounting (steps : List ChannelStep) (h : 3 * received steps ≤ sizeMax - 1) :
    let ch := run step .new steps
    (validated steps = false → bytesCommitted ch.commits ≤ 3 * received steps ∧
      ch.credit = 3 * received steps - bytesCommitted ch.commits) ∧
    (∀ op ∈ ch.ops, ¬ op.saturates) ∧
    (ch.credit = sizeMax ↔ validated steps = true) ∧
    (ch.credit = sizeMax → ∀ more, (run step ch more).credit = sizeMax) := by
  have hM : 0 < sizeMax := by decide
  rcases run_books steps h with ⟨hv, hb⟩ | ⟨hv, hu⟩
  · have hbal := hb.balance
    refine ⟨fun _ => ⟨by omega, by omega⟩, hb.ops, ?_, fun hc => by omega⟩
    rw [hv]
    exact ⟨fun hc => by omega, fun hc => by cases hc⟩
  · refine ⟨fun hf => (Bool.false_ne_true (hf.symm.trans hv)).elim, hu.ops,
      ⟨fun _ => hv, fun _ => hu.credit⟩, fun _ more => ?_⟩
    exact (run_invariant Unlimited unlimited_step more hu).credit

/-- A datagram of 1200 bytes comes, and a Handshake packet of 1000 bytes goes. -/
def answered : List ChannelStep :=
  [.handleFrames .initial 1200, .generate (onePacket .handshake 1000)]

/-- The credit after these, and after the end of the handshake. -/
theorem credit_accounting_initial :
    (run step .new answered).credit = 3 * 1200 - 1000 ∧
      (run step .new (answered ++ [.setValidated])).credit = sizeMax := by
  have hsent : bytesCommitted (run step .new answered).commits = 1000 := by decide +kernel
  have hcredit := ((credit_accounting answered (by decide)).1 rfl).2
  rw [hsent] at hcredit
  exact ⟨hcredit, ((credit_accounting (answered ++ [.setValidated]) (by decide)).2.2.1).mpr rfl⟩

end PapQuic.Txp.Accounting
