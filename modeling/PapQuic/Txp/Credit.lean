import PapQuic.Wire.Packet

/-! # The unvalidated credit

The counter `unvalidated_credit` of the packetiser (`ssl/quic/quic_txp.c`): the bytes a server may
still send to a peer whose address is not validated. `SIZE_MAX` stands for no limit. Sums and
products are those of `size_t`. -/

namespace PapQuic.Txp.Credit

open Wire.Packet

/-- `ossl_quic_tx_packetiser_set_validated`. -/
def setValidated (_credit : ℕ) : ℕ := sizeMax

/-- The credit three times the bytes, as a `size_t`. -/
def creditDelta (bytes : ℕ) : ℕ := bytes * 3 % 2 ^ 64

/-- `ossl_quic_tx_packetiser_add_unvalidated_credit`. -/
def addUnvalidatedCredit (credit bytes : ℕ) : ℕ :=
  if credit ≠ sizeMax then
    if sizeMax - credit > creditDelta bytes then credit + creditDelta bytes else sizeMax - 1
  else credit

/-- `ossl_quic_tx_packetiser_consume_unvalidated_credit`. -/
def consumeUnvalidatedCredit (credit bytes : ℕ) : ℕ :=
  if credit ≠ sizeMax then if credit < bytes then 0 else credit - bytes else credit

/-- `ossl_quic_tx_packetiser_check_unvalidated_credit`. -/
def checkUnvalidatedCredit (credit reqCredit : ℕ) : Bool := credit = sizeMax ∨ credit ≥ reqCredit

/-- An operation on the credit, with the credit before it. -/
inductive CreditOp
  | setValidated (before : ℕ)
  | add (before bytes : ℕ)
  | consume (before bytes : ℕ)
  deriving DecidableEq, Repr

/-- The operation takes the cap branch of `add` or the floor branch of `consume`. -/
def CreditOp.saturates : CreditOp → Prop
  | .setValidated _ => False
  | .add before bytes => before ≠ sizeMax ∧ ¬ sizeMax - before > creditDelta bytes
  | .consume before bytes => before ≠ sizeMax ∧ before < bytes

theorem creditDelta_eq {bytes : ℕ} (h : 3 * bytes < 2 ^ 64) : creditDelta bytes = 3 * bytes := by
  rw [creditDelta, Nat.mul_comm, Nat.mod_eq_of_lt h]

/-- Below the cap three times the bytes are added. -/
theorem addUnvalidatedCredit_eq {credit bytes : ℕ} (h : credit + 3 * bytes ≤ sizeMax - 1) :
    addUnvalidatedCredit credit bytes = credit + 3 * bytes ∧
    ¬ (CreditOp.add credit bytes).saturates := by
  have hd : creditDelta bytes = 3 * bytes := creditDelta_eq (by unfold sizeMax at h; omega)
  have hlt : sizeMax - credit > creditDelta bytes := by rw [hd]; unfold sizeMax at h ⊢; omega
  have hne : credit ≠ sizeMax := by unfold sizeMax at h ⊢; omega
  refine ⟨?_, fun hs => hs.2 hlt⟩
  rw [addUnvalidatedCredit, if_pos hne, if_pos hlt, hd]

/-- A consumer that was checked takes what it asks for. -/
theorem consumeUnvalidatedCredit_eq {credit bytes : ℕ} (hne : credit ≠ sizeMax)
    (h : checkUnvalidatedCredit credit bytes = true) :
    consumeUnvalidatedCredit credit bytes = credit - bytes ∧ bytes ≤ credit ∧
      ¬ (CreditOp.consume credit bytes).saturates := by
  have hle : bytes ≤ credit := by simpa [checkUnvalidatedCredit, hne] using h
  refine ⟨?_, hle, fun hs => absurd hs.2 (by omega)⟩
  rw [consumeUnvalidatedCredit, if_pos hne, if_neg (by omega)]

@[simp] theorem addUnvalidatedCredit_unlimited (bytes : ℕ) :
    addUnvalidatedCredit sizeMax bytes = sizeMax := by
  simp [addUnvalidatedCredit]

@[simp] theorem consumeUnvalidatedCredit_unlimited (bytes : ℕ) :
    consumeUnvalidatedCredit sizeMax bytes = sizeMax := by
  simp [consumeUnvalidatedCredit]

theorem not_saturates_unlimited_add (bytes : ℕ) : ¬ (CreditOp.add sizeMax bytes).saturates :=
  fun h => h.1 rfl

theorem not_saturates_unlimited_consume (bytes : ℕ) :
    ¬ (CreditOp.consume sizeMax bytes).saturates :=
  fun h => h.1 rfl

end PapQuic.Txp.Credit
