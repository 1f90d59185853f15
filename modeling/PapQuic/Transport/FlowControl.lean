import PapQuic.Lib.Run
import PapQuic.Transport.SafeMath
import Mathlib.Algebra.BigOperators.Group.List.Basic
import Mathlib.Algebra.GroupWithZero.Nat
import Mathlib.Algebra.Order.Group.Nat
import Mathlib.Data.List.Induction

/-! # Flow control (`quic_fc.c`)

A sender keeps for each stream, and for the connection, how much it has spent (`swm`) and the credit
it was given (`cwm`); the receiver keeps the credit it gave, what it received and what the
application has taken (`rwm`), and gives more as that grows. A stream's controller has the
connection's as its parent.

What the receiver does with a peer that does not keep to the credit is told by `stream_error_iff`
and `conn_limit_unread`: the limit of a stream is enforced, that of the connection is not, as no
caller reads the error of its controller. Two ends that both run this code are in
`FlowAgreement`. -/

namespace PapQuic.Transport.FlowControl

open SafeMath Lib.Run

/-! ### Sending -/

/-- `QUIC_TXFC`, without the link to its parent. -/
structure Txfc where
  swm : ℕ
  cwm : ℕ
  hasBecomeBlocked : Bool
  deriving DecidableEq

/-- `ossl_quic_txfc_init`. -/
def txfcInit : Txfc := ⟨0, 0, false⟩

/-- `ossl_quic_txfc_bump_cwm`. -/
def txfcBumpCwm (txfc : Txfc) (cwm : ℕ) : Txfc × Bool :=
  if cwm ≤ txfc.cwm then (txfc, false) else ({ txfc with cwm := cwm }, true)

/-- `ossl_quic_txfc_get_credit_local`. `none`: the assertion fails. -/
def txfcGetCreditLocal (txfc : Txfc) (consumed : ℕ) : Option ℕ :=
  if txfc.swm + consumed ≤ txfc.cwm then some (txfc.cwm - (consumed + txfc.swm)) else none

/-- `ossl_quic_txfc_get_credit`. -/
def txfcGetCredit (txfc : Txfc) (parent : Option Txfc) (consumed : ℕ) : Option ℕ := do
  let r ← txfcGetCreditLocal txfc 0
  match parent with
  | none => some r
  | some parent => do
    let connR ← txfcGetCreditLocal parent consumed
    some (min connR r)

/-- `ossl_quic_txfc_consume_credit_local`. -/
def txfcConsumeCreditLocal (txfc : Txfc) (numBytes : ℕ) : Option (Txfc × Bool) := do
  let credit ← txfcGetCreditLocal txfc 0
  let n := min numBytes credit
  some (⟨txfc.swm + n, txfc.cwm, txfc.hasBecomeBlocked || (decide (0 < n) && n == credit)⟩,
    decide (numBytes ≤ credit))

/-- `ossl_quic_txfc_consume_credit` of a stream's controller: the controllers afterwards and the
value returned. -/
def txfcConsumeCredit (txfc parent : Txfc) (numBytes : ℕ) : Option (Txfc × Txfc × Bool) := do
  let (txfc', ok) ← txfcConsumeCreditLocal txfc numBytes
  let (parent', parentOk) ← txfcConsumeCreditLocal parent numBytes
  some (txfc', parent', parentOk && ok)

/-! ### Receiving -/

/-- The errors that a controller reports: `OSSL_QUIC_ERR_FLOW_CONTROL_ERROR` and
`OSSL_QUIC_ERR_FINAL_SIZE_ERROR`. -/
inductive FcError where
  | flowControlError
  | finalSizeError
  deriving DecidableEq

/-- `QUIC_RXFC`, without the link to its parent and the clock. -/
structure Rxfc where
  cwm : ℕ
  swm : ℕ
  rwm : ℕ
  esrwm : ℕ
  hwm : ℕ
  curWindowSize : ℕ
  maxWindowSize : ℕ
  epochStart : ℕ
  errorCode : Option FcError
  hasCwmChanged : Bool
  isFin : Bool
  standalone : Bool
  deriving DecidableEq

/-- `ossl_quic_rxfc_init`. -/
def rxfcInit (initialWindowSize maxWindowSize : ℕ) : Rxfc :=
  ⟨initialWindowSize, 0, 0, 0, 0, initialWindowSize, maxWindowSize, 0, none, false, false, false⟩

/-- `rxfc_start_epoch`. -/
def rxfcStartEpoch (rxfc : Rxfc) (now : ℕ) : Rxfc :=
  { rxfc with epochStart := now, esrwm := rxfc.rwm }

/-- `on_rx_controlled_bytes`. -/
def onRxControlledBytes (rxfc : Rxfc) (numBytes : ℕ) : Rxfc :=
  let credit := rxfc.cwm - rxfc.swm
  if numBytes > credit then
    { rxfc with swm := rxfc.swm + credit, errorCode := some .flowControlError }
  else { rxfc with swm := rxfc.swm + numBytes }

/-- `ossl_quic_rxfc_on_rx_stream_frame`: the controllers afterwards and the value returned. -/
def rxfcOnRxStreamFrame (rxfc : Rxfc) (parent : Option Rxfc) (endOffset : ℕ) (isFin : Bool) :
    Rxfc × Option Rxfc × Bool :=
  if !rxfc.standalone && parent.isNone then (rxfc, parent, false)
  else if rxfc.isFin && ((isFin && rxfc.hwm != endOffset) || decide (endOffset > rxfc.hwm)) then
    ({ rxfc with errorCode := some .finalSizeError }, parent, true)
  else
    let rxfc := { rxfc with isFin := rxfc.isFin || isFin }
    if endOffset > rxfc.hwm then
      let delta := endOffset - rxfc.hwm
      (onRxControlledBytes { rxfc with hwm := endOffset } delta,
        parent.map (onRxControlledBytes · delta), true)
    else if endOffset < rxfc.hwm && isFin then
      ({ rxfc with errorCode := some .finalSizeError }, parent, true)
    else (rxfc, parent, true)

/-- `rxfc_cwm_bump_desired`. The difference wraps: more can have been read on a connection than it
gave credit for, as its limit is not enforced. -/
def rxfcCwmBumpDesired (rxfc : Rxfc) : Bool :=
  let windowRem := (rxfc.cwm + 2 ^ 64 - rxfc.rwm) % 2 ^ 64
  let threshold := (safeMuldiv rxfc.curWindowSize 3 4).getD (rxfc.curWindowSize / 2)
  !rxfc.isFin && decide (windowRem ≤ threshold)

/-- What the clock says while bytes are retired: when the first epoch starts, when the time since
the start of the epoch is taken, and when a new epoch starts. -/
structure Reads where
  first : ℕ
  elapsed : ℕ
  epoch : ℕ

/-- `rxfc_should_bump_window_size`. -/
def rxfcShouldBumpWindowSize (rxfc : Rxfc) (now rtt : ℕ) : Bool :=
  let b := rxfc.rwm - rxfc.esrwm
  if b = 0 then false
  else timeMuldiv (timeSubtract now rxfc.epochStart) rxfc.curWindowSize b < timeMultiply rtt 4

/-- `rxfc_adjust_window_size`. -/
def rxfcAdjustWindowSize (rxfc : Rxfc) (minWindowSize : ℕ) (now : Reads) (rtt : ℕ) : Rxfc :=
  let newWindowSize :=
    if rxfcShouldBumpWindowSize rxfc now.elapsed rtt then rxfc.curWindowSize * 2 % 2 ^ 64
    else rxfc.curWindowSize
  rxfcStartEpoch
    { rxfc with curWindowSize := min (max newWindowSize minWindowSize) rxfc.maxWindowSize }
    now.epoch

/-- `rxfc_update_cwm`. -/
def rxfcUpdateCwm (rxfc : Rxfc) (minWindowSize : ℕ) (now : Reads) (rtt : ℕ) : Rxfc :=
  if !rxfcCwmBumpDesired rxfc then rxfc
  else
    let rxfc := rxfcAdjustWindowSize rxfc minWindowSize now rtt
    let newCwm := (rxfc.rwm + rxfc.curWindowSize) % 2 ^ 64
    if newCwm > rxfc.cwm then { rxfc with cwm := newCwm, hasCwmChanged := true } else rxfc

/-- `rxfc_on_retire`. -/
def rxfcOnRetireLocal (rxfc : Rxfc) (numBytes minWindowSize : ℕ) (now : Reads) (rtt : ℕ) : Rxfc :=
  let rxfc := if rxfc.epochStart = 0 then rxfcStartEpoch rxfc now.first else rxfc
  rxfcUpdateCwm { rxfc with rwm := rxfc.rwm + numBytes } minWindowSize now rtt

/-- `ossl_quic_rxfc_on_retire`. Each of the two controllers reads the clock for itself. -/
def rxfcOnRetire (rxfc : Rxfc) (parent : Option Rxfc) (numBytes : ℕ) (now parentNow : Reads)
    (rtt : ℕ) : Rxfc × Option Rxfc × Bool :=
  if parent.isNone && !rxfc.standalone then (rxfc, parent, false)
  else if numBytes = 0 then (rxfc, parent, true)
  else if rxfc.rwm + numBytes > rxfc.swm then (rxfc, parent, false)
  else
    let rxfc := rxfcOnRetireLocal rxfc numBytes 0 now rtt
    (rxfc, if rxfc.standalone then parent
      else parent.map (rxfcOnRetireLocal · numBytes rxfc.curWindowSize parentNow rtt), true)

/-! ### What the operations keep -/

theorem cwm_le_bump (txfc : Txfc) (cwm : ℕ) : txfc.cwm ≤ (txfcBumpCwm txfc cwm).1.cwm := by
  unfold txfcBumpCwm
  split_ifs
  · exact Nat.le_refl _
  · simp only
    omega

theorem bump_cwm_le {txfc : Txfc} {cwm limit : ℕ} (h : txfc.cwm ≤ limit) (hcwm : cwm ≤ limit) :
    (txfcBumpCwm txfc cwm).1.cwm ≤ limit := by
  unfold txfcBumpCwm
  split_ifs
  · exact h
  · exact hcwm

theorem bump_init (cwm : ℕ) : (txfcBumpCwm txfcInit cwm).1 = ⟨0, cwm, false⟩ := by
  unfold txfcBumpCwm txfcInit
  split_ifs with hle
  · rw [Nat.le_zero.mp hle]
  · rfl

@[simp] theorem swm_bump (txfc : Txfc) (cwm : ℕ) : (txfcBumpCwm txfc cwm).1.swm = txfc.swm := by
  unfold txfcBumpCwm
  split_ifs <;> rfl

/-- Credit within what there is can be taken. -/
theorem consumeLocal_spec {txfc : Txfc} {n : ℕ} (h : txfc.swm + n ≤ txfc.cwm) :
    ∃ t, txfcConsumeCreditLocal txfc n = some (t, true) ∧ t.swm = txfc.swm + n ∧
    t.cwm = txfc.cwm := by
  have hcredit : txfcGetCreditLocal txfc 0 = some (txfc.cwm - txfc.swm) := by
    rw [txfcGetCreditLocal, if_pos (by omega), Nat.zero_add]
  have hle : n ≤ txfc.cwm - txfc.swm := by omega
  rw [txfcConsumeCreditLocal, hcredit]
  simp only [Option.bind_eq_bind, Option.bind_some, Nat.min_eq_left hle, decide_eq_true hle]
  exact ⟨_, rfl, rfl, rfl⟩

theorem consume_spec {txfc parent : Txfc} {n : ℕ} (h : txfc.swm + n ≤ txfc.cwm)
    (hparent : parent.swm + n ≤ parent.cwm) :
    ∃ t p, txfcConsumeCredit txfc parent n = some (t, p, true) ∧ t.swm = txfc.swm + n ∧
      t.cwm = txfc.cwm ∧ p.swm = parent.swm + n ∧ p.cwm = parent.cwm := by
  obtain ⟨t, ht, htswm, htcwm⟩ := consumeLocal_spec h
  obtain ⟨q, hq, hqswm, hqcwm⟩ := consumeLocal_spec hparent
  refine ⟨t, q, ?_, htswm, htcwm, hqswm, hqcwm⟩
  rw [txfcConsumeCredit, ht, Option.bind_eq_bind, Option.bind_some]
  simp only [hq, Option.bind_some, Bool.and_self]

/-- The credit of a stream leaves both its own limit and the connection's. -/
theorem getCredit_spec {txfc parent : Txfc} {consumed credit : ℕ}
    (h : txfcGetCredit txfc (some parent) consumed = some credit) :
    txfc.swm + credit ≤ txfc.cwm ∧ parent.swm + consumed + credit ≤ parent.cwm := by
  simp only [txfcGetCredit, Option.bind_eq_bind, Option.bind_eq_some_iff, Option.some.injEq] at h
  obtain ⟨r, hr, c, hc, rfl⟩ := h
  unfold txfcGetCreditLocal at hr hc
  split_ifs at hr hc with h1 h2
  have := Option.some.inj hr
  have := Option.some.inj hc
  omega

theorem getCredit_isSome {txfc parent : Txfc} {consumed : ℕ} (h : txfc.swm ≤ txfc.cwm)
    (hparent : parent.swm + consumed ≤ parent.cwm) :
    ∃ credit, txfcGetCredit txfc (some parent) consumed = some credit := by
  have hlocal : txfcGetCreditLocal txfc 0 = some (txfc.cwm - (0 + txfc.swm)) := if_pos (by omega)
  have hconn : txfcGetCreditLocal parent consumed = some (parent.cwm - (consumed + parent.swm)) :=
    if_pos hparent
  simp [txfcGetCredit, hlocal, hconn]

section
variable {rxfc : Rxfc}

theorem controlledBytes_of_le {n : ℕ} (h : rxfc.swm + n ≤ rxfc.cwm) :
    onRxControlledBytes rxfc n = { rxfc with swm := rxfc.swm + n } := by
  unfold onRxControlledBytes
  exact if_neg (by omega)

theorem controlledBytes_of_lt {n : ℕ} (hle : rxfc.swm ≤ rxfc.cwm) (h : rxfc.cwm < rxfc.swm + n) :
    (onRxControlledBytes rxfc n).errorCode = some .flowControlError := by
  unfold onRxControlledBytes
  simp only
  rw [if_pos (by omega)]

end

/-- What a retirement leaves alone, and that it gives no credit back. -/
structure Retired (before after : Rxfc) : Prop where
  swm : after.swm = before.swm
  hwm : after.hwm = before.hwm
  errorCode : after.errorCode = before.errorCode
  isFin : after.isFin = before.isFin
  standalone : after.standalone = before.standalone
  cwm_le : before.cwm ≤ after.cwm

theorem Retired.refl (rxfc : Rxfc) : Retired rxfc rxfc := ⟨rfl, rfl, rfl, rfl, rfl, Nat.le_refl _⟩

theorem retired_updateCwm (rxfc : Rxfc) (minWindowSize : ℕ) (now : Reads) (rtt : ℕ) :
    Retired rxfc (rxfcUpdateCwm rxfc minWindowSize now rtt) := by
  unfold rxfcUpdateCwm
  split_ifs with hdesired
  · exact .refl rxfc
  · simp only
    split_ifs with hgreater
    · refine ⟨rfl, rfl, rfl, rfl, rfl, ?_⟩
      exact Nat.le_of_lt hgreater
    · exact ⟨rfl, rfl, rfl, rfl, rfl, Nat.le_refl _⟩

theorem retired_onRetireLocal (rxfc : Rxfc) (numBytes minWindowSize : ℕ) (now : Reads) (rtt : ℕ) :
    Retired rxfc (rxfcOnRetireLocal rxfc numBytes minWindowSize now rtt) := by
  unfold rxfcOnRetireLocal
  obtain ⟨h1, h2, h3, h4, h5, h6⟩ := retired_updateCwm
    { (if rxfc.epochStart = 0 then rxfcStartEpoch rxfc now.first else rxfc) with
      rwm := (if rxfc.epochStart = 0 then rxfcStartEpoch rxfc now.first else rxfc).rwm + numBytes }
    minWindowSize now rtt
  split_ifs at * <;> exact ⟨h1, h2, h3, h4, h5, h6⟩

theorem retired_onRetire (rxfc parent : Rxfc) (numBytes : ℕ) (now parentNow : Reads) (rtt : ℕ) :
    ∃ r p ok, rxfcOnRetire rxfc (some parent) numBytes now parentNow rtt = (r, some p, ok) ∧
      Retired rxfc r ∧ Retired parent p := by
  unfold rxfcOnRetire
  simp only [Option.isNone_some, Bool.false_and, Bool.false_eq_true, ↓reduceIte]
  split_ifs with hzero hmore hstandalone
  · exact ⟨_, _, _, rfl, .refl _, .refl _⟩
  · exact ⟨_, _, _, rfl, .refl _, .refl _⟩
  · exact ⟨_, _, _, rfl, retired_onRetireLocal .., .refl _⟩
  · exact ⟨_, _, _, rfl, retired_onRetireLocal .., retired_onRetireLocal ..⟩

/-! ### What a stream's controller accepts -/

/-- A STREAM frame, as far as flow control is concerned. -/
structure Seg where
  endOffset : ℕ
  isFin : Bool
  deriving DecidableEq

/-- What happens to the controller of a stream. -/
inductive Event where
  | frame (seg : Seg)
  | retire (numBytes : ℕ) (now parentNow : Reads) (rtt : ℕ)

/-- The controllers of a stream and of its connection after an event. -/
def onEvent (c : Rxfc × Rxfc) : Event → Rxfc × Rxfc
  | .frame seg =>
    let out := rxfcOnRxStreamFrame c.1 (some c.2) seg.endOffset seg.isFin
    (out.1, out.2.1.getD c.2)
  | .retire numBytes now parentNow rtt =>
    let out := rxfcOnRetire c.1 (some c.2) numBytes now parentNow rtt
    (out.1, out.2.1.getD c.2)

def Event.seg? : Event → Option Seg
  | .frame seg => some seg
  | .retire .. => none

/-- The frames of some events. -/
def segs (events : List Event) : List Seg := events.filterMap Event.seg?

/-- A frame stays within the credit that the stream has been given. -/
def WithinCredit (c : Rxfc × Rxfc) : Event → Prop
  | .frame seg => seg.endOffset ≤ c.1.cwm
  | .retire .. => True

/-- A frame with FIN says where the stream ends: no frame goes further, and all FINs agree. -/
def FinalSizeKept (frames : List Seg) : Prop :=
  ∀ f ∈ frames, f.isFin = true → ∀ g ∈ frames, g.endOffset ≤ f.endOffset

/-- What the controller knows of the frames it has seen, as long as it has found no error. -/
structure Seen (rxfc : Rxfc) (frames : List Seg) : Prop where
  errorCode : rxfc.errorCode = none
  swm : rxfc.swm = rxfc.hwm
  credit : rxfc.hwm ≤ rxfc.cwm
  le_hwm : ∀ f ∈ frames, f.endOffset ≤ rxfc.hwm
  hwm : rxfc.hwm = 0 ∨ ∃ f ∈ frames, f.endOffset = rxfc.hwm
  isFin : rxfc.isFin = true ↔ ∃ f ∈ frames, f.isFin = true
  fin_eq : ∀ f ∈ frames, f.isFin = true → f.endOffset = rxfc.hwm

variable {frames : List Seg}

/-- A frame that neither moves the high water mark nor breaks a rule. -/
theorem Seen.concat_of_le {rxfc : Rxfc} (h : Seen rxfc frames) (seg : Seg)
    (hle : seg.endOffset ≤ rxfc.hwm) (hfin : seg.isFin = true → seg.endOffset = rxfc.hwm) :
    Seen { rxfc with isFin := rxfc.isFin || seg.isFin } (frames ++ [seg]) where
  errorCode := h.errorCode
  swm := h.swm
  credit := h.credit
  le_hwm f hf := by
    rcases List.mem_append.mp hf with hf | hf
    · exact h.le_hwm f hf
    · rw [List.mem_singleton.mp hf]
      exact hle
  hwm := h.hwm.imp_right fun ⟨f, hf, heq⟩ => ⟨f, List.mem_append_left _ hf, heq⟩
  isFin := by
    simp only [Bool.or_eq_true, h.isFin, List.mem_append, List.mem_singleton]
    constructor
    · rintro (⟨f, hf, hf'⟩ | hseg)
      · exact ⟨f, Or.inl hf, hf'⟩
      · exact ⟨seg, Or.inr rfl, hseg⟩
    · rintro ⟨f, hf | rfl, hf'⟩
      · exact Or.inl ⟨f, hf, hf'⟩
      · exact Or.inr hf'
  fin_eq f hf hf' := by
    rcases List.mem_append.mp hf with hf | hf
    · exact h.fin_eq f hf hf'
    · rw [List.mem_singleton.mp hf] at hf' ⊢
      exact hfin hf'

/-- A frame that goes further than those before, within the credit. -/
theorem Seen.concat_of_gt {rxfc : Rxfc} (h : Seen rxfc frames) {seg : Seg}
    (hgt : rxfc.hwm < seg.endOffset) (hcredit : seg.endOffset ≤ rxfc.cwm)
    (hfin : rxfc.isFin = false) :
    Seen { rxfc with isFin := rxfc.isFin || seg.isFin, hwm := seg.endOffset, swm := seg.endOffset }
      (frames ++ [seg]) where
  errorCode := h.errorCode
  swm := rfl
  credit := hcredit
  le_hwm f hf := by
    rcases List.mem_append.mp hf with hf | hf
    · exact (h.le_hwm f hf).trans (Nat.le_of_lt hgt)
    · rw [List.mem_singleton.mp hf]
  hwm := Or.inr ⟨seg, List.mem_append_right _ (List.mem_singleton_self seg), rfl⟩
  isFin := by
    have hnone := h.isFin
    rw [hfin, iff_comm, iff_false_right (by simp)] at hnone
    simp only [hfin, Bool.false_or, List.mem_append, List.mem_singleton]
    constructor
    · exact fun hseg => ⟨seg, Or.inr rfl, hseg⟩
    · rintro ⟨f, hf | rfl, hf'⟩
      · exact absurd ⟨f, hf, hf'⟩ hnone
      · exact hf'
  fin_eq f hf hf' := by
    rcases List.mem_append.mp hf with hf | hf
    · exact absurd (h.isFin.mpr ⟨f, hf, hf'⟩) (by simp [hfin])
    · rw [List.mem_singleton.mp hf]

/-- One frame: the controller finds an error exactly if the frame exceeds the credit or does not
agree with what was seen of the stream's end. -/
theorem frame_spec {rxfc : Rxfc} (parent : Rxfc) (h : Seen rxfc frames) (seg : Seg) {out : Rxfc}
    (hout : (rxfcOnRxStreamFrame rxfc (some parent) seg.endOffset seg.isFin).1 = out) :
    (out.errorCode = none ↔ seg.endOffset ≤ rxfc.cwm ∧
      (rxfc.isFin = true → seg.endOffset ≤ rxfc.hwm) ∧
      (seg.isFin = true → rxfc.hwm ≤ seg.endOffset)) ∧
    (out.errorCode = none → Seen out (frames ++ [seg])) := by
  have hswm := h.swm
  have hcredit := h.credit
  simp only [rxfcOnRxStreamFrame, Option.isNone_some, Bool.and_false, Bool.false_eq_true,
    ↓reduceIte, Bool.and_eq_true, Bool.or_eq_true, bne_iff_ne, ne_eq, decide_eq_true_eq] at hout
  split_ifs at hout with hbad hgt hlt
  · -- the stream has an end, and the frame does not agree with it
    subst hout
    refine ⟨iff_of_false (by simp) fun hok => ?_, by simp⟩
    obtain ⟨hfin, ⟨hseg, hne⟩ | hgt⟩ := hbad
    · have := hok.2.1 hfin
      have := hok.2.2 hseg
      omega
    · have := hok.2.1 hfin
      omega
  · have hfin : rxfc.isFin = false := by
      by_contra hfin
      exact hbad ⟨by simpa using hfin, Or.inr hgt⟩
    rcases Nat.lt_or_ge rxfc.cwm seg.endOffset with hover | hok
    · have herr : out.errorCode = some .flowControlError := by
        rw [← hout]
        refine controlledBytes_of_lt ?_ ?_
        · simp only
          omega
        · simp only
          omega
      rw [herr]
      refine ⟨iff_of_false (by simp) fun hok => ?_, by simp⟩
      omega
    · rw [controlledBytes_of_le (by simp only; omega)] at hout
      have hend : rxfc.swm + (seg.endOffset - rxfc.hwm) = seg.endOffset := by omega
      simp only [hend] at hout
      subst hout
      have hseen := h.concat_of_gt hgt hok hfin
      refine ⟨iff_of_true hseen.errorCode ⟨hok, by simp [hfin], fun _ => Nat.le_of_lt hgt⟩,
        fun _ => hseen⟩
  · -- a FIN before the end of what was seen
    subst hout
    refine ⟨iff_of_false (by simp) fun hok => ?_, by simp⟩
    have := hok.2.2 hlt.2
    omega
  · subst hout
    have hseen := h.concat_of_le seg (by omega) fun hseg => by
      by_contra hne
      exact hlt ⟨by omega, hseg⟩
    refine ⟨iff_of_true hseen.errorCode ⟨by omega, fun _ => by omega, fun hseg => ?_⟩,
      fun _ => hseen⟩
    by_contra hne
    exact hlt ⟨by omega, hseg⟩

theorem Seen.retired {before after : Rxfc} (h : Seen before frames) (hr : Retired before after) :
    Seen after frames where
  errorCode := hr.errorCode.trans h.errorCode
  swm := by rw [hr.swm, hr.hwm, h.swm]
  credit := by
    rw [hr.hwm]
    exact h.credit.trans hr.cwm_le
  le_hwm := by
    rw [hr.hwm]
    exact h.le_hwm
  hwm := by
    rw [hr.hwm]
    exact h.hwm
  isFin := by
    rw [hr.isFin]
    exact h.isFin
  fin_eq := by
    rw [hr.hwm]
    exact h.fin_eq

/-- An error stays. -/
theorem errorCode_onEvent {c : Rxfc × Rxfc} (event : Event) (h : c.1.errorCode ≠ none) :
    (onEvent c event).1.errorCode ≠ none := by
  cases event with
  | frame seg =>
    simp only [onEvent, rxfcOnRxStreamFrame]
    split_ifs
    · exact h
    · simp
    · unfold onRxControlledBytes
      simp only
      split_ifs
      · simp
      · exact h
    · simp
    · exact h
  | retire numBytes now parentNow rtt =>
    obtain ⟨r, p, ok, heq, hr, -⟩ := retired_onRetire c.1 c.2 numBytes now parentNow rtt
    simp only [onEvent, heq]
    rwa [hr.errorCode]

theorem finalSizeKept_concat {rxfc : Rxfc} (h : Seen rxfc frames) (hkept : FinalSizeKept frames)
    (seg : Seg) :
    FinalSizeKept (frames ++ [seg]) ↔ (rxfc.isFin = true → seg.endOffset ≤ rxfc.hwm) ∧
      (seg.isFin = true → rxfc.hwm ≤ seg.endOffset) := by
  constructor
  · intro hall
    constructor
    · intro hfin
      obtain ⟨f, hf, hf'⟩ := h.isFin.mp hfin
      rw [← h.fin_eq f hf hf']
      exact hall f (List.mem_append_left _ hf) hf' seg
        (List.mem_append_right _ (List.mem_singleton_self seg))
    · intro hseg
      rcases h.hwm with h0 | ⟨f, hf, heq⟩
      · omega
      · rw [← heq]
        exact hall seg (List.mem_append_right _ (List.mem_singleton_self seg)) hseg f
          (List.mem_append_left _ hf)
  · rintro ⟨h1, h2⟩ f hf hfin g hg
    rcases List.mem_append.mp hf with hf | hf <;> rcases List.mem_append.mp hg with hg | hg
    · exact hkept f hf hfin g hg
    · rw [List.mem_singleton.mp hg, h.fin_eq f hf hfin]
      exact h1 (h.isFin.mpr ⟨f, hf, hfin⟩)
    · rw [List.mem_singleton.mp hf] at hfin ⊢
      exact (h.le_hwm g hg).trans (h2 hfin)
    · rw [List.mem_singleton.mp hf, List.mem_singleton.mp hg]

/-- The events of a run one after the other: as long as there is no error the controller knows what
it has seen. -/
theorem run_seen (initialWindowSize maxWindowSize : ℕ) (conn : Rxfc) (events : List Event) :
    ((run onEvent (rxfcInit initialWindowSize maxWindowSize, conn) events).1.errorCode = none ↔
      AllMeet onEvent WithinCredit (rxfcInit initialWindowSize maxWindowSize, conn) events ∧
        FinalSizeKept (segs events)) ∧
    ((run onEvent (rxfcInit initialWindowSize maxWindowSize, conn) events).1.errorCode = none →
      Seen (run onEvent (rxfcInit initialWindowSize maxWindowSize, conn) events).1
        (segs events)) := by
  induction events using List.reverseRecOn with
  | nil =>
    have hseen : Seen (rxfcInit initialWindowSize maxWindowSize) [] :=
      ⟨rfl, rfl, Nat.zero_le _, by simp, Or.inl rfl, by simp [rxfcInit], by simp⟩
    exact ⟨iff_of_true rfl ⟨trivial, by simp [FinalSizeKept, segs]⟩, fun _ => hseen⟩
  | append_singleton events event ih =>
    obtain ⟨hiff, hseen⟩ := ih
    rw [run_append, allMeet_append, run_cons, run_nil]
    generalize run onEvent (rxfcInit initialWindowSize maxWindowSize, conn) events = c
      at hiff hseen ⊢
    have hsub : FinalSizeKept (segs (events ++ [event])) → FinalSizeKept (segs events) := by
      intro hkept f hf hfin g hg
      have hmem : ∀ x ∈ segs events, x ∈ segs (events ++ [event]) := fun x hx => by
        rw [segs, List.filterMap_append]
        exact List.mem_append_left _ hx
      exact hkept f (hmem f hf) hfin g (hmem g hg)
    by_cases herr : c.1.errorCode = none
    · obtain ⟨hall, hkept⟩ := hiff.mp herr
      have hseen := hseen herr
      cases event with
      | frame seg =>
        have hsegs : segs (events ++ [.frame seg]) = segs events ++ [seg] := by
          simp [segs, Event.seg?]
        have hspec := frame_spec c.2 hseen seg rfl
        rw [hsegs, finalSizeKept_concat hseen hkept]
        refine ⟨?_, hspec.2⟩
        rw [show (onEvent c (.frame seg)).1 =
          (rxfcOnRxStreamFrame c.1 (some c.2) seg.endOffset seg.isFin).1 from rfl, hspec.1]
        simp only [hall, true_and, AllMeet, WithinCredit, and_true]
      | retire numBytes now parentNow rtt =>
        have hsegs : segs (events ++ [.retire numBytes now parentNow rtt]) = segs events := by
          simp [segs, Event.seg?]
        obtain ⟨r, p, ok, heq, hr, -⟩ := retired_onRetire c.1 c.2 numBytes now parentNow rtt
        have hfst : (onEvent c (.retire numBytes now parentNow rtt)).1 = r := by
          simp only [onEvent, heq]
        rw [hsegs, hfst]
        have hseen' := hseen.retired hr
        exact ⟨iff_of_true hseen'.errorCode ⟨⟨hall, trivial, trivial⟩, hkept⟩, fun _ => hseen'⟩
    · have herr' := errorCode_onEvent event herr
      refine ⟨iff_of_false herr' ?_, fun h => absurd h herr'⟩
      rintro ⟨⟨hall, -⟩, hkept⟩
      exact herr (hiff.mpr ⟨hall, hsub hkept⟩)

/-- **A stream's controller finds an error exactly when the peer breaks a rule**: over every run of
frames and retirements, whatever the connection's controller, a frame goes beyond the credit that
the stream had at the time, or the frames do not agree on where the stream ends. -/
theorem stream_error_iff (initialWindowSize maxWindowSize : ℕ) (conn : Rxfc) (events : List Event) :
    (run onEvent (rxfcInit initialWindowSize maxWindowSize, conn) events).1.errorCode = none ↔
      AllMeet onEvent WithinCredit (rxfcInit initialWindowSize maxWindowSize, conn) events ∧
        FinalSizeKept (segs events) :=
  (run_seen initialWindowSize maxWindowSize conn events).1

/-! ### The limit of the connection -/

/-- What `depack_do_frame_stream` makes of the answer of the controllers: it closes the connection,
or it goes on with the frame. -/
inductive Verdict where
  | internalError
  | flowControlViolation (error : FcError)
  | proceed
  deriving DecidableEq

/-- The flow control checks of `depack_do_frame_stream`: the controllers of the stream and of the
connection afterwards, and how it goes on. -/
def depackFlowControl (rxfc conn : Rxfc) (seg : Seg) : Rxfc × Rxfc × Verdict :=
  let out := rxfcOnRxStreamFrame rxfc (some conn) seg.endOffset seg.isFin
  (out.1, out.2.1.getD conn,
    if !out.2.2 then .internalError
    else match out.1.errorCode with
      | some fce => .flowControlViolation fce
      | none => .proceed)

/-- The first frames of several streams that have not received anything yet, one stream after the
other: the connection's controller afterwards, and what becomes of the frames. -/
def depackFirstFrames : Rxfc → List (Rxfc × Seg) → Rxfc × List Verdict
  | conn, [] => (conn, [])
  | conn, (rxfc, seg) :: rest =>
    let out := depackFlowControl rxfc conn seg
    let more := depackFirstFrames out.2.1 rest
    (more.1, out.2.2 :: more.2)

theorem depackFlowControl_fresh {initialWindowSize : ℕ} (maxWindowSize : ℕ) (conn : Rxfc)
    {seg : Seg} (hpos : 0 < seg.endOffset) (hle : seg.endOffset ≤ initialWindowSize) :
    (depackFlowControl (rxfcInit initialWindowSize maxWindowSize) conn seg).2 =
      (onRxControlledBytes conn seg.endOffset, .proceed) := by
  have hstream : onRxControlledBytes { rxfcInit initialWindowSize maxWindowSize with
      hwm := seg.endOffset, isFin := seg.isFin } seg.endOffset =
      { rxfcInit initialWindowSize maxWindowSize with
        hwm := seg.endOffset, isFin := seg.isFin, swm := seg.endOffset } := by
    rw [controlledBytes_of_le (by simp only [rxfcInit]; omega)]
    simp [rxfcInit]
  simp only [depackFlowControl, rxfcOnRxStreamFrame, rxfcInit, Option.isNone_some, Bool.and_false,
    Bool.false_eq_true, ↓reduceIte, Bool.false_and, Bool.false_or, gt_iff_lt, hpos, Nat.sub_zero,
    Option.map_some, Option.getD_some] at hstream ⊢
  rw [hstream]
  rfl

theorem controlledBytes_swm_le {rxfc : Rxfc} (n : ℕ) (h : rxfc.swm ≤ rxfc.cwm) :
    (onRxControlledBytes rxfc n).swm ≤ (onRxControlledBytes rxfc n).cwm := by
  unfold onRxControlledBytes
  simp only
  split_ifs
  · simp only
    omega
  · simp only
    omega

/-- Once the connection's controller has found an error, or will find one in what is to come, it has
found it in the end. -/
theorem depackFirstFrames_spec :
    ∀ {frames : List (ℕ × ℕ × Seg)} {conn : Rxfc}, conn.swm ≤ conn.cwm →
    (∀ f ∈ frames, 0 < f.2.2.endOffset ∧ f.2.2.endOffset ≤ f.1) →
    (∀ v ∈ (depackFirstFrames conn (frames.map fun f => (rxfcInit f.1 f.2.1, f.2.2))).2,
      v = .proceed) ∧
    (conn.errorCode = some .flowControlError ∨
        conn.cwm < conn.swm + (frames.map fun f => f.2.2.endOffset).sum →
      (depackFirstFrames conn (frames.map fun f => (rxfcInit f.1 f.2.1, f.2.2))).1.errorCode =
        some .flowControlError)
  | [], conn, hconn, _ => by
    refine ⟨by simp [depackFirstFrames], fun h => h.elim id fun hlt => ?_⟩
    simp only [List.map_nil, List.sum_nil] at hlt
    omega
  | f :: frames, conn, hconn, hframes => by
    obtain ⟨hpos, hle⟩ := hframes f List.mem_cons_self
    obtain ⟨hproceed, herror⟩ := depackFirstFrames_spec
      (controlledBytes_swm_le f.2.2.endOffset hconn)
      fun g hg => hframes g (List.mem_cons_of_mem f hg)
    simp only [List.map_cons, depackFirstFrames,
      depackFlowControl_fresh f.2.1 conn hpos hle]
    refine ⟨fun v hv => ?_, fun h => herror ?_⟩
    · rcases List.mem_cons.mp hv with rfl | hv
      · rfl
      · exact hproceed v hv
    · rcases Nat.lt_or_ge conn.cwm (conn.swm + f.2.2.endOffset) with hover | hok
      · exact Or.inl (controlledBytes_of_lt hconn hover)
      · rw [controlledBytes_of_le hok]
        refine h.imp_right fun hlt => ?_
        rw [List.sum_cons] at hlt
        simp only
        omega

/-- **No caller reads the error of the connection's controller**: frames on fresh streams, each
within the window of its own stream, are all let through, whatever the connection's limit is. The
connection's controller notes the violation, as soon as together they exceed it. -/
theorem conn_limit_unread (conn : Rxfc) (hconn : conn.swm ≤ conn.cwm)
    (frames : List (ℕ × ℕ × Seg))
    (hframes : ∀ f ∈ frames, 0 < f.2.2.endOffset ∧ f.2.2.endOffset ≤ f.1) :
    (∀ v ∈ (depackFirstFrames conn (frames.map fun f => (rxfcInit f.1 f.2.1, f.2.2))).2,
      v = .proceed) ∧
    (conn.cwm < conn.swm + (frames.map fun f => f.2.2.endOffset).sum →
      (depackFirstFrames conn (frames.map fun f => (rxfcInit f.1 f.2.1, f.2.2))).1.errorCode =
        some .flowControlError) := by
  obtain ⟨hproceed, herror⟩ := depackFirstFrames_spec hconn hframes
  exact ⟨hproceed, fun h => herror (Or.inr h)⟩

/-- Two streams of eight bytes each on a connection that allows ten. -/
theorem conn_limit_unread_two :
    (depackFirstFrames (rxfcInit 10 10)
      ([(8, 8, ⟨8, false⟩), (8, 8, ⟨8, false⟩)].map fun f =>
        (rxfcInit f.1 f.2.1, f.2.2))).1.errorCode =
      some .flowControlError :=
  (conn_limit_unread (rxfcInit 10 10) (by decide) [(8, 8, ⟨8, false⟩), (8, 8, ⟨8, false⟩)]
    (by decide)).2 (by decide)

end PapQuic.Transport.FlowControl
