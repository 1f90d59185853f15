import PapQuic.Txp.StreamFrames
import Mathlib.Algebra.BigOperators.Group.Finset.Basic
import Mathlib.Algebra.Order.BigOperators.Group.Finset

/-! # Flow control: the two ends of a connection

The sender's end has its controllers `txConn` and `tx i`, the receiver's `rxConn` and `rx i`, for
the streams `i` of a connection. Packets carry STREAM frames of several streams; the packetiser
plans them one stream after the other and takes the credit only when the packet is committed. The
receiver sends MAX_DATA and MAX_STREAM_DATA. What was sent stays on the network for good: it can be
delivered at any time, several times, or never.

In every run the sender's assertions hold, it stays within the credit, and no controller of the
receiver, neither a stream's nor the connection's, finds an error (`no_flow_control_error`). That
the packetiser's own frames stay within the credit is `planBursts_generate`. -/

namespace PapQuic.Transport.FlowAgreement

open FlowControl Lib.Run
open Wire.Packet (Bytes)
open Txp.StreamFrames (Args Gen Sent Setup Room generateStreamFrames generate_spec)

section
variable {ι : Type} [DecidableEq ι]

/-- The frames of one stream in a packet. -/
structure Burst (ι : Type) where
  stream : ι
  frames : List Seg

/-- The most that a stream has sent after a burst: `fc_new_hwm`. -/
def newHwm (txfc : Txfc) (frames : List Seg) : ℕ :=
  (frames.map Seg.endOffset).foldl max txfc.swm

/-- How the planning of a packet ends. -/
inductive Plan (ι : Type) where
  /-- A stream would go beyond its credit. The packetiser makes no such packet. -/
  | refused
  /-- The assertion in `ossl_quic_txfc_get_credit` fails. -/
  | failed
  /-- The credit that each stream takes. -/
  | planned (taken : List (ι × ℕ))

/-- The streams of a packet one after the other: a stream has the credit that those before it leave,
and its frames stay within it. -/
def planBursts (conn : Txfc) (tx : ι → Txfc) : ℕ → List (Burst ι) → Plan ι
  | _, [] => .planned []
  | consumed, b :: bursts =>
    match txfcGetCredit (tx b.stream) (some conn) consumed with
    | none => .failed
    | some credit =>
      if b.frames.all fun seg => seg.endOffset ≤ (tx b.stream).swm + credit then
        let n := newHwm (tx b.stream) b.frames - (tx b.stream).swm
        match planBursts conn tx (consumed + n) bursts with
        | .planned rest => .planned ((b.stream, n) :: rest)
        | plan => plan
      else .refused

/-- The credit is taken when the packet is committed. `none`: an assertion fails. -/
def commitBursts : Txfc → (ι → Txfc) → List (ι × ℕ) → Option (Txfc × (ι → Txfc))
  | conn, tx, [] => some (conn, tx)
  | conn, tx, (i, n) :: rest =>
    if n > 0 then
      match txfcConsumeCredit (tx i) conn n with
      | some (txfc, conn, true) => commitBursts conn (Function.update tx i txfc) rest
      | _ => none
    else commitBursts conn tx rest

/-- The two ends, and what was put on the network. -/
structure Ends (ι : Type) where
  txConn : Txfc
  tx : ι → Txfc
  rxConn : Rxfc
  rx : ι → Rxfc
  segs : List (ι × Seg)
  maxData : List ℕ
  maxStreamData : List (ι × ℕ)
  assertionFailed : Bool

/-- What can happen. -/
inductive Action (ι : Type) where
  /-- A packet is sent, with frames of these streams. -/
  | send (bursts : List (Burst ι))
  /-- A STREAM frame that was sent at some time arrives. -/
  | receive (k : ℕ)
  /-- The application takes bytes from a stream. -/
  | retire (i : ι) (numBytes : ℕ) (now connNow : Reads) (rtt : ℕ)
  /-- The receiver sends MAX_DATA, or MAX_STREAM_DATA. -/
  | grantConn
  | grant (i : ι)
  /-- A MAX_DATA or MAX_STREAM_DATA frame that was sent at some time arrives. -/
  | bumpConn (k : ℕ)
  | bump (k : ℕ)

/-- What an action does. -/
def act (s : Ends ι) : Action ι → Ends ι
  | .send bursts =>
    match planBursts s.txConn s.tx 0 bursts with
    | .refused => s
    | .failed => { s with assertionFailed := true }
    | .planned plan =>
      match commitBursts s.txConn s.tx plan with
      | none => { s with assertionFailed := true }
      | some (conn, tx) => { s with
          txConn := conn
          tx := tx
          segs := s.segs ++ bursts.flatMap fun b => b.frames.map (b.stream, ·) }
  | .receive k =>
    match s.segs[k]? with
    | none => s
    | some (i, seg) =>
      let out := rxfcOnRxStreamFrame (s.rx i) (some s.rxConn) seg.endOffset seg.isFin
      { s with rx := Function.update s.rx i out.1, rxConn := out.2.1.getD s.rxConn }
  | .retire i numBytes now connNow rtt =>
    let out := rxfcOnRetire (s.rx i) (some s.rxConn) numBytes now connNow rtt
    { s with rx := Function.update s.rx i out.1, rxConn := out.2.1.getD s.rxConn }
  | .grantConn => { s with maxData := s.maxData ++ [s.rxConn.cwm] }
  | .grant i => { s with maxStreamData := s.maxStreamData ++ [(i, (s.rx i).cwm)] }
  | .bumpConn k =>
    match s.maxData[k]? with
    | none => s
    | some cwm => { s with txConn := (txfcBumpCwm s.txConn cwm).1 }
  | .bump k =>
    match s.maxStreamData[k]? with
    | none => s
    | some (i, cwm) => { s with tx := Function.update s.tx i (txfcBumpCwm (s.tx i) cwm).1 }

/-! ### All streams -/

/-- What holds for a new value and for all old ones. -/
theorem forall_update {α : Type} (f : ι → α) {i : ι} {t : α} (p : ι → α → Prop) (hi : p i t)
    (hall : ∀ j, p j (f j)) : ∀ j, p j (Function.update f i t j) :=
  (Function.forall_update_iff f p).mpr ⟨hi, fun j _ => hall j⟩

variable [Fintype ι]

/-- A sum in which one term is exchanged. -/
theorem sum_update {α : Type} (f : ι → α) (g : α → ℕ) (i : ι) (t : α) :
    ∑ j, g (Function.update f i t j) + g (f i) = ∑ j, g (f j) + g t := by
  rw [← Finset.add_sum_erase _ _ (Finset.mem_univ i),
    ← Finset.add_sum_erase _ _ (Finset.mem_univ i)]
  have hrest : ∑ j ∈ Finset.univ.erase i, g (Function.update f i t j) =
      ∑ j ∈ Finset.univ.erase i, g (f j) := by
    refine Finset.sum_congr rfl fun j hj => ?_
    rw [Function.update_of_ne (Finset.ne_of_mem_erase hj)]
  rw [hrest, Function.update_self]
  omega

/-! ### The frames of a stream -/

theorem swm_le_newHwm (txfc : Txfc) (frames : List Seg) : txfc.swm ≤ newHwm txfc frames := by
  unfold newHwm
  generalize txfc.swm = m
  induction frames generalizing m with
  | nil => exact Nat.le_refl m
  | cons seg frames ih =>
    rw [List.map_cons, List.foldl_cons]
    exact (Nat.le_max_left m seg.endOffset).trans (ih _)

theorem le_newHwm (txfc : Txfc) {frames : List Seg} {seg : Seg} (h : seg ∈ frames) :
    seg.endOffset ≤ newHwm txfc frames := by
  unfold newHwm
  generalize txfc.swm = m
  induction frames generalizing m with
  | nil => simp at h
  | cons f frames ih =>
    rw [List.map_cons, List.foldl_cons]
    rcases List.mem_cons.mp h with rfl | h
    · exact (Nat.le_max_right m seg.endOffset).trans
        (swm_le_newHwm ⟨max m seg.endOffset, 0, false⟩ frames)
    · exact ih h _

theorem newHwm_le {txfc : Txfc} {frames : List Seg} {limit : ℕ} (hswm : txfc.swm ≤ limit)
    (h : ∀ seg ∈ frames, seg.endOffset ≤ limit) : newHwm txfc frames ≤ limit := by
  unfold newHwm
  generalize txfc.swm = m at hswm
  induction frames generalizing m with
  | nil => exact hswm
  | cons f frames ih =>
    rw [List.map_cons, List.foldl_cons]
    exact ih (fun seg hseg => h seg (List.mem_cons_of_mem f hseg)) _
      (Nat.max_le.mpr ⟨hswm, h f List.mem_cons_self⟩)

/-! ### What the packetiser makes -/

/-- A STREAM frame, as far as flow control is concerned. -/
def segOf (s : Sent) : Seg := ⟨s.shdr.offset + s.shdr.len, s.shdr.isFin⟩

theorem newHwm_eq {txfc : Txfc} {frames : List Seg} {hwm : ℕ} (hge : txfc.swm ≤ hwm)
    (hle : ∀ seg ∈ frames, seg.endOffset ≤ hwm)
    (hfrom : hwm = txfc.swm ∨ ∃ seg ∈ frames, seg.endOffset = hwm) : newHwm txfc frames = hwm := by
  refine Nat.le_antisymm (newHwm_le hge hle) ?_
  rcases hfrom with heq | ⟨seg, hseg, heq⟩
  · rw [heq]
    exact swm_le_newHwm txfc frames
  · rw [← heq]
    exact le_newHwm txfc hseg

omit [DecidableEq ι] [Fintype ι] in
/-- **The frames that `txp_generate_stream_frames` makes for a stream are never refused**, and the
credit planned for them is the one that it reports. The end of a stream goes alone only when all
bytes before it were sent. -/
theorem planBursts_generate {a : Args} {data : Bytes} {limit : ℕ} (hs : Setup a data limit)
    {st st' : Gen} (hroom : Room st.h) (hgen : generateStreamFrames a st = some st') (tx : ι → Txfc)
    {i : ι} (hi : tx i = a.txfc) (bursts : List (Burst ι)) :
    ∃ frames, st'.frames = st.frames ++ frames ∧
      ((∀ s ∈ frames, s.shdr.len = 0 → s.shdr.offset ≤ a.txfc.swm) →
        planBursts a.conn tx a.connConsumed (⟨i, frames.map segOf⟩ :: bursts) =
          match planBursts a.conn tx (a.connConsumed + (st'.fcNewHwm - a.txfc.swm)) bursts with
          | .planned rest => .planned ((i, st'.fcNewHwm - a.txfc.swm) :: rest)
          | plan => plan) := by
  obtain ⟨frames, hframes, -, hall, -, -, -, -, hge, hle, hfrom, -⟩ :=
    generate_spec a data limit hs st st' hroom hgen
  refine ⟨frames, hframes, fun hend => ?_⟩
  obtain ⟨credit, hcredit, hlimit⟩ := Option.map_eq_some_iff.mp hs.credit
  have hwithin : ∀ seg ∈ frames.map segOf, seg.endOffset ≤ st'.fcNewHwm := by
    intro seg hseg
    obtain ⟨s, hsmem, rfl⟩ := List.mem_map.mp hseg
    simp only [segOf]
    rcases Nat.eq_zero_or_pos s.shdr.len with hzero | hpos
    · have := hend s hsmem hzero
      omega
    · have := (hall s hsmem).2.2 hpos
      omega
  have hhwm : newHwm a.txfc (frames.map segOf) = st'.fcNewHwm := by
    refine newHwm_eq hge hwithin (hfrom.imp_right ?_)
    rintro ⟨s, hsmem, heq⟩
    exact ⟨segOf s, List.mem_map_of_mem hsmem, heq⟩
  have hguard : (frames.map segOf).all (fun seg => seg.endOffset ≤ a.txfc.swm + credit) = true := by
    simp only [List.all_eq_true, decide_eq_true_eq]
    intro seg hseg
    have := hwithin seg hseg
    omega
  rw [planBursts]
  simp only [hi, hcredit, hguard, hhwm, if_true]

/-! ### A packet -/

/-- What a packet takes. -/
def total (plan : List (ι × ℕ)) : ℕ := (plan.map Prod.snd).sum

omit [DecidableEq ι] [Fintype ι] in
@[simp] theorem total_cons (p : ι × ℕ) (plan : List (ι × ℕ)) :
    total (p :: plan) = p.2 + total plan := by
  simp [total]

omit [DecidableEq ι] [Fintype ι] in
/-- **A plan stays within all limits**: each stream takes what its own credit allows, and together
they take what the connection's allows; and while no limit is exceeded no assertion fails. -/
theorem planBursts_spec {conn : Txfc} {tx : ι → Txfc} (htx : ∀ i, (tx i).swm ≤ (tx i).cwm) :
    ∀ (bursts : List (Burst ι)) {consumed : ℕ}, conn.swm + consumed ≤ conn.cwm →
    planBursts conn tx consumed bursts = .refused ∨
      ∃ plan, planBursts conn tx consumed bursts = .planned plan ∧
        plan.map Prod.fst = bursts.map Burst.stream ∧
        (∀ p ∈ plan, (tx p.1).swm + p.2 ≤ (tx p.1).cwm) ∧
        conn.swm + consumed + total plan ≤ conn.cwm ∧
        ∀ b ∈ bursts, ∃ p ∈ plan, p.1 = b.stream ∧
          ∀ seg ∈ b.frames, seg.endOffset ≤ (tx p.1).swm + p.2
  | [], consumed, hle => .inr ⟨[], rfl, rfl, by simp, by simpa [total] using hle, by simp⟩
  | b :: bursts, consumed, hle => by
    obtain ⟨credit, hcredit⟩ := getCredit_isSome (htx b.stream) hle
    obtain ⟨hown, hconn⟩ := getCredit_spec hcredit
    simp only [planBursts, hcredit]
    split_ifs with hall
    swap
    · exact .inl rfl
    have hframes : ∀ seg ∈ b.frames, seg.endOffset ≤ (tx b.stream).swm + credit := by
      simpa using hall
    have hnew := newHwm_le (Nat.le_add_right _ _) hframes
    have hswm := swm_le_newHwm (tx b.stream) b.frames
    obtain ⟨n, hn⟩ : ∃ n, newHwm (tx b.stream) b.frames - (tx b.stream).swm = n := ⟨_, rfl⟩
    rw [hn]
    have hleft : conn.swm + (consumed + n) ≤ conn.cwm := by omega
    rcases planBursts_spec htx bursts hleft with hrefused | ⟨rest, hrest, h1, h2, h3, h4⟩
    · rw [hrefused]
      exact .inl rfl
    rw [hrest]
    refine .inr ⟨_, rfl, by rw [List.map_cons, List.map_cons, h1], ?_, ?_, ?_⟩
    · intro p hp
      rcases List.mem_cons.mp hp with rfl | hp
      · simp only
        omega
      · exact h2 p hp
    · rw [total_cons]
      simp only
      omega
    · intro b' hb'
      rcases List.mem_cons.mp hb' with rfl | hb'
      · refine ⟨(b'.stream, n), List.mem_cons_self, rfl, fun seg hseg => ?_⟩
        have := le_newHwm (tx b'.stream) hseg
        simp only
        omega
      · obtain ⟨p, hp, hrest⟩ := h4 b' hb'
        exact ⟨p, List.mem_cons_of_mem _ hp, hrest⟩

/-- What a commit leaves. -/
structure Committed (conn : Txfc) (tx : ι → Txfc) (plan : List (ι × ℕ)) (conn' : Txfc)
    (tx' : ι → Txfc) : Prop where
  conn_swm : conn'.swm = conn.swm + total plan
  conn_cwm : conn'.cwm = conn.cwm
  cwm : ∀ i, (tx' i).cwm = (tx i).cwm
  swm_le : ∀ i, (tx i).swm ≤ (tx' i).swm
  le_cwm : (∀ i, (tx i).swm ≤ (tx i).cwm) → ∀ i, (tx' i).swm ≤ (tx' i).cwm
  taken : ∀ p ∈ plan, (tx' p.1).swm = (tx p.1).swm + p.2
  untaken : ∀ i, (∀ p ∈ plan, p.1 ≠ i) → tx' i = tx i
  sum : ∑ i, (tx' i).swm = ∑ i, (tx i).swm + total plan

omit [Fintype ι] in
/-- One stream of a commit. -/
theorem commitBursts_cons (conn : Txfc) {tx : ι → Txfc} {i : ι} {n : ℕ} (plan : List (ι × ℕ))
    (hi : (tx i).swm + n ≤ (tx i).cwm) (hconn : conn.swm + n ≤ conn.cwm) :
    ∃ t c, commitBursts conn tx ((i, n) :: plan) = commitBursts c (Function.update tx i t) plan ∧
      t.swm = (tx i).swm + n ∧ t.cwm = (tx i).cwm ∧ c.swm = conn.swm + n ∧ c.cwm = conn.cwm := by
  rw [commitBursts]
  rcases Nat.eq_zero_or_pos n with rfl | hpos
  · refine ⟨tx i, conn, ?_, rfl, rfl, rfl, rfl⟩
    rw [if_neg (Nat.lt_irrefl 0), Function.update_eq_self]
  · obtain ⟨t, c, hconsume, h⟩ := consume_spec hi hconn
    refine ⟨t, c, ?_, h⟩
    rw [if_pos hpos, hconsume]

/-- **The commit finds the credit of the plan**, though it takes it stream by stream after the whole
packet was planned. -/
theorem commitBursts_spec : ∀ {plan : List (ι × ℕ)} (conn : Txfc) (tx : ι → Txfc),
    (plan.map Prod.fst).Nodup → (∀ p ∈ plan, (tx p.1).swm + p.2 ≤ (tx p.1).cwm) →
    conn.swm + total plan ≤ conn.cwm →
    ∃ conn' tx', commitBursts conn tx plan = some (conn', tx') ∧ Committed conn tx plan conn' tx'
  | [], conn, tx, _, _, _ =>
    ⟨conn, tx, rfl, ⟨rfl, rfl, fun _ => rfl, fun _ => Nat.le_refl _, fun h => h, by simp,
      fun _ _ => rfl, rfl⟩⟩
  | (i, n) :: plan, conn, tx, hnodup, hplan, hconn => by
    rw [List.map_cons, List.nodup_cons] at hnodup
    rw [total_cons] at hconn
    simp only at hconn
    have hi : (tx i).swm + n ≤ (tx i).cwm := hplan (i, n) List.mem_cons_self
    have hne : ∀ p ∈ plan, p.1 ≠ i := by
      intro p hp heq
      exact hnodup.1 (List.mem_map.mpr ⟨p, hp, heq⟩)
    obtain ⟨t, c, hcons, htswm, htcwm, hcswm, hccwm⟩ := commitBursts_cons conn plan hi (by omega)
    obtain ⟨conn', tx', hcommit, hc⟩ := commitBursts_spec c (Function.update tx i t)
      hnodup.2
      (fun p hp => by
        rw [Function.update_of_ne (hne p hp)]
        exact hplan p (List.mem_cons_of_mem _ hp))
      (by omega)
    have hsum := sum_update tx Txfc.swm i t
    refine ⟨conn', tx', hcons.trans hcommit, ?_, ?_, ?_, ?_, ?_, ?_, ?_, ?_⟩
    · rw [hc.conn_swm, total_cons]
      simp only
      omega
    · rw [hc.conn_cwm, hccwm]
    · intro j
      rw [hc.cwm]
      exact forall_update tx (fun j q => q.cwm = (tx j).cwm) htcwm (fun _ => rfl) j
    · intro j
      refine Nat.le_trans ?_ (hc.swm_le j)
      exact forall_update tx (fun j q => (tx j).swm ≤ q.swm) (by omega) (fun _ => Nat.le_refl _) j
    · intro hall
      exact hc.le_cwm (forall_update tx (fun _ q => q.swm ≤ q.cwm) (by omega) hall)
    · intro p hp
      rcases List.mem_cons.mp hp with rfl | hp
      · -- no later entry is for this stream
        have hlater : (tx' i).swm = (Function.update tx i t i).swm := by
          rw [hc.untaken i hne]
        simp only
        rw [hlater, Function.update_self, htswm]
      · rw [hc.taken p hp, Function.update_of_ne (hne p hp)]
    · intro j hj
      rw [hc.untaken j fun p hp => hj p (List.mem_cons_of_mem _ hp),
        Function.update_of_ne (hj (i, n) List.mem_cons_self).symm]
    · rw [hc.sum, total_cons]
      simp only
      omega

/-! ### The invariant -/

/-- What holds of the two ends, for streams that end at `final`. -/
structure Inv (final : ι → ℕ) (s : Ends ι) : Prop where
  asserted : s.assertionFailed = false
  tx_le : ∀ i, (s.tx i).swm ≤ (s.tx i).cwm
  granted : ∀ i, (s.tx i).cwm ≤ (s.rx i).cwm
  conn_le : s.txConn.swm ≤ s.txConn.cwm
  conn_granted : s.txConn.cwm ≤ s.rxConn.cwm
  tx_sum : s.txConn.swm = ∑ i, (s.tx i).swm
  rx_sum : s.rxConn.swm = ∑ i, (s.rx i).hwm
  received_le : ∀ i, (s.rx i).hwm ≤ (s.tx i).swm
  rx_swm : ∀ i, (s.rx i).swm = (s.rx i).hwm
  rx_ok : ∀ i, (s.rx i).errorCode = none
  conn_ok : s.rxConn.errorCode = none
  rx_final : ∀ i, (s.rx i).hwm ≤ final i ∧ ((s.rx i).isFin = true → (s.rx i).hwm = final i)
  sent : ∀ p ∈ s.segs, p.2.endOffset ≤ (s.tx p.1).swm ∧ p.2.endOffset ≤ final p.1 ∧
    (p.2.isFin = true → p.2.endOffset = final p.1)
  max_data : ∀ v ∈ s.maxData, v ≤ s.rxConn.cwm
  max_stream_data : ∀ p ∈ s.maxStreamData, p.2 ≤ (s.rx p.1).cwm

/-- What the sender's streams keep to: a packet has the frames of a stream in one place, and they
agree on where the stream ends. -/
def Sends (final : ι → ℕ) (_ : Ends ι) : Action ι → Prop
  | .send bursts => (bursts.map Burst.stream).Nodup ∧ ∀ b ∈ bursts, ∀ seg ∈ b.frames,
      seg.endOffset ≤ final b.stream ∧ (seg.isFin = true → seg.endOffset = final b.stream)
  | _ => True

section
variable {final : ι → ℕ} {s : Ends ι}

theorem Inv.send (h : Inv final s) {bursts : List (Burst ι)}
    (hsends : Sends final s (.send bursts)) : Inv final (act s (.send bursts)) := by
  rw [act]
  have hle : s.txConn.swm + 0 ≤ s.txConn.cwm := h.conn_le
  rcases planBursts_spec h.tx_le bursts hle with
    hrefused | ⟨plan, hplan, hstreams, hown, hconn, hframes⟩
  · rw [hrefused]
    exact h
  · simp only [hplan]
    obtain ⟨conn', tx', hcommit, hc⟩ := commitBursts_spec _ _ (hstreams ▸ hsends.1) hown
      (by rw [Nat.add_zero] at hconn; exact hconn)
    rw [hcommit]
    simp only
    exact { h with
      tx_le := hc.le_cwm h.tx_le
      granted := fun i => by
        simp only [hc.cwm]
        exact h.granted i
      conn_le := by
        simp only [hc.conn_swm, hc.conn_cwm]
        omega
      conn_granted := by
        simp only [hc.conn_cwm]
        exact h.conn_granted
      tx_sum := by
        simp only [hc.conn_swm, hc.sum, h.tx_sum]
      received_le := fun i => (h.received_le i).trans (hc.swm_le i)
      sent := fun p hp => by
        rcases List.mem_append.mp hp with hp | hp
        · obtain ⟨h1, h2⟩ := h.sent p hp
          exact ⟨h1.trans (hc.swm_le p.1), h2⟩
        · obtain ⟨b, hb, hp⟩ := List.mem_flatMap.mp hp
          obtain ⟨seg, hseg, rfl⟩ := List.mem_map.mp hp
          obtain ⟨q, hq, hqb, hle⟩ := hframes b hb
          refine ⟨?_, hsends.2 b hb seg hseg⟩
          have := hle seg hseg
          rw [← hc.taken q hq, hqb] at this
          exact this }

/-- The receiver's controllers after more has arrived on a stream, or more credit was given. -/
theorem Inv.rx_update (h : Inv final s) (i : ι) {r c : Rxfc} (hcwm : (s.rx i).cwm ≤ r.cwm)
    (hhwm : (s.rx i).hwm ≤ r.hwm) (hsent : r.hwm ≤ (s.tx i).swm) (hswm : r.swm = r.hwm)
    (hok : r.errorCode = none) (hfinal : r.hwm ≤ final i) (hfin : r.isFin = true → r.hwm = final i)
    (hcswm : c.swm = s.rxConn.swm + (r.hwm - (s.rx i).hwm)) (hccwm : s.rxConn.cwm ≤ c.cwm)
    (hcok : c.errorCode = none) :
    Inv final { s with rx := Function.update s.rx i r, rxConn := c } := by
  have hmono : ∀ j, (s.rx j).cwm ≤ (Function.update s.rx i r j).cwm :=
    forall_update s.rx (fun j q => (s.rx j).cwm ≤ q.cwm) hcwm fun _ => Nat.le_refl _
  exact { h with
    granted := fun j => (h.granted j).trans (hmono j)
    conn_granted := h.conn_granted.trans hccwm
    rx_sum := by
      have hsum := sum_update s.rx Rxfc.hwm i r
      have := h.rx_sum
      simp only
      omega
    received_le := forall_update s.rx (fun j q => q.hwm ≤ (s.tx j).swm) hsent h.received_le
    rx_swm := forall_update s.rx (fun _ q => q.swm = q.hwm) hswm h.rx_swm
    rx_ok := forall_update s.rx (fun _ q => q.errorCode = none) hok h.rx_ok
    conn_ok := hcok
    rx_final := forall_update s.rx (fun j q => q.hwm ≤ final j ∧ (q.isFin = true → q.hwm = final j))
      ⟨hfinal, hfin⟩ h.rx_final
    max_data := fun v hv => (h.max_data v hv).trans hccwm
    max_stream_data := fun p hp => (h.max_stream_data p hp).trans (hmono p.1) }

/-- What is received of all streams together is no more than what was sent, and so within the
connection's credit. -/
theorem Inv.conn_room (h : Inv final s) {i : ι} {e : ℕ} (he : e ≤ (s.tx i).swm) :
    s.rxConn.swm + (e - (s.rx i).hwm) ≤ s.rxConn.cwm := by
  have hsum := sum_update (fun j => (s.rx j).hwm) id i (max (s.rx i).hwm e)
  have hle : ∑ j, id (Function.update (fun j => (s.rx j).hwm) i (max (s.rx i).hwm e) j) ≤
      ∑ j, (s.tx j).swm := by
    refine Finset.sum_le_sum fun j _ => ?_
    exact forall_update _ (fun j n => n ≤ (s.tx j).swm) (Nat.max_le.mpr ⟨h.received_le i, he⟩)
      h.received_le j
  have := h.tx_sum
  have := h.rx_sum
  have := h.conn_le
  have := h.conn_granted
  simp only [id] at hsum hle
  omega

/-- A frame that was sent is within all limits when it arrives. -/
theorem Inv.receive (h : Inv final s) (k : ℕ) : Inv final (act s (.receive k)) := by
  rw [act]
  split
  · exact h
  · rename_i i seg hseg
    obtain ⟨hsent, hfinal, hfin⟩ := h.sent (i, seg) (List.mem_of_getElem? hseg)
    simp only at hsent hfinal hfin
    obtain ⟨hrxle, hrxfin⟩ := h.rx_final i
    have hswm := h.rx_swm i
    have hok := h.rx_ok i
    have hrcv := h.received_le i
    have hcwm : (s.tx i).swm ≤ (s.rx i).cwm := (h.tx_le i).trans (h.granted i)
    have hroom := h.conn_room hsent
    have hfinOr : ((s.rx i).isFin || seg.isFin) = true →
        max (s.rx i).hwm seg.endOffset = final i := by
      rw [Bool.or_eq_true]
      rintro (hf | hf)
      · have := hrxfin hf
        omega
      · have := hfin hf
        omega
    simp only [rxfcOnRxStreamFrame, Option.isNone_some, Bool.and_false, Bool.false_eq_true,
      ↓reduceIte, Bool.and_eq_true, Bool.or_eq_true, bne_iff_ne, ne_eq, decide_eq_true_eq]
    split_ifs with hbad hgt hlt
    · -- the sender's frames agree on the end of the stream
      exfalso
      obtain ⟨hf, ⟨hs, hne⟩ | hgt⟩ := hbad
      · have := hrxfin hf
        have := hfin hs
        omega
      · have := hrxfin hf
        omega
    · rw [controlledBytes_of_le (by simp only; omega), Option.map_some,
        controlledBytes_of_le (by omega), Option.getD_some]
      refine h.rx_update i (Nat.le_refl _) (Nat.le_of_lt hgt) hsent (by simp only; omega) hok hfinal
        ?_ rfl (Nat.le_refl _) h.conn_ok
      rw [Nat.max_eq_right (Nat.le_of_lt hgt)] at hfinOr
      exact hfinOr
    · exfalso
      have := hfin hlt.2
      omega
    · rw [Nat.max_eq_left (by omega)] at hfinOr
      refine h.rx_update i (Nat.le_refl _) (Nat.le_refl _) hrcv hswm hok hrxle hfinOr ?_
        (Nat.le_refl _) h.conn_ok
      simp

theorem Inv.retire (h : Inv final s) (i : ι) (numBytes : ℕ) (now connNow : Reads) (rtt : ℕ) :
    Inv final (act s (.retire i numBytes now connNow rtt)) := by
  obtain ⟨r, c, ok, heq, hr, hc⟩ := retired_onRetire (s.rx i) s.rxConn numBytes now connNow rtt
  obtain ⟨hrxle, hrxfin⟩ := h.rx_final i
  simp only [act, heq, Option.getD_some]
  refine h.rx_update i hr.cwm_le (Nat.le_of_eq hr.hwm.symm) ?_ ?_ ?_ ?_ ?_ ?_ hc.cwm_le ?_
  · rw [hr.hwm]
    exact h.received_le i
  · rw [hr.swm, hr.hwm, h.rx_swm]
  · rw [hr.errorCode, h.rx_ok]
  · rw [hr.hwm]
    exact hrxle
  · rw [hr.isFin, hr.hwm]
    exact hrxfin
  · rw [hc.swm, hr.hwm, Nat.sub_self, Nat.add_zero]
  · rw [hc.errorCode, h.conn_ok]

theorem Inv.bump (h : Inv final s) (k : ℕ) : Inv final (act s (.bump k)) := by
  rw [act]
  split
  · exact h
  · rename_i i cwm hk
    have hcwm := h.max_stream_data (i, cwm) (List.mem_of_getElem? hk)
    simp only at hcwm
    have hswm : ∀ j, (Function.update s.tx i (txfcBumpCwm (s.tx i) cwm).1 j).swm =
        (s.tx j).swm :=
      forall_update s.tx (fun j q => q.swm = (s.tx j).swm) (swm_bump _ _) fun _ => rfl
    exact { h with
      tx_le := by
        refine forall_update s.tx (fun _ q => q.swm ≤ q.cwm) ?_ h.tx_le
        rw [swm_bump]
        exact (h.tx_le i).trans (cwm_le_bump _ _)
      granted := forall_update s.tx (fun j q => q.cwm ≤ (s.rx j).cwm)
        (bump_cwm_le (h.granted i) hcwm) h.granted
      tx_sum := by
        simp only [hswm]
        exact h.tx_sum
      received_le := fun j => by
        simp only [hswm]
        exact h.received_le j
      sent := fun p hp => by
        simp only [hswm]
        exact h.sent p hp }

/-- **Every action keeps the invariant.** -/
theorem Inv.act (h : Inv final s) {a : Action ι} (ha : Sends final s a) :
    Inv final (act s a) := by
  cases a with
  | send bursts => exact h.send ha
  | receive k => exact h.receive k
  | retire i numBytes now connNow rtt => exact h.retire i numBytes now connNow rtt
  | grantConn =>
    exact { h with
      max_data := fun v hv => (List.mem_append.mp hv).elim (h.max_data v) fun hv =>
        Nat.le_of_eq (List.mem_singleton.mp hv) }
  | grant i =>
    exact { h with
      max_stream_data := fun p hp => (List.mem_append.mp hp).elim (h.max_stream_data p) fun hp => by
        rw [List.mem_singleton.mp hp]
        exact Nat.le_refl _ }
  | bumpConn k =>
    rw [FlowAgreement.act]
    split
    · exact h
    · rename_i cwm hk
      exact { h with
        conn_le := by
          simp only [swm_bump]
          exact h.conn_le.trans (cwm_le_bump _ _)
        conn_granted := bump_cwm_le h.conn_granted (h.max_data cwm (List.mem_of_getElem? hk))
        tx_sum := by
          simp only [swm_bump]
          exact h.tx_sum }
  | bump k => exact h.bump k

end

/-- The ends before anything is sent: the windows that the receiver announced in its transport
parameters. -/
def Ends.initial (connWindow : ℕ) (window maxWindow : ι → ℕ) (connMaxWindow : ℕ) : Ends ι where
  txConn := (txfcBumpCwm txfcInit connWindow).1
  tx i := (txfcBumpCwm txfcInit (window i)).1
  rxConn := rxfcInit connWindow connMaxWindow
  rx i := rxfcInit (window i) (maxWindow i)
  segs := []
  maxData := []
  maxStreamData := []
  assertionFailed := false

omit [DecidableEq ι] in
theorem inv_initial (final : ι → ℕ) (connWindow : ℕ) (window maxWindow : ι → ℕ)
    (connMaxWindow : ℕ) : Inv final (Ends.initial connWindow window maxWindow connMaxWindow) := by
  simp only [Ends.initial, bump_init]
  refine ⟨rfl, fun _ => Nat.zero_le _, fun _ => Nat.le_refl _, Nat.zero_le _, Nat.le_refl _, ?_, ?_,
    fun _ => Nat.le_refl _, fun _ => rfl, fun _ => rfl, rfl, fun _ =>
      ⟨Nat.zero_le _, ?_⟩, ?_, ?_, ?_⟩
  all_goals simp [rxfcInit]

/-- **Two ends of this code never run into a flow control error**: whatever the network loses,
repeats or reorders, and however the applications write and read, the sender stays within the credit
of every stream and of the connection, its assertions hold, and no controller of the receiver finds
an error. -/
theorem no_flow_control_error (final : ι → ℕ) (connWindow : ℕ) (window maxWindow : ι → ℕ)
    (connMaxWindow : ℕ) (actions : List (Action ι))
    (hsends : AllMeet act (Sends final)
      (Ends.initial connWindow window maxWindow connMaxWindow) actions) :
    let s := run act (Ends.initial connWindow window maxWindow connMaxWindow) actions
    s.assertionFailed = false ∧ (∀ i, (s.tx i).swm ≤ (s.tx i).cwm ∧ (s.tx i).cwm ≤ (s.rx i).cwm) ∧
      s.txConn.swm ≤ s.txConn.cwm ∧ s.txConn.cwm ≤ s.rxConn.cwm ∧
      (∀ i, (s.rx i).errorCode = none) ∧ s.rxConn.errorCode = none := by
  have h : Inv final (run act (Ends.initial connWindow window maxWindow connMaxWindow) actions) :=
    hsends.invariant (fun _ _ hinv hmeets => hinv.act hmeets)
      (inv_initial final connWindow window maxWindow connMaxWindow)
  exact ⟨h.asserted, fun i => ⟨h.tx_le i, h.granted i⟩, h.conn_le, h.conn_granted,
    h.rx_ok, h.conn_ok⟩

/-- Two streams in one packet, which use up the credit of the connection; the packet arrives
twice. -/
def twice : List (Action (Fin 2)) :=
  [.send [⟨0, [⟨8, true⟩]⟩, ⟨1, [⟨2, false⟩]⟩], .receive 0, .receive 1, .receive 0, .receive 1]

theorem no_flow_control_error_twice :
    (run act (Ends.initial 10 (fun _ => 8) (fun _ => 8) 10) twice).segs =
        [(0, ⟨8, true⟩), (1, ⟨2, false⟩)] ∧
      (run act (Ends.initial 10 (fun _ => 8) (fun _ => 8) 10) twice).assertionFailed = false ∧
      (run act (Ends.initial 10 (fun _ => 8) (fun _ => 8) 10) twice).rxConn.errorCode = none := by
  have h := no_flow_control_error (fun _ => 8) 10 (fun _ => 8) (fun _ => 8) 10 twice
    (by simp [twice, AllMeet, Sends])
  exact ⟨by decide, h.1, h.2.2.2.2.2⟩

end

end PapQuic.Transport.FlowAgreement
