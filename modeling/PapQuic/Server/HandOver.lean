import PapQuic.Server.Retry

/-! # Handing over the first packets

`port_default_packet_handler` of `ssl/quic/quic_port.c` once more, this time with the memory it
uses. The first Initial packet is decrypted by a temporary record layer. Either this becomes the
record layer of the new channel, or the channel gets one of its own and the packets are moved over,
and the temporary one is freed.

Two branches forget the temporary record layer: one for ports that do not validate addresses, one
for invalid tokens. When both are taken, the second overwrites the alias `qrx_src` with a null
pointer, and the packets are read through it. In all other cases the packets end up in the channel,
once (`handedOver_iff`). A channel is made exactly when the model of `Server/Retry` adds one
(`newCh_iff_addChannel`). -/

namespace PapQuic.Server.HandOver

open Wire.Packet Server.Token Server.Retry
open PapQuic.Txp.Generate (quicMinInitialDgramLen)

/-! ### The memory -/

/-- The record layers: the temporary one, and the one a channel makes for itself. -/
inductive Qrx
  | temporary
  | own
  deriving DecidableEq, Repr

variable {α : Type*}

/-- The variables of the handler and the record layers they point to. -/
structure Memory (α : Type*) where
  qrx : Option Qrx
  qrxSrc : Option Qrx
  /-- The packets a record layer has decrypted. -/
  rxPending : Qrx → List α
  /-- The largest packet number of each space. -/
  largestPn : Qrx → Fin 3 → ℕ
  /-- The calls of `ossl_qrx_free`, but for those with a null pointer. -/
  freed : List Qrx
  /-- The record layer of `new_ch`. -/
  newCh : Option Qrx

/-- A function that may dereference a null pointer; the memory is then as it was before. -/
abbrev Exec (α : Type*) := Except (Memory α) (Memory α)

/-- `ossl_qrx_free`. -/
def qrxFree (qrx : Option Qrx) (m : Memory α) : Memory α :=
  { m with freed := m.freed ++ qrx.toList }

/-- `qrx_src = qrx; qrx = NULL;` -/
def forgetQrx (m : Memory α) : Memory α := { m with qrxSrc := m.qrx, qrx := none }

/-- What functions come to that `Datagram` does not tell. -/
structure Faults where
  /-- There is a channel of a test server. -/
  tserverCh : Bool
  /-- `ossl_qrx_new`. -/
  qrxNew : Bool
  /-- A channel that cannot be made fails in `ossl_quic_channel_init`, which cleans up. -/
  channelInit : Bool

/-- The part of `port_bind_channel` after the channel was made, with `ch->qrx`. -/
def bindMade (e : Datagram) (chQrx : Qrx) (m : Memory α) : Memory α :=
  if m.qrx = none ∧ e.channelSecret = false then m
  else if e.bind then { m with newCh := some chQrx }
  else qrxFree (some chQrx) m

/-- `port_bind_channel`. The callbacks of a test server's channel are set through `qrx`. -/
def portBindChannel (e : Datagram) (f : Faults) (m : Memory α) : Exec α :=
  if f.tserverCh then
    match m.qrx with
    | none => .error m
    | some qrx => .ok (bindMade e qrx m)
  else if e.makeChannel then .ok (bindMade e (m.qrx.getD .own) m)
  else if f.channelInit then .ok (qrxFree (m.qrx.getD .own) m)
  else .ok m

/-- `ossl_qrx_read_pkt` and `ossl_quic_channel_inject_pkt`, for a packet at the head. -/
def movePkt (src dst : Qrx) (pkt : α) (m : Memory α) : Memory α :=
  let pending := Function.update m.rxPending src (m.rxPending src).tail
  { m with rxPending := Function.update pending dst (pending dst ++ [pkt]) }

/-- The loop over the packets of another record layer. -/
def movePkts (src dst : Qrx) : List α → Memory α → Memory α
  | [], m => m
  | pkt :: pkts, m => movePkts src dst pkts (movePkt src dst pkt m)

/-- `ossl_qrx_update_pn_space`. -/
def updatePnSpace (src dst : Qrx) (m : Memory α) : Memory α :=
  { m with largestPn := Function.update m.largestPn dst (m.largestPn src) }

/-- What is done with the record layers when there is a channel. -/
def salvage (chQrx : Qrx) (m : Memory α) : Exec α :=
  match m.qrx with
  | some _ => .ok { m with qrx := none }
  | none =>
    match m.qrxSrc with
    | none => .error m
    | some src => .ok (updatePnSpace src chQrx (movePkts src chQrx (m.rxPending src) m))

/-- The label `undesirable`. -/
def undesirable (m : Memory α) : Memory α := qrxFree m.qrxSrc (qrxFree m.qrx m)

/-- From `port_bind_channel` on. -/
def bindAndSalvage (e : Datagram) (f : Faults) (m : Memory α) : Exec α :=
  match portBindChannel e f m with
  | .error m => .error m
  | .ok m =>
    match m.newCh with
    | none => .ok (undesirable m)
    | some chQrx => (salvage chQrx m).map undesirable

/-- The handler, once the Initial packet has been validated. -/
def onInitial (port : Port) (e : Datagram) (f : Faults) (hdr : PktHdr) (m : Memory α) : Exec α :=
  let m := if port.validateAddr = false then forgetQrx m else m
  if port.validateAddr && hdr.token.isNone then .ok (undesirable m)
  else
    match hdr.token, tokenOf port e hdr with
    | some _, none =>
      if port.validateAddr then .ok (undesirable m) else bindAndSalvage e f (forgetQrx m)
    | _, _ => bindAndSalvage e f m

/-- The memory when the temporary record layer has decrypted the packets. -/
def decrypted (pkts : List α) (largestPn : Qrx → Fin 3 → ℕ) : Memory α where
  qrx := some .temporary
  qrxSrc := none
  rxPending := fun
    | .temporary => pkts
    | .own => []
  largestPn := largestPn
  freed := []
  newCh := none

/-- The memory when there is no record layer yet. -/
def untouched (largestPn : Qrx → Fin 3 → ℕ) : Memory α :=
  { decrypted [] largestPn with qrx := none }

/-- `port_default_packet_handler`. -/
def portDefaultPacketHandler (port : Port) (e : Datagram) (f : Faults) (pkts : List α)
    (largestPn : Qrx → Fin 3 → ℕ) : Exec α :=
  if e.running = false ∨ e.statelessReset then .ok (undesirable (untouched largestPn))
  else if e.known then .ok (untouched largestPn)
  else if port.allowIncoming = false then .ok (undesirable (untouched largestPn))
  else if e.dataLen < quicMinInitialDgramLen ∨ e.dataLen > sizeMax / 2 then
    .ok (undesirable (untouched largestPn))
  else
    match e.decoded with
    | .failed | .badVersion => .ok (undesirable (untouched largestPn))
    | .hdr hdr =>
      if hdr.version ≠ 1 ∨ hdr.isInitial = false then .ok (undesirable (untouched largestPn))
      else if e.qrx = false then
        .ok (undesirable (if f.qrxNew then decrypted [] largestPn else untouched largestPn))
      else if e.valid = false then .ok (undesirable (decrypted [] largestPn))
      else onInitial port e f hdr (decrypted pkts largestPn)

/-! ### What is asked for -/

/-- **The packets are handed over, once**: either the temporary record layer is that of the channel,
or the alias refers to it, its packets have been moved to the channel and it has been freed once. -/
def HandedOver (pkts : List α) (m : Memory α) : Prop :=
  ∀ chQrx, m.newCh = some chQrx → m.rxPending chQrx = pkts ∧
    (chQrx = .temporary ∧ m.freed = [] ∨
      chQrx = .own ∧ m.qrxSrc = some .temporary ∧ m.rxPending .temporary = [] ∧
        m.freed = [.temporary])

/-- When a channel is made, the packets are handed over and no null pointer is dereferenced. -/
def Safe (pkts : List α) : Exec α → Prop
  | .ok m => HandedOver pkts m
  | .error m => m.newCh = none

/-! ### Moving packets -/

section Move

variable {src dst : Qrx} {m : Memory α}

theorem movePkts_fields (src dst : Qrx) (pkts : List α) (m : Memory α) :
    (movePkts src dst pkts m).qrx = m.qrx ∧ (movePkts src dst pkts m).qrxSrc = m.qrxSrc ∧
      (movePkts src dst pkts m).freed = m.freed ∧ (movePkts src dst pkts m).newCh = m.newCh := by
  induction pkts generalizing m with
  | nil => exact ⟨rfl, rfl, rfl, rfl⟩
  | cons pkt pkts ih => exact ih (movePkt src dst pkt m)

/-- **The loop moves the packets** from one record layer to the end of another one. -/
theorem rxPending_movePkts (hne : src ≠ dst) (pkts : List α) (m : Memory α) :
    (movePkts src dst pkts m).rxPending dst = m.rxPending dst ++ pkts ∧
      (movePkts src dst pkts m).rxPending src = (m.rxPending src).drop pkts.length := by
  induction pkts generalizing m with
  | nil => simp [movePkts]
  | cons pkt pkts ih =>
    obtain ⟨hdst, hsrc⟩ := ih (movePkt src dst pkt m)
    rw [movePkts, hdst, hsrc]
    simp [movePkt, Function.update_of_ne hne, Function.update_of_ne hne.symm, List.drop_tail]

end Move

/-! ### The cases of the handler -/

section Cases

variable {port : Port} {e : Datagram} {f : Faults} {hdr : PktHdr} {pkts : List α}
  {largestPn : Qrx → Fin 3 → ℕ}

theorem handedOver_of_newCh_none {m : Memory α} (h : m.newCh = none) : HandedOver pkts m := by
  intro chQrx hch
  rw [h] at hch
  cases hch

/-- All of this has to hold for a channel that makes its own record layer. -/
def makesOwn (e : Datagram) (f : Faults) : Bool :=
  !f.tserverCh && e.makeChannel && e.channelSecret && e.bind

/-- `port_bind_channel` with a record layer: it becomes that of the channel. -/
theorem portBindChannel_some {m : Memory α} {qrx : Qrx} (hq : m.qrx = some qrx)
    (hn : m.newCh = none) : ∃ m', portBindChannel e f m = .ok m' ∧
      (m'.newCh = none ∨ m' = { m with newCh := some qrx }) := by
  have hmade : (bindMade e qrx m).newCh = none ∨
      bindMade e qrx m = { m with newCh := some qrx } := by
    unfold bindMade
    split_ifs with h1 h2
    · exact .inl hn
    · exact .inr rfl
    · exact .inl hn
  unfold portBindChannel
  rw [hq] at hmade ⊢
  split_ifs
  · exact ⟨_, rfl, hmade⟩
  · exact ⟨_, rfl, hmade⟩
  · exact ⟨_, rfl, .inl hn⟩
  · exact ⟨_, rfl, .inl hn⟩

/-- `port_bind_channel` without a record layer: the channel makes its own. -/
theorem portBindChannel_none {m : Memory α} (hq : m.qrx = none) (hn : m.newCh = none) :
    if makesOwn e f then portBindChannel e f m = .ok { m with newCh := some .own }
    else (∃ m', portBindChannel e f m = .ok m' ∧ m'.newCh = none) ∨
      portBindChannel e f m = .error m := by
  unfold portBindChannel bindMade makesOwn
  rw [hq]
  cases f.tserverCh <;> cases e.makeChannel <;> cases e.channelSecret <;> cases e.bind <;>
    cases f.channelInit <;> simp [hn, qrxFree]

/-- **The temporary record layer becomes that of the channel.** -/
theorem safe_bind_temporary : Safe pkts (bindAndSalvage e f (decrypted pkts largestPn)) := by
  obtain ⟨m, hm, hn | rfl⟩ := @portBindChannel_some α e f (decrypted pkts largestPn)
    .temporary rfl rfl
  · rw [bindAndSalvage, hm]
    simp only [hn]
    exact handedOver_of_newCh_none hn
  · rw [bindAndSalvage, hm]
    intro chQrx hch
    cases hch
    exact ⟨rfl, .inl ⟨rfl, rfl⟩⟩

/-- **The channel makes its own record layer**, and the alias refers to the temporary one. -/
theorem safe_bind_forgotten :
    Safe pkts (bindAndSalvage e f (forgetQrx (decrypted pkts largestPn))) := by
  have hbind := @portBindChannel_none α e f (forgetQrx (decrypted pkts largestPn)) rfl rfl
  split_ifs at hbind with hown
  · let made : Memory α := { forgetQrx (decrypted pkts largestPn) with newCh := some .own }
    have hres : bindAndSalvage e f (forgetQrx (decrypted pkts largestPn)) =
        .ok (undesirable (updatePnSpace .temporary .own (movePkts .temporary .own pkts made))) := by
      rw [bindAndSalvage, hbind]
      rfl
    obtain ⟨hq, hs, hf, hnew⟩ := movePkts_fields .temporary .own pkts made
    obtain ⟨hdst, hsrc⟩ := rxPending_movePkts (by decide : Qrx.temporary ≠ .own) pkts made
    rw [hres]
    intro chQrx hch
    change (movePkts .temporary .own pkts made).newCh = some chQrx at hch
    rw [hnew] at hch
    cases hch
    refine ⟨hdst, .inr ⟨rfl, hs, hsrc.trans ?_, ?_⟩⟩
    · exact List.drop_length
    · change ((movePkts .temporary .own pkts made).freed ++
          (movePkts .temporary .own pkts made).qrx.toList) ++
        (movePkts .temporary .own pkts made).qrxSrc.toList = _
      rw [hf, hq, hs]
      rfl
  · rcases hbind with ⟨m, hm, hn⟩ | hm
    · rw [bindAndSalvage, hm]
      simp only [hn]
      exact handedOver_of_newCh_none hn
    · rw [bindAndSalvage, hm]
      rfl

/-- **The temporary record layer is forgotten twice**: no variable refers to it any more. -/
theorem safe_bind_lost :
    Safe pkts (bindAndSalvage e f (forgetQrx (forgetQrx (decrypted pkts largestPn)))) ↔
    makesOwn e f = false := by
  have hbind :=
    @portBindChannel_none α e f (forgetQrx (forgetQrx (decrypted pkts largestPn))) rfl rfl
  split_ifs at hbind with hown
  · rw [bindAndSalvage, hbind, hown]
    exact iff_of_false (fun h => by cases h) (by decide)
  · refine iff_of_true ?_ (by simpa using hown)
    rcases hbind with ⟨m, hm, hn⟩ | hm
    · rw [bindAndSalvage, hm]
      simp only [hn]
      exact handedOver_of_newCh_none hn
    · rw [bindAndSalvage, hm]
      rfl

/-- The handler on a validated Initial packet. -/
theorem safe_onInitial : Safe pkts (onInitial port e f hdr (decrypted pkts largestPn)) ↔
    ¬(port.validateAddr = false ∧ hdr.token.isSome = true ∧ tokenOf port e hdr = none ∧
      makesOwn e f = true) := by
  unfold onInitial
  cases hv : port.validateAddr with
  | true =>
    refine iff_of_true ?_ (by simp)
    rcases hdr.token with _ | token
    · exact handedOver_of_newCh_none rfl
    · rcases tokenOf port e hdr with _ | v
      · exact handedOver_of_newCh_none rfl
      · exact safe_bind_temporary
  | false =>
    rcases hdr.token with _ | token
    · exact iff_of_true safe_bind_forgotten (by simp)
    · rcases tokenOf port e hdr with _ | v
      · exact safe_bind_lost.trans (by simp)
      · exact iff_of_true safe_bind_forgotten (by simp)

theorem handler_of_unknown (h : Unknown port e hdr) :
    portDefaultPacketHandler port e f pkts largestPn =
      onInitial port e f hdr (decrypted pkts largestPn) := by
  unfold portDefaultPacketHandler
  rw [if_neg (by simp [h.running, h.notReset]), if_neg (by simp [h.notKnown]),
    if_neg (by simp [h.allowed]), if_neg h.size, h.decoded]
  simp [h.version, h.initial, h.qrx, h.valid]

/-- Without a validated Initial packet there is no channel. -/
theorem newCh_of_not_unknown (h : ¬∃ hdr, Unknown port e hdr) :
    ∃ m, portDefaultPacketHandler port e f pkts largestPn = .ok m ∧ m.newCh = none := by
  have hqrxNew : (undesirable (if f.qrxNew then decrypted [] largestPn else
      untouched largestPn) : Memory α).newCh = none := by
    split_ifs <;> rfl
  unfold portDefaultPacketHandler
  rcases hd : e.decoded with _ | _ | hdr
  · split_ifs <;> exact ⟨_, rfl, rfl⟩
  · split_ifs <;> exact ⟨_, rfl, rfl⟩
  · by_cases h1 : e.running = false ∨ e.statelessReset
    · exact ⟨_, if_pos h1, rfl⟩
    rw [if_neg h1]
    by_cases h2 : e.known
    · exact ⟨_, if_pos h2, rfl⟩
    rw [if_neg h2]
    by_cases h3 : port.allowIncoming = false
    · exact ⟨_, if_pos h3, rfl⟩
    rw [if_neg h3]
    by_cases h4 : e.dataLen < quicMinInitialDgramLen ∨ e.dataLen > sizeMax / 2
    · exact ⟨_, if_pos h4, rfl⟩
    rw [if_neg h4]
    dsimp only
    by_cases h5 : hdr.version ≠ 1 ∨ hdr.isInitial = false
    · exact ⟨_, if_pos h5, rfl⟩
    rw [if_neg h5]
    by_cases h6 : e.qrx = false
    · exact ⟨_, if_pos h6, hqrxNew⟩
    rw [if_neg h6]
    by_cases h7 : e.valid = false
    · exact ⟨_, if_pos h7, rfl⟩
    · simp only [not_or, not_not, Bool.not_eq_false, Bool.not_eq_true] at h1 h2 h3 h5 h6 h7
      exact absurd ⟨hdr, h1.1, h1.2, h2, h3, h4, hd, h5.1, h5.2, h6, h7⟩ h

end Cases

/-- **The packets are handed over** exactly unless a port that does not validate addresses makes a
channel for an Initial packet with an invalid token. -/
theorem handedOver_iff (port : Port) (e : Datagram) (f : Faults) (pkts : List α)
    (largestPn : Qrx → Fin 3 → ℕ) :
    Safe pkts (portDefaultPacketHandler port e f pkts largestPn) ↔
      ¬∃ hdr, Unknown port e hdr ∧ port.validateAddr = false ∧ hdr.token.isSome = true ∧
        tokenOf port e hdr = none ∧ makesOwn e f = true := by
  by_cases hu : ∃ hdr, Unknown port e hdr
  · obtain ⟨hdr, hu⟩ := hu
    rw [handler_of_unknown hu, safe_onInitial, not_iff_not]
    constructor
    · exact fun h => ⟨hdr, hu, h⟩
    · rintro ⟨hdr', hu', h⟩
      obtain rfl : hdr = hdr' := Decoded.hdr.inj (hu.decoded.symm.trans hu'.decoded)
      exact h
  · obtain ⟨m, hm, hn⟩ := @newCh_of_not_unknown α port e f pkts largestPn hu
    rw [hm]
    exact iff_of_true (handedOver_of_newCh_none hn) fun ⟨hdr, h, _⟩ => hu ⟨hdr, h⟩

/-- A port that does not validate addresses. -/
def openPort : Port := { plainPort with validateAddr := false, multi := fun _ => rfl }

/-- An Initial packet with a token that cannot be decrypted: the channel has been made, nothing
refers to the temporary record layer any more, and the packets are read through a null pointer. -/
theorem handedOver_invalidToken :
    ∃ m, portDefaultPacketHandler openPort (initialFrom 5 ConnId.empty (some [1, 2, 3]))
      ⟨false, true, true⟩
        ["CRYPTO"] (fun _ _ => 0) = .error m ∧
      m.newCh = some .own ∧ m.qrx = none ∧ m.qrxSrc = none ∧ m.freed = [] ∧
      m.rxPending .temporary = ["CRYPTO"] ∧ m.rxPending .own = [] :=
  ⟨_, rfl, rfl, rfl, rfl, rfl, rfl, rfl⟩

/-! ### The channels of `Server/Retry` -/

section Refine

variable {port : Port} {e : Datagram} {f : Faults} {hdr : PktHdr}

/-- The memory at the end, or where a null pointer is dereferenced. -/
def Exec.memory : Exec α → Memory α
  | .ok m | .error m => m

theorem isSome_portBindChannel {scid dcid odcid : ConnId} {qrx : Bool} :
    (Retry.portBindChannel port e scid dcid odcid qrx).isSome ↔
      e.makeChannel = true ∧ (qrx = true ∨ e.channelSecret = true) ∧ e.bind = true := by
  unfold Retry.portBindChannel
  by_cases ho : odcid.idLen = 0 <;> cases e.makeChannel <;> cases qrx <;> cases e.channelSecret <;>
    cases e.bind <;> simp [ho]

theorem addChannel_mem_bindAndToken {scid odcid : ConnId} {qrx genNewToken : Bool} :
    (∃ ch, .addChannel ch ∈ bindAndToken port e hdr scid odcid qrx genNewToken) ↔
      e.makeChannel = true ∧ (qrx = true ∨ e.channelSecret = true) ∧ e.bind = true := by
  rw [← @isSome_portBindChannel port e scid hdr.dstConnId odcid qrx]
  unfold bindAndToken
  rcases Retry.portBindChannel port e scid hdr.dstConnId odcid qrx with _ | ch
  · simp
  · exact iff_of_true ⟨ch, List.mem_cons_self⟩ rfl

theorem newCh_salvage (chQrx : Qrx) (m : Memory α) :
    (Exec.memory ((salvage chQrx m).map undesirable)).newCh = m.newCh := by
  unfold salvage
  rcases m.qrx with _ | qrx
  · rcases m.qrxSrc with _ | src
    · rfl
    · exact (movePkts_fields src chQrx (m.rxPending src) m).2.2.2
  · rfl

theorem newCh_bindAndSalvage (ht : f.tserverCh = false) {m : Memory α} (hn : m.newCh = none) :
    (Exec.memory (bindAndSalvage e f m)).newCh.isSome ↔
      e.makeChannel = true ∧ (m.qrx.isSome = true ∨ e.channelSecret = true) ∧ e.bind = true := by
  have hmade : ∀ chQrx, (bindMade e chQrx m).newCh.isSome ↔
      (m.qrx.isSome = true ∨ e.channelSecret = true) ∧ e.bind = true := by
    intro chQrx
    unfold bindMade
    rcases hq : m.qrx with _ | qrx <;> cases e.channelSecret <;> cases e.bind <;> simp [hn, qrxFree]
  have hrest : ∀ m', portBindChannel e f m = .ok m' →
      (Exec.memory (bindAndSalvage e f m)).newCh = m'.newCh := by
    intro m' hm
    rw [bindAndSalvage, hm]
    rcases hnew : m'.newCh with _ | chQrx
    · simp only [hnew]
      exact hnew
    · simp only [hnew]
      exact (newCh_salvage chQrx m').trans hnew
  cases hmk : e.makeChannel with
  | true =>
    rw [hrest (bindMade e (m.qrx.getD .own) m) (by simp [portBindChannel, ht, hmk]), hmade]
    simp
  | false =>
    cases hi : f.channelInit with
    | true =>
      rw [hrest (qrxFree (m.qrx.getD .own) m) (by simp [portBindChannel, ht, hmk, hi])]
      simp [qrxFree, hn]
    | false =>
      rw [hrest m (by simp [portBindChannel, ht, hmk, hi])]
      simp [hn]

/-- **The two models of the handler agree on channels**, on a port without a test server's
channel. -/
theorem newCh_iff_addChannel (ht : f.tserverCh = false) (garbage : ConnId) (pkts : List α)
    (largestPn : Qrx → Fin 3 → ℕ) :
    (Exec.memory (portDefaultPacketHandler port e f pkts largestPn)).newCh.isSome ↔
      ∃ ch, .addChannel ch ∈ Retry.portDefaultPacketHandler port garbage e := by
  by_cases hu : ∃ hdr, Unknown port e hdr
  · obtain ⟨hdr, hu⟩ := hu
    rw [handler_of_unknown hu, Retry.handler_of_unknown hu]
    unfold onInitial Retry.onInitial
    cases hv : port.validateAddr with
    | true =>
      rcases hdr.token with _ | token
      · simp [Exec.memory, undesirable, qrxFree, decrypted, portSendRetry]
      · rcases tokenOf port e hdr with _ | v
        · simp [Exec.memory, undesirable, qrxFree, decrypted, portSendRetry]
        · exact (newCh_bindAndSalvage ht rfl).trans (addChannel_mem_bindAndToken).symm
    | false =>
      rcases hdr.token with _ | token
      · rcases tokenOf port e hdr with _ | v
        · exact (newCh_bindAndSalvage ht rfl).trans (addChannel_mem_bindAndToken).symm
        · exact (newCh_bindAndSalvage ht rfl).trans (addChannel_mem_bindAndToken).symm
      · rcases tokenOf port e hdr with _ | v
        · exact (newCh_bindAndSalvage ht rfl).trans (addChannel_mem_bindAndToken).symm
        · exact (newCh_bindAndSalvage ht rfl).trans (addChannel_mem_bindAndToken).symm
  · obtain ⟨m, hm, hn⟩ := @newCh_of_not_unknown α port e f pkts largestPn hu
    rw [hm]
    refine iff_of_false (by simp [Exec.memory, hn]) fun ⟨ch, hch⟩ => ?_
    rcases (unknown_or_idle port garbage e).resolve_left hu _ hch with hc | hc <;> cases hc

end Refine

end PapQuic.Server.HandOver
