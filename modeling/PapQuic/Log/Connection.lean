import PapQuic.Log.Ledger
import PapQuic.Log.Output
import PapQuic.Txp.Accounting

/-! # A server connection and its log

Packets are received and sent, the unvalidated credit goes up and down, TLS callbacks come in
between, and all of it is logged: `ossl_quic_handle_frames` of `ssl/quic/quic_rx_depack.c` and
`txp_pkt_commit` of `ssl/quic/quic_txp.c` build the packet events, with the credit before and after
and the difference of the two.

* `run_credit`: the credit is that of the channel whose accounting is studied for itself.
* `run_sound`: in a run in which no line of a received packet is lost for lack of memory, all lines
  are such as the log prints, and the books of the log are in order: in every first part of it the
  differences add up to at least 0. -/

namespace PapQuic.Log.Connection

open Lib.Run Wire.Packet Wire.Header Txp Txp.Credit Txp.Generate
open Log.Metadata Log.Clock Log.FrameList Log.Lines Log.Notes Log.Timing Log.Ledger Log.Output

/-! ### Packets -/

/-- A packet handed to `ossl_quic_handle_frames`. Datagrams are read into buffers as long as the MTU
of the demuxer, which is an `unsigned int`. -/
structure RxPacket where
  encLevel : EncLevel
  pn : ℕ
  datagramLen : Fin (2 ^ 32)
  payload : Bytes

/-- A packet of a level that is sent, and what it is logged with. -/
structure TxPacket where
  pn : ℕ
  payload : Bytes
  inp : LogInput

/-- The packet type of a level. -/
def pktType : EncLevel → PktType
  | .initial => .initial
  | .zeroRtt => .zeroRtt
  | .handshake => .handshake
  | .oneRtt => .oneRtt

/-- `credit_delta`: a `long long`. -/
def creditDelta (before after : ℕ) : ℤ :=
  if before = sizeMax ∨ after = sizeMax then 0 else Int.bmod (after - before) (2 ^ 64)

/-- The event of a packet of a server. -/
def serverEvent (isSend : Bool) (encLevel : EncLevel) (pn datagramSize : ℕ) (payload : Bytes)
    (before after : ℕ) : PacketLogEvent where
  isServer := true
  isSend := isSend
  encLevel := encLevel
  packetType := some (pktType encLevel)
  packetNumber := pn
  datagramSize := datagramSize
  payload := payload
  haveCreditBefore := true
  creditBefore := before
  creditBeforeUnlimited := before = sizeMax
  haveCreditAfter := true
  creditAfter := after
  creditAfterUnlimited := after = sizeMax
  clientCreditKnown := false
  clientCreditUnlimited := after = sizeMax
  haveCreditDelta := true
  creditDelta := creditDelta before after

/-! ### Steps -/

/-- A server with one connection. -/
structure Server extends Session where
  credit : ℕ

/-- The server when it has created the channel. -/
def Server.start (log : LogState) : Server := ⟨.start log, 0⟩

def Server.new : Server := .start LogState.init

/-- What happens to a server. -/
inductive ServerStep
  | handleFrames (pkt : RxPacket) (inp : LogInput)
  | generate (input : GenerateInput) (pkt : EncLevel → TxPacket)
  | setValidated
  | timing (call : TimingCall) (now lineNow : OsslTime)

/-- The credit after `ossl_quic_handle_frames`. -/
def creditAfterReceive (credit : ℕ) (pkt : RxPacket) : ℕ :=
  if pkt.encLevel = .handshake then Credit.setValidated credit
  else addUnvalidatedCredit credit pkt.datagramLen

/-- A packet that was passed to `txp_pkt_commit` is logged once it is in a datagram. -/
def logCommit (lib : X509Lib) (pkt : EncLevel → TxPacket) (s : Session) (c : Commit) : Session :=
  if c.outcome = .notWritten then s
  else
    let tx := pkt c.pkt.encLevel
    s.step lib (.packet tx.inp
      (serverEvent true c.pkt.encLevel tx.pn c.pkt.numBytes tx.payload c.creditBefore
        c.creditAfter))

def step (lib : X509Lib) (s : Server) (x : ServerStep) : Server :=
  if s.hung then s
  else
    match x with
    | .handleFrames pkt inp =>
      let after := creditAfterReceive s.credit pkt
      ⟨s.toSession.step lib (.packet inp (serverEvent false pkt.encLevel pkt.pn pkt.datagramLen
        pkt.payload s.credit after)), after⟩
    | .generate input pkt =>
      let r := Generate.generate s.credit input
      ⟨r.1.foldl (logCommit lib pkt) s.toSession, r.2⟩
    | .setValidated => { s with credit := Credit.setValidated s.credit }
    | .timing call now lineNow =>
      { s with toSession := s.toSession.step lib (.timing true call now lineNow) }

/-- The sum of `dgram_len` over the received packets. -/
def received (steps : List ServerStep) : ℕ :=
  (steps.map fun
    | .handleFrames pkt _ => (pkt.datagramLen : ℕ)
    | _ => 0).sum

/-! ### The credit -/

/-- What a step does to the channel. -/
def channelSteps : ServerStep → List Accounting.ChannelStep
  | .handleFrames pkt _ => [.handleFrames pkt.encLevel pkt.datagramLen]
  | .generate input _ => [.generate input]
  | .setValidated => [.setValidated]
  | .timing .. => []

theorem received_flatMap (steps : List ServerStep) :
    Accounting.received (steps.flatMap channelSteps) = received steps := by
  induction steps with
  | nil => rfl
  | cons x steps ih =>
    unfold Accounting.received received at ih ⊢
    cases x <;> simp [channelSteps, Accounting.ChannelStep.dgramLen, ih]

theorem step_hung (lib : X509Lib) {s : Server} (x : ServerStep) (h : s.hung = true) :
    step lib s x = s := by
  simp [step, h]

theorem step_credit (lib : X509Lib) {s : Server} {ch : Accounting.Channel}
    (hc : s.credit = ch.credit) (x : ServerStep) (h : s.hung = false) :
    (step lib s x).credit = (run Accounting.step ch (channelSteps x)).credit := by
  unfold step
  rw [if_neg (by simp [h])]
  cases x with
  | handleFrames pkt inp =>
    rcases pkt with ⟨encLevel, pn, len, payload⟩
    cases encLevel <;> simp [channelSteps, Accounting.step, creditAfterReceive, hc]
  | generate input pkt => simp [channelSteps, Accounting.step, hc]
  | setValidated => simp [channelSteps, Accounting.step, hc]
  | timing call now lineNow => simp [channelSteps, hc]

/-- **The credit of a server that is not hung is that of its channel.** -/
theorem run_credit (lib : X509Lib) (steps : List ServerStep)
    (h : (run (step lib) .new steps).hung = false) :
    (run (step lib) .new steps).credit =
      (run Accounting.step .new (steps.flatMap channelSteps)).credit := by
  induction steps using List.reverseRecOn with
  | nil => rfl
  | append_singleton steps x ih =>
    rw [run_append, run_cons, run_nil] at h ⊢
    rw [List.flatMap_append, run_append, List.flatMap_singleton]
    have hb : (run (step lib) .new steps).hung = false := by
      by_contra hb
      rw [step_hung lib x (by simpa using hb)] at h
      exact hb h
    exact step_credit lib (ih hb) x hb

/-- The credit is unlimited or at most three times the bytes received. -/
theorem credit_le (lib : X509Lib) (steps : List ServerStep) (hn : received steps < sizeMax / 3)
    (h : (run (step lib) .new steps).hung = false) :
    (run (step lib) .new steps).credit = sizeMax ∨
      (run (step lib) .new steps).credit ≤ 3 * received steps := by
  rw [run_credit lib steps h]
  rcases Accounting.run_books (steps.flatMap channelSteps)
    (by rw [received_flatMap]; unfold sizeMax at hn ⊢; omega) with ⟨-, hb⟩ | ⟨-, hu⟩
  · have := hb.balance
    rw [received_flatMap] at this
    exact .inr (by omega)
  · exact .inl hu.credit

/-! ### The books -/

/-- What the log owes to the credit: nothing once it is unlimited. -/
def floor (credit : ℕ) : ℤ := if credit = sizeMax then 0 else credit

theorem floor_nonneg (credit : ℕ) : 0 ≤ floor credit := by
  unfold floor
  split_ifs <;> omega

/-- A line of a server. -/
def IsServerLine : Line → Prop
  | .packet l => (∀ spec ∈ l.specs, IsSpec LineChar spec) ∧ l.delta.isSome = true
  | .internal _ => True

/-- What holds of the log at any time. Once it is hung it owes nothing. -/
structure Sound (s : Session) (floor : ℤ) : Prop where
  prints : Prints (Annotated LineChar) IsServerLine s
  total_nonneg : ∀ first, first <+: s.lines → 0 ≤ total first
  balance : s.hung = false → floor ≤ total s.lines + heldDebt s.timing.pending

section

variable {lib : X509Lib} {s : Session} {f g : ℤ}

theorem Sound.books (h : Sound s f) (hh : s.hung = false) : Books s.lines s.timing.pending f :=
  ⟨h.total_nonneg, h.balance hh⟩

theorem Sound.mono (h : Sound s f) (hle : g ≤ f) : Sound s g :=
  ⟨h.prints, h.total_nonneg, fun hh => hle.trans (h.balance hh)⟩

/-- A packet event. The line of a packet that is sent may be lost. -/
theorem Sound.packet (h : Sound s f) (hp : NamesOf LineChar lib) (h0 : 0 ≤ f) (h0' : 0 ≤ g)
    {inp : LogInput} {event : PacketLogEvent}
    (hev : event.isServer = true ∧ event.haveCreditDelta = true)
    (hle : g ≤ f + event.creditDelta)
    (hsend : event.isSend = true → g ≤ f + min 0 event.creditDelta)
    (halloc : event.isSend = false → inp.lineAlloc = true) :
    Sound (s.step lib (.packet inp event)) g := by
  have hdelta (ticks : OsslTime) (specs : List FrameSpec) (ok : Bool) :
      (⟨ticks, event, specs, ok⟩ : PacketLine).delta = some event.creditDelta := by
    simp [PacketLine.delta, hev]
  have ht : Prints (Annotated LineChar) IsServerLine (s.step lib (.packet inp event)) :=
    h.prints.packet (kept_annotated hp) (fun _ => trivial) fun _ _ hspecs =>
      ⟨hspecs, by rw [hdelta]; rfl⟩
  rcases step_packet lib s inp event with ⟨hskip, he⟩ | he | ⟨hh, r, out, timing, -, hlogs, he⟩ <;>
    rw [he] at ht ⊢
  · refine ⟨ht, h.total_nonneg, fun hh => ?_⟩
    -- the line is lost for lack of memory, so the packet is one that is sent
    have hs : event.isSend = true := by
      by_contra hs
      have := halloc (by simpa using hs)
      simp [hh, this] at hskip
    have hb := h.balance hh
    have hg := hsend hs
    omega
  · exact ⟨ht, h.total_nonneg, fun hh => by simp at hh⟩
  · have hb : Books (s.lines ++ out) timing.pending g := by
      refine (h.books hh).logs h0 h0' ?_ ?_ hlogs
      · simpa [shown, hdelta] using hle
      · simpa [shown, hdelta] using hsend
    exact ⟨ht, hb.total_nonneg, fun _ => hb.balance⟩

theorem Sound.timing (h : Sound s f) (lib : X509Lib) (h0 : 0 ≤ f) (call : TimingCall)
    (now lineNow : OsslTime) :
    Sound (s.step lib (.timing true call now lineNow)) f := by
  have ht : Prints (Annotated LineChar) IsServerLine (s.step lib (.timing true call now lineNow)) :=
    h.prints.timing (fun _ => trivial) true call now lineNow
  rcases step_timing lib s true call now lineNow with he | ⟨hh, out, timing, hm, he⟩ <;>
    rw [he] at ht ⊢
  · exact h
  · have hb := (h.books hh).moves h0 hm
    exact ⟨ht, hb.total_nonneg, fun _ => hb.balance⟩

end

/-! ### What the lines show -/

/-- A packet that is received gives no more than its line shows. -/
theorem floor_receive {credit n : ℕ} {pkt : RxPacket} (hc : credit = sizeMax ∨ credit ≤ 3 * n)
    (hn : 3 * (n + pkt.datagramLen) ≤ sizeMax - 1) :
    floor (creditAfterReceive credit pkt) ≤
      floor credit + creditDelta credit (creditAfterReceive credit pkt) := by
  have h0 := floor_nonneg credit
  have hd := pkt.datagramLen.isLt
  unfold creditAfterReceive
  split_ifs
  · simpa [Credit.setValidated, floor, creditDelta] using h0
  · rcases hc with rfl | hc
    · simp [floor, creditDelta]
    · have hle : credit + 3 * pkt.datagramLen ≤ sizeMax - 1 := by omega
      obtain ⟨he, -⟩ := addUnvalidatedCredit_eq hle
      have hM : 0 < sizeMax := by decide
      have hb : Int.bmod (3 * (pkt.datagramLen : ℕ)) (2 ^ 64) = 3 * (pkt.datagramLen : ℕ) :=
        Int.bmod_eq_of_le (by omega) (by omega)
      rw [he, floor, floor, creditDelta, if_neg (by omega), if_neg (by omega), if_neg (by omega)]
      rw [show ((credit + 3 * pkt.datagramLen : ℕ) : ℤ) - credit = 3 * (pkt.datagramLen : ℕ) by
        push_cast; ring, hb]
      push_cast
      omega

/-- A packet that is sent takes at least what its line shows as taken. -/
theorem floor_consume {credit bytes : ℕ} (h : checkUnvalidatedCredit credit bytes = true) :
    floor (consumeUnvalidatedCredit credit bytes) ≤
      floor credit + min 0 (creditDelta credit (consumeUnvalidatedCredit credit bytes)) := by
  have h0 := floor_nonneg credit
  by_cases hc : credit = sizeMax
  · subst hc
    simp [floor, creditDelta]
  · obtain ⟨he, hle, -⟩ := consumeUnvalidatedCredit_eq hc h
    rw [he]
    unfold floor creditDelta at *
    rw [if_neg hc] at *
    split_ifs with h1 h2 h3
    · omega
    · exact absurd (.inr h1) h2
    · exact absurd h3 (by omega)
    · have hge : -(bytes : ℤ) ≤ Int.bmod ((credit - bytes : ℕ) - credit) (2 ^ 64) := by
        rw [show ((credit - bytes : ℕ) : ℤ) - credit = -bytes by omega]
        by_cases hb : bytes ≤ 2 ^ 63
        · rw [Int.bmod_eq_of_le (by omega) (by omega)]
        · have := Int.le_bmod (x := -(bytes : ℤ)) (m := 2 ^ 64) (by decide)
          omega
      omega

/-! ### Steps and runs -/

/-- The packets of a datagram, one by one. -/
theorem sound_commitLoop {lib : X509Lib} (hp : NamesOf LineChar lib) (el : EncLevel → ElInput)
    (pkt : EncLevel → TxPacket) : ∀ (pkts : List TxpPkt) (credit : ℕ) {s : Session},
    Sound s (floor credit) →
      Sound ((commitLoop el credit pkts).1.foldl (logCommit lib pkt) s)
        (floor (commitLoop el credit pkts).2)
  | [], _, _, h => h
  | p :: pkts, credit, s, h => by
    simp only [commitLoop]
    split_ifs with h0 hchk hw
    · exact sound_commitLoop hp el pkt pkts credit h
    · exact h
    all_goals
      have hcov : checkUnvalidatedCredit credit p.bytesAppended = true := by simpa using hchk
      have hfall := floor_consume hcov
      have hc : Sound (logCommit lib pkt s
          ⟨p, credit, consumeUnvalidatedCredit credit p.bytesAppended,
            (el p.encLevel).commitOutcome⟩)
          (floor (consumeUnvalidatedCredit credit p.bytesAppended)) := by
        unfold logCommit
        split_ifs
        · exact h.mono (hfall.trans (by omega))
        · exact h.packet hp (floor_nonneg _) (floor_nonneg _) ⟨rfl, rfl⟩
            (hfall.trans (by simp [serverEvent])) (fun _ => hfall) (by simp [serverEvent])
    · exact sound_commitLoop hp el pkt pkts _ hc
    · exact hc

/-- The step loses no line of a received packet for lack of memory. -/
def ServerStep.keepsLine : ServerStep → Prop
  | .handleFrames _ inp => inp.lineAlloc = true
  | _ => True

theorem sound_step {lib : X509Lib} (hp : NamesOf LineChar lib) {s : Server} {n : ℕ} {x : ServerStep}
    (h : Sound s.toSession (floor s.credit))
    (hc : s.hung = false → s.credit = sizeMax ∨ s.credit ≤ 3 * n)
    (hn : 3 * (n + received [x]) ≤ sizeMax - 1) (hx : x.keepsLine) :
    Sound (step lib s x).toSession (floor (step lib s x).credit) := by
  unfold step
  split_ifs with hh
  · exact h
  · cases x with
    | handleFrames pkt inp =>
      refine h.packet hp (floor_nonneg _) (floor_nonneg _) ⟨rfl, rfl⟩ ?_ (by simp [serverEvent])
        fun _ => hx
      exact floor_receive (hc (by simpa using hh)) (by simpa [received] using hn)
    | generate input pkt => exact sound_commitLoop hp input.el pkt _ _ h
    | setValidated =>
      refine h.mono ?_
      simpa [floor, Credit.setValidated] using floor_nonneg s.credit
    | timing call now lineNow => exact h.timing lib (floor_nonneg _) call now lineNow

theorem received_append (a b : List ServerStep) : received (a ++ b) = received a + received b := by
  simp [received]

/-- **In a run that loses no line of a received packet the log is sound.** -/
theorem run_sound {lib : X509Lib} (hp : NamesOf LineChar lib) {steps : List ServerStep}
    (hn : received steps < sizeMax / 3) (hx : ∀ x ∈ steps, x.keepsLine) :
    Sound (run (step lib) .new steps).toSession (floor (run (step lib) .new steps).credit) := by
  induction steps using List.reverseRecOn with
  | nil =>
    refine ⟨prints_new _ (annotated_noMetadata _), fun first hf => ?_, fun _ => le_refl 0⟩
    rw [List.prefix_nil.mp hf, total_nil]
  | append_singleton steps x ih =>
    rw [received_append] at hn
    have hn' : received steps < sizeMax / 3 := by omega
    rw [run_append, run_cons, run_nil]
    refine sound_step hp (ih hn' fun y hy => hx y (by simp [hy])) (credit_le lib steps hn') ?_
      (hx x (by simp))
    unfold sizeMax at hn ⊢
    omega

end PapQuic.Log.Connection
