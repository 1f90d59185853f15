import PapQuic.Lib.Greedy
import PapQuic.Lib.StableSort
import PapQuic.Script.PacketLine

/-! # Sent packets and received packets

`pair_packets` of `scripts/generate_packet_diagram.py` looks for the received packet of each sent
packet of a diagram: the first one of the direction that is not used yet and has its number, or else
the first one that is not used at all. The events are those of a type `ε`, so that two events with
the same contents can be told apart; `event` gives their contents and `norm` the `norm_time` that
`normalize_times` has left in them.

* `pairPackets_maximal`: each sent packet has one flow, no received packet is used twice, and a
  packet goes without a received one only when all are used;
* `pairPackets_sound_iff`: the received packet of a flow is the sent one exactly when the packets
  that arrive are the first ones sent, and no other type of packet with the number is in the way. -/

namespace PapQuic.Script.Pairing

open Lib.StableSort Lib.Greedy Script.PacketLine

/-! ### The script -/

inductive Direction
  | clientToServer | serverToClient
  deriving DecidableEq

/-- `assign_directions`. -/
def assignDirection (ev : PacketEvent) : Direction :=
  match ev.role, ev.kind with
  | .client, .sent | .server, .received => .clientToServer
  | .server, .sent | .client, .received => .serverToClient

variable {ε : Type*}

/-- `PacketFlow`. -/
structure PacketFlow (ε : Type*) where
  direction : Direction
  sendEvent : ε
  recvEvent : Option ε
  normTime : ℚ

variable (event : ε → PacketEvent) (norm : ε → ℚ)

/-- `match_receive`, on the received packets and whether they are used. -/
def matchReceive (sendEv : ε) (recvList : List (ε × Bool)) : Option ℕ :=
  (recvList.findIdx? fun r => !r.2 && (event sendEv).packetNo.isSome &&
      (event r.1).packetNo = (event sendEv).packetNo).or
    (recvList.findIdx? fun r => !r.2)

/-- The loop of `pair_packets` over the sent packets of a direction. -/
def pairLoop (direction : Direction) : List ε → List (ε × Bool) → List (PacketFlow ε)
  | [], _ => []
  | sendEv :: sends, recvList =>
    match matchReceive event sendEv recvList with
    | none => ⟨direction, sendEv, none, norm sendEv⟩ :: pairLoop direction sends recvList
    | some idx =>
      ⟨direction, sendEv, recvList[idx]?.map Prod.fst, norm sendEv⟩ ::
        pairLoop direction sends (recvList.modify idx fun r => (r.1, true))

/-- The packets of a direction that are sent, or received, by their times. -/
def ofDirection (kind : Kind) (direction : Direction) (packets : List ε) : List ε :=
  sortBy norm
    (packets.filter fun ev => (event ev).kind = kind && assignDirection (event ev) = direction)

/-- `pair_packets`. -/
def pairPackets (packets : List ε) : List (PacketFlow ε) :=
  sortBy PacketFlow.normTime ([Direction.clientToServer, .serverToClient].flatMap fun direction =>
    pairLoop event norm direction (ofDirection event norm .sent direction packets)
      ((ofDirection event norm .received direction packets).map fun ev => (ev, false)))

/-! ### The greedy choice -/

/-- A received packet is looked for by the number. -/
def sameNo (sendEv recv : ε) : Bool :=
  (event sendEv).packetNo.isSome && (event recv).packetNo = (event sendEv).packetNo

/-- The flow of a sent packet. -/
def flow (direction : Direction) (r : ε × Option ε) : PacketFlow ε :=
  ⟨direction, r.1, r.2, norm r.1⟩

theorem matchReceive_eq (sendEv : ε) (recvList : List (ε × Bool)) :
    matchReceive event sendEv recvList = pick (sameNo event sendEv) recvList := by
  simp only [matchReceive, pick, firstFree, sameNo, Bool.and_assoc, Bool.and_true]

theorem pairLoop_eq [DecidableEq ε] (direction : Direction) :
    ∀ (sends : List ε) (recvList : List (ε × Bool)), pairLoop event norm direction sends recvList =
      (assign (sameNo event) sends (free recvList)).map (flow norm direction)
  | [], _ => rfl
  | sendEv :: sends, recvList => by
    rw [pairLoop, assign, List.map_cons, matchReceive_eq]
    rcases hp : pick (sameNo event sendEv) recvList with _ | idx
    · rw [pick_eq_none hp]
      exact congrArg _ (pairLoop_eq direction sends recvList)
    · obtain ⟨b, hb, hc, hfree⟩ := pick_eq_some hp
      rw [hc, Option.toList_some, List.diff_cons, List.diff_nil, ← hfree]
      simp only [hb]
      exact congrArg _ (pairLoop_eq direction sends (mark recvList idx))

variable (direction : Direction) (packets : List ε)

/-- The flows of a direction, before they are sorted together. -/
theorem pairLoop_direction [DecidableEq ε] :
    pairLoop event norm direction (ofDirection event norm .sent direction packets)
        ((ofDirection event norm .received direction packets).map fun ev => (ev, false)) =
      (assign (sameNo event) (ofDirection event norm .sent direction packets)
        (ofDirection event norm .received direction packets)).map (flow norm direction) := by
  rw [pairLoop_eq, free_map]

/-! ### Flows -/

theorem sendEvent_pairLoop (direction : Direction) :
    ∀ (sends : List ε) (recvList : List (ε × Bool)),
      (pairLoop event norm direction sends recvList).map PacketFlow.sendEvent = sends ∧
        ∀ f ∈ pairLoop event norm direction sends recvList,
          f.direction = direction ∧ f.normTime = norm f.sendEvent
  | [], _ => ⟨rfl, by simp [pairLoop]⟩
  | sendEv :: sends, recvList => by
    unfold pairLoop
    split
    · obtain ⟨h1, h2⟩ := sendEvent_pairLoop direction sends recvList
      exact ⟨by rw [List.map_cons, h1], List.forall_mem_cons.mpr ⟨⟨rfl, rfl⟩, h2⟩⟩
    · obtain ⟨h1, h2⟩ := sendEvent_pairLoop direction sends (recvList.modify _ _)
      exact ⟨by rw [List.map_cons, h1], List.forall_mem_cons.mpr ⟨⟨rfl, rfl⟩, h2⟩⟩

variable {event norm}

theorem mem_pairPackets {packets : List ε} {f : PacketFlow ε} : f ∈ pairPackets event norm packets ↔
    ∃ direction, f ∈ pairLoop event norm direction
      (ofDirection event norm .sent direction packets)
      ((ofDirection event norm .received direction packets).map fun ev => (ev, false)) := by
  rw [pairPackets, (perm_sortBy _ _).mem_iff, List.mem_flatMap]
  refine exists_congr fun direction => and_iff_right ?_
  cases direction <;> simp

theorem normTime_pairPackets {packets : List ε} {f : PacketFlow ε}
    (hf : f ∈ pairPackets event norm packets) : f.normTime = norm f.sendEvent := by
  obtain ⟨direction, hf⟩ := mem_pairPackets.mp hf
  exact ((sendEvent_pairLoop event norm _ _ _).2 f hf).2

variable (event norm)

/-- The packets of both directions are all the packets of the kind. -/
theorem perm_ofDirection (kind : Kind) (packets : List ε) :
    (ofDirection event norm kind .clientToServer packets ++
      ofDirection event norm kind .serverToClient packets).Perm
        (packets.filter fun ev => (event ev).kind = kind) := by
  refine ((perm_sortBy _ _).append (perm_sortBy _ _)).trans ?_
  have hsplit := perm_filter_append
    (fun ev => decide (assignDirection (event ev) = .clientToServer))
    (fun ev => decide (assignDirection (event ev) = .serverToClient))
    (fun ev => by cases assignDirection (event ev) <;> rfl)
    (packets.filter fun ev => (event ev).kind = kind)
  rw [List.filter_filter, List.filter_filter] at hsplit
  simpa only [Bool.and_comm] using hsplit

/-- The flows are those of the sent packets. -/
theorem perm_pairPackets :
    ((pairPackets event norm packets).map PacketFlow.sendEvent).Perm
      (packets.filter fun ev => (event ev).kind = .sent) := by
  refine ((perm_sortBy _ _).map _).trans ?_
  simp only [List.flatMap_cons, List.flatMap_nil, List.append_nil, List.map_append,
    (sendEvent_pairLoop event norm _ _ _).1]
  exact perm_ofDirection event norm .sent packets

/-- The flows of a direction are in the order in which the loop made them. -/
theorem filter_pairPackets :
    (pairPackets event norm packets).filter (·.direction = direction) =
      pairLoop event norm direction (ofDirection event norm .sent direction packets)
        ((ofDirection event norm .received direction packets).map fun ev => (ev, false)) := by
  have hfilter (d : Direction) (sends : List ε) (recvList : List (ε × Bool)) :
      (pairLoop event norm d sends recvList).filter (·.direction = direction) =
        if d = direction then pairLoop event norm d sends recvList else [] := by
    have hall := (sendEvent_pairLoop event norm d sends recvList).2
    split_ifs with hd
    · exact List.filter_eq_self.mpr fun f hf => by simpa using (hall f hf).1.trans hd
    · exact List.filter_eq_nil_iff.mpr fun f hf => by simpa [(hall f hf).1] using hd
  have hboth : ([Direction.clientToServer, .serverToClient].flatMap fun d =>
      pairLoop event norm d (ofDirection event norm .sent d packets)
        ((ofDirection event norm .received d packets).map fun ev => (ev, false))).filter
          (·.direction = direction) =
      pairLoop event norm direction (ofDirection event norm .sent direction packets)
        ((ofDirection event norm .received direction packets).map fun ev => (ev, false)) := by
    simp only [List.flatMap_cons, List.flatMap_nil, List.append_nil, List.filter_append, hfilter]
    cases direction <;> simp
  rw [pairPackets, filter_sortBy, hboth]
  -- The loop goes through the sent packets by time.
  rw [hboth]
  obtain ⟨hsend, hall⟩ := sendEvent_pairLoop event norm direction
    (ofDirection event norm .sent direction packets)
    ((ofDirection event norm .received direction packets).map fun ev => (ev, false))
  have hsorted := pairwise_sortBy norm (packets.filter fun ev =>
    (event ev).kind = .sent && assignDirection (event ev) = direction)
  rw [← ofDirection, ← hsend, List.pairwise_map] at hsorted
  refine hsorted.imp_of_mem fun {f g} hf hg h => ?_
  rwa [(hall f hf).2, (hall g hg).2]

/-! ### Maximal pairing -/

theorem filterMap_recvEvent_flow (run : List (ε × Option ε)) :
    (run.map (flow norm direction)).filterMap PacketFlow.recvEvent = taken run := by
  rw [List.filterMap_map]
  rfl

theorem length_ofDirection (kind : Kind) (direction : Direction) (packets : List ε) :
    (ofDirection event norm kind direction packets).length =
      packets.countP fun ev => (event ev).kind = kind && assignDirection (event ev) =
        direction := by
  rw [List.countP_eq_length_filter]
  exact (perm_sortBy _ _).length_eq

section Maximal

variable [DecidableEq ε]

/-- The received packets of the flows of a direction. -/
theorem recvEvent_filter :
    ((pairPackets event norm packets).filter (·.direction = direction)).filterMap
        PacketFlow.recvEvent =
      taken (assign (sameNo event) (ofDirection event norm .sent direction packets)
        (ofDirection event norm .received direction packets)) := by
  rw [filter_pairPackets, pairLoop_direction, filterMap_recvEvent_flow]

/-- No received packet is in two flows. -/
theorem subperm_pairPackets :
    ((pairPackets event norm packets).filterMap PacketFlow.recvEvent).Subperm
      (packets.filter fun ev => (event ev).kind = .received) := by
  have hperm := (perm_filter_append (fun f : PacketFlow ε => decide (f.direction = .clientToServer))
    (fun f => decide (f.direction = .serverToClient))
    (fun f => by cases f.direction <;> rfl) (pairPackets event norm packets)).filterMap
      PacketFlow.recvEvent
  rw [List.filterMap_append, recvEvent_filter, recvEvent_filter] at hperm
  refine hperm.symm.subperm.trans (List.Subperm.trans ?_
    (perm_ofDirection event norm .received packets).subperm)
  exact (subperm_assign _ _ _).append (subperm_assign _ _ _)

/-- A sent packet has no received one only when all are used. -/
theorem countP_pairPackets :
    (pairPackets event norm packets).countP
        (fun f => f.recvEvent.isSome && f.direction = direction) =
      min (packets.countP fun ev => (event ev).kind = .sent &&
        assignDirection (event ev) = direction) (packets.countP fun ev =>
          (event ev).kind = .received && assignDirection (event ev) = direction) := by
  rw [← length_ofDirection event norm, ← length_ofDirection event norm,
    ← length_taken_assign (sameNo event), ← recvEvent_filter, List.length_filterMap_eq_countP,
    List.countP_filter]

/-- What a sent packet gets, from what those before it in its direction have got. -/
theorem recvEvent_split {direction : Direction} {packets : List ε} {f : PacketFlow ε}
    {done rest : List (PacketFlow ε)}
    (h : (pairPackets event norm packets).filter (·.direction = direction) = done ++ f :: rest) :
    f.recvEvent = choose (sameNo event f.sendEvent)
      ((ofDirection event norm .received direction packets).diff
        (done.filterMap PacketFlow.recvEvent)) := by
  rw [filter_pairPackets, pairLoop_direction] at h
  obtain ⟨done', run, hrun, rfl, hrest⟩ := List.map_eq_append_iff.mp h
  obtain ⟨⟨a, o⟩, rest', rfl, rfl, rfl⟩ := List.map_eq_cons_iff.mp hrest
  rw [filterMap_recvEvent_flow]
  exact assign_split _ hrun

/-- **The pairing is a maximal partial injection.** Each sent packet has one flow. A received packet
is in no more flows than it occurs in the logs. In each direction as many flows have a received
packet as there are sent ones, or received ones if these are fewer. The flows of a direction are
those of its sent packets by time; and when a packet that those before it have left has the number
of the sent packet, the flow has the earliest such packet. All flows are in the order of time. -/
theorem pairPackets_maximal (event : ε → PacketEvent) (norm : ε → ℚ) (packets : List ε) :
    ((pairPackets event norm packets).map PacketFlow.sendEvent).Perm
        (packets.filter fun ev => (event ev).kind = .sent) ∧
      ((pairPackets event norm packets).filterMap PacketFlow.recvEvent).Subperm
        (packets.filter fun ev => (event ev).kind = .received) ∧
      (∀ direction, (pairPackets event norm packets).countP
          (fun f => f.recvEvent.isSome && f.direction = direction) =
        min (packets.countP fun ev =>
            (event ev).kind = .sent && assignDirection (event ev) = direction)
          (packets.countP fun ev =>
            (event ev).kind = .received && assignDirection (event ev) = direction)) ∧
      (∀ direction, ((pairPackets event norm packets).filter (·.direction = direction)).map
          PacketFlow.sendEvent = ofDirection event norm .sent direction packets ∧
        ∀ done f rest, (pairPackets event norm packets).filter (·.direction = direction) =
            done ++ f :: rest →
          (∀ r, f.recvEvent = some r → r ∈ ofDirection event norm .received direction packets) ∧
          ∀ r, ((ofDirection event norm .received direction packets).diff
              (done.filterMap PacketFlow.recvEvent)).find? (sameNo event f.sendEvent) = some r →
            f.recvEvent = some r) ∧
      (pairPackets event norm packets).Pairwise (fun f g => f.normTime ≤ g.normTime) ∧
      ∀ f ∈ pairPackets event norm packets, f.normTime = norm f.sendEvent := by
  refine ⟨perm_pairPackets event norm packets, subperm_pairPackets event norm packets,
    fun direction => countP_pairPackets event norm direction packets, fun direction => ⟨?_, ?_⟩,
    pairwise_sortBy _ _, fun f hf => normTime_pairPackets hf⟩
  · rw [filter_pairPackets]
    exact (sendEvent_pairLoop event norm _ _ _).1
  · intro done f rest h
    have hrecv := recvEvent_split event norm h
    refine ⟨fun r hr => ?_, fun r hr => ?_⟩
    · rw [hrecv] at hr
      exact List.diff_subset _ _ (mem_of_choose hr)
    · rw [hrecv, choose, hr]
      rfl

end Maximal

/-! ### Sound pairing -/

/-- The events are of one packet: of the same direction, number and type. -/
def SamePacket (a b : PacketEvent) : Prop :=
  assignDirection a = assignDirection b ∧ a.packetNo = b.packetNo ∧ a.packetType = b.packetType

instance (a b : PacketEvent) : Decidable (SamePacket a b) := inferInstanceAs (Decidable (_ ∧ _))

/-- The sent packets of a type and direction have different numbers, and so have the received
ones. -/
def UniqueNumbers (packets : List ε) : Prop :=
  packets.Pairwise fun a b => (event a).kind = (event b).kind → ¬ SamePacket (event a) (event b)

instance (packets : List ε) : Decidable (UniqueNumbers event packets) :=
  inferInstanceAs (Decidable (List.Pairwise _ _))

theorem SamePacket.symm {a b : PacketEvent} (h : SamePacket a b) : SamePacket b a :=
  ⟨h.1.symm, h.2.1.symm, h.2.2.symm⟩

theorem SamePacket.trans {a b c : PacketEvent} (h : SamePacket a b) (h' : SamePacket b c) :
    SamePacket a c :=
  ⟨h.1.trans h'.1, h.2.1.trans h'.2.1, h.2.2.trans h'.2.2⟩

variable {event norm}

theorem mem_ofDirection {kind : Kind} {direction : Direction} {packets : List ε} {ev : ε} :
    ev ∈ ofDirection event norm kind direction packets ↔
      ev ∈ packets ∧ (event ev).kind = kind ∧ assignDirection (event ev) = direction := by
  rw [ofDirection, (perm_sortBy _ _).mem_iff, List.mem_filter]
  simp

/-- Of the sent packets of a direction, or of the received ones, no two are the same packet. -/
theorem UniqueNumbers.ofDirection {packets : List ε} (hu : UniqueNumbers event packets)
    (norm : ε → ℚ) (kind : Kind) (direction : Direction) :
    (ofDirection event norm kind direction packets).Pairwise fun a b =>
      ¬ SamePacket (event a) (event b) := by
  have hfilter := hu.filter fun ev =>
    decide ((event ev).kind = kind) && decide (assignDirection (event ev) = direction)
  refine ((perm_sortBy norm _).symm.pairwise (hfilter.imp_of_mem fun {a b} ha hb h => ?_) ?_)
  · simp only [List.mem_filter, Bool.and_eq_true, decide_eq_true_eq] at ha hb
    exact h (ha.2.1.trans hb.2.1.symm)
  · exact fun {a b} h hs => h hs.symm

/-- **The pairing is sound** if and only if, in each direction and by time: the packets that are
sent first, as many as are received, have all been received; and when a packet of the same number
was received before one of them (any packet, if it has no number), then that packet had also been
sent before it. -/
theorem pairPackets_sound_iff (event : ε → PacketEvent) (norm : ε → ℚ) (packets : List ε)
    (hu : UniqueNumbers event packets) :
    (∀ f ∈ pairPackets event norm packets,
        (∀ r, f.recvEvent = some r → r ∈ packets ∧ (event r).kind = .received ∧
          SamePacket (event f.sendEvent) (event r)) ∧
        ((∀ r ∈ packets, (event r).kind = .received →
          ¬ SamePacket (event f.sendEvent) (event r)) → f.recvEvent = none)) ↔
      ∀ direction, InTurn (sameNo event) (fun s r => SamePacket (event s) (event r))
        (ofDirection event norm .sent direction packets)
        (ofDirection event norm .received direction packets) := by
  classical
  have hlike (s r r' : ε) (h : SamePacket (event s) (event r)) (hs : sameNo event s r' = true) :
      sameNo event s r = true := by
    simp only [sameNo, Bool.and_eq_true, decide_eq_true_eq] at hs ⊢
    exact ⟨hs.1, h.2.1.symm⟩
  have hdir (direction : Direction) := assign_sound_iff hlike
    ((hu.ofDirection norm .sent direction).imp fun h b ha hb => h (ha.trans hb.symm))
    ((hu.ofDirection norm .received direction).imp fun h a ha hb => h (ha.symm.trans hb))
  simp only [← hdir]
  constructor
  · intro h direction r hr b hb
    have hf : flow norm direction r ∈ pairPackets event norm packets :=
      mem_pairPackets.mpr ⟨direction, by
        rw [pairLoop_direction]
        exact List.mem_map_of_mem hr⟩
    exact ((h _ hf).1 b hb).2.2
  · intro h f hf
    obtain ⟨direction, hf⟩ := mem_pairPackets.mp hf
    rw [pairLoop_direction] at hf
    obtain ⟨r, hr, rfl⟩ := List.mem_map.mp hf
    have hsound (b : ε) (hb : r.2 = some b) : b ∈ packets ∧ (event b).kind = .received ∧
        SamePacket (event r.1) (event b) := by
      have htaken := (subperm_assign (sameNo event) _ _).subset (List.mem_filterMap.mpr ⟨r, hr, hb⟩)
      obtain ⟨hmem, hkind, -⟩ := mem_ofDirection.mp htaken
      exact ⟨hmem, hkind, h direction r hr b hb⟩
    refine ⟨hsound, fun hnone => Option.eq_none_iff_forall_ne_some.mpr fun b hb => ?_⟩
    obtain ⟨hmem, hkind, hsame⟩ := hsound b hb
    exact hnone b hmem hkind hsame

/-- A packet event at a time. -/
def packetAt (role : Role) (kind : Kind) (timestamp : ℚ) (packetType : String) (packetNo : ℕ) :
    PacketEvent where
  role := role
  kind := kind
  timestamp := timestamp
  packetNo := some packetNo
  packetType := some packetType.toList
  datagram := none
  frames := []
  creditBefore := none
  creditAfter := none
  amplification := none
  creditDelta := none

/-- Two packets that arrive in the order in which they were sent. -/
def inOrder : List PacketEvent :=
  [packetAt .server .sent 0 "Initial" 0, packetAt .server .sent 1 "Handshake" 0,
    packetAt .client .received 2 "Initial" 0, packetAt .client .received 3 "Handshake" 0]

theorem pairPackets_sound_in_order : UniqueNumbers id inOrder ∧
    ∀ f ∈ pairPackets id PacketEvent.timestamp inOrder, ∀ r, f.recvEvent = some r →
      SamePacket f.sendEvent r := by
  have hu : UniqueNumbers id inOrder := by decide
  refine ⟨hu, fun f hf r hr => ?_⟩
  refine (((pairPackets_sound_iff id PacketEvent.timestamp inOrder hu).mpr ?_ f hf).1 r hr).2.2
  rintro (_ | _) before s after hs hlt
  · have hnil : ofDirection id PacketEvent.timestamp .sent .clientToServer inOrder = [] := by decide
    simp [hnil] at hs
  · have hsent : ofDirection id PacketEvent.timestamp .sent .serverToClient inOrder =
        [packetAt .server .sent 0 "Initial" 0, packetAt .server .sent 1 "Handshake" 0] := by
      decide +kernel
    have hrecv : ofDirection id PacketEvent.timestamp .received .serverToClient inOrder =
        [packetAt .client .received 2 "Initial" 0, packetAt .client .received 3 "Handshake" 0] := by
      decide +kernel
    rw [hsent] at hs
    rw [hrecv]
    rcases before with _ | ⟨a, _ | ⟨b, before⟩⟩
    · cases hs
      exact ⟨[], _, _, rfl, by decide, by simp⟩
    · cases hs
      refine ⟨[packetAt .client .received 2 "Initial" 0], _, [], rfl, by decide, ?_⟩
      simp only [List.mem_singleton, forall_eq]
      exact fun _ => ⟨_, rfl, by decide⟩
    · simp at hs

/-- The first Initial packet of the server is lost, and its contents come again in a second one. -/
def lostInitial : List PacketEvent :=
  [packetAt .server .sent 0 "Initial" 0, packetAt .server .sent 1 "Handshake" 0,
    packetAt .server .sent 2 "Initial" 1, packetAt .client .received 3 "Initial" 1,
    packetAt .client .received 4 "Handshake" 0]

/-- The lost packet is paired with the Handshake packet of its number, that one with the second
Initial packet, and the second Initial packet with none. -/
theorem pairPackets_lost_initial : UniqueNumbers id lostInitial ∧
    (pairPackets id PacketEvent.timestamp lostInitial).map
        (fun f => (f.sendEvent.packetType, f.sendEvent.packetNo,
          f.recvEvent.map fun r => (r.packetType, r.packetNo))) =
      [(some "Initial".toList, some 0, some (some "Handshake".toList, some 0)),
        (some "Handshake".toList, some 0, some (some "Initial".toList, some 1)),
        (some "Initial".toList, some 1, none)] := by
  decide +kernel

end PapQuic.Script.Pairing
