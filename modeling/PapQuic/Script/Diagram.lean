import PapQuic.Script.Pairing
import PapQuic.Script.ParseLog
import Mathlib.Data.Prod.Lex

/-! # The order of events in a diagram

`scripts/generate_packet_diagram.py` places the sent packets and the INTERNAL lines of both logs by
their normalised times. The logs show the time modulo 100 seconds, so events on both sides of a
multiple of 100 seconds change places; and without any event of the client nothing is normalised, so
that all times are equal and the INTERNAL lines come first. In all other cases the order is that of
time (`chronological_iff`). Times are exact here: the decimals as they are printed, and sums without
rounding. -/

namespace PapQuic.Script.Diagram

open Lib.Printf Lib.Re Lib.Double Lib.StableSort Lib.TextFile Log.Clock Log.Lines Log.Output
open Script.PacketLine Script.ParseLog Script.Pairing

/-! ### Events -/

/-- `display_ms` in exact numbers, of a clock in milliseconds. -/
def showMs (elapsedMs : ℚ) : ℚ :=
  let integral := ⌊elapsedMs⌋₊
  let fractional := elapsedMs - integral
  (integral % 100000 : ℕ) + fractional

def exactDisplayMs (ticks : ℕ) : ℚ := showMs (ticks / 1000000)

/-- Of what the log computes, only the clock itself is rounded. -/
theorem displayMs_wallclock {ticks : ℕ} (h : ticks < 2 ^ 64) :
    displayMs (quicLogWallclockMs ticks) = showMs (quicLogWallclockMs ticks) := by
  obtain ⟨m, k, hm, hclock, -⟩ := wallclock_eq h
  rw [hclock, displayMs_eq hm, showMs]
  simp only [floor_dyadic, dyadic_sub]
  push_cast
  field_simp

/-- A packet of a log, with the clock when its line was printed. -/
structure TimedPacket extends PacketEvent where
  ticks : ℕ
  shown : timestamp = exactDisplayMs ticks

/-- An INTERNAL line of a log, with the clock when it was printed. -/
structure TimedInternal extends InternalEvent where
  ticks : ℕ
  shown : timestamp = exactDisplayMs ticks

/-- The packets of some lines. -/
def timedPackets (lines : List Line) : List TimedPacket :=
  lines.filterMap fun l => (packetOf l).map fun ev =>
    ⟨{ ev with timestamp := exactDisplayMs l.ticks }, l.ticks, rfl⟩

/-- The INTERNAL lines among them. -/
def timedInternals (lines : List Line) : List TimedInternal :=
  lines.filterMap fun l => (internalOf l).map fun ev =>
    ⟨{ ev with timestamp := exactDisplayMs l.ticks }, l.ticks, rfl⟩

/-- **What `parse_log` reads of a log** are these events, but for the rounding of their times. -/
theorem timed_parseLog {log : List Line} (h : ∀ l ∈ log, IsLine LineChar l) (role : Role) :
    let events := parseLog (writeLines (log.map Line.text)) role
    let lines := unpadded (ofRole role log)
    ((timedPackets lines).map fun ev => { ev.toPacketEvent with timestamp := 0 }) =
        (events.packets.map fun ev => { ev with timestamp := 0 }) ∧
      ((timedInternals lines).map fun ev => { ev.toInternalEvent with timestamp := 0 }) =
        events.internals.map fun ev => { ev with timestamp := 0 } := by
  intro events lines
  have hevents : events = eventsOf lines := parseLog_log h role
  rw [hevents]
  simp only [timedPackets, timedInternals, eventsOf, List.map_filterMap, Option.map_map]
  exact ⟨rfl, rfl⟩

/-! ### The script -/

/-- `float` of digits with a point between them, as an exact decimal. -/
def exactFloat (s : Text) : ℚ :=
  let whole := s.takeWhile (· ≠ '.')
  let fraction := (s.dropWhile (· ≠ '.')).drop 1
  ofDec (whole ++ fraction) / 10 ^ fraction.length

/-- `CLIENT_HELLO_BUILD_RE`. -/
def clientHelloBuildRe : Regex :=
  .seq (litIgnoreCase "clientHelloBuild=".toList)
    (.seq (.group (.rep (fun c => isDec c || c = '.') 1)) (litIgnoreCase "ms".toList))

/-- `find_client_hello_build`. -/
def findClientHelloBuild (internals : List TimedInternal) : Option ℚ :=
  internals.findSome? fun ev =>
    if ev.role = .client ∧ "CLIENT HELLO BUILD".toList <:+: ev.label.map Char.toUpper then
      match search clientHelloBuildRe ev.body with
      | some (value :: _, _) => some (exactFloat value)
      | _ => none
    else none

/-- The time stamps of the client. -/
def clientEvents (packets : List TimedPacket) (internals : List TimedInternal) : List ℚ :=
  (packets.filter (·.role = .client)).map (·.timestamp) ++
    (internals.filter (·.role = .client)).map (·.timestamp)

/-- The offset of `normalize_times`; `none` when it returns at once. -/
def normOffset (packets : List TimedPacket) (internals : List TimedInternal)
    (clientHelloValue : Option ℚ) : Option ℚ :=
  (clientEvents packets internals).min?.map fun t0 => clientHelloValue.getD 0 - t0

/-- The `norm_time` that `normalize_times` leaves. -/
def normTime (offset : Option ℚ) (timestamp : ℚ) : ℚ :=
  match offset with
  | none => 0
  | some offset => timestamp + offset

/-- A block of `group_internals`: the role and the lines are those of the event. -/
structure Block where
  event : TimedInternal
  normTime : ℚ

/-- `group_internals`. -/
def groupInternals (norm : ℚ → ℚ) (internals : List TimedInternal) : List Block :=
  sortBy Block.normTime ([Role.client, .server].flatMap fun role =>
    (sortBy (fun ev => norm ev.timestamp) (internals.filter (·.role = role))).map fun ev =>
      ⟨ev, norm ev.timestamp⟩)

/-- An entry of `timeline`. -/
inductive Entry
  | flow (flow : PacketFlow TimedPacket)
  | note (block : Block)

def Entry.time : Entry → ℚ
  | .flow f => f.normTime
  | .note b => b.normTime

/-- The clock when the line of an entry was printed. -/
def Entry.ticks : Entry → ℕ
  | .flow f => f.sendEvent.ticks
  | .note b => b.event.ticks

/-- `round(x, 6)`. -/
def round6 (x : ℚ) : ℚ := roundEven (x * 10 ^ 6) / 10 ^ 6

/-- The key of the timeline. -/
def Entry.key (e : Entry) : ℚ ×ₗ ℕ :=
  toLex (round6 e.time, match e with | .note _ => 0 | .flow _ => 1)

/-- The timeline of `build_mermaid_spec`. -/
def timeline (flows : List (PacketFlow TimedPacket)) (blocks : List Block) : List Entry :=
  sortBy Entry.key (flows.map .flow ++ blocks.map .note)

/-- The entries of the diagram of two logs. -/
def diagram (packets : List TimedPacket) (internals : List TimedInternal) : List Entry :=
  let norm := normTime (normOffset packets internals (findClientHelloBuild internals))
  timeline (pairPackets TimedPacket.toPacketEvent (norm ·.timestamp) packets)
    (groupInternals norm internals)

/-! ### What is placed -/

/-- The clock at the events that have a place in the diagram. -/
def placed (packets : List TimedPacket) (internals : List TimedInternal) : List ℕ :=
  internals.map (·.ticks) ++ (packets.filter (·.kind = .sent)).map (·.ticks)

variable {internals : List TimedInternal}

theorem normTime_groupInternals {norm : ℚ → ℚ} {b : Block}
    (hb : b ∈ groupInternals norm internals) : b.normTime = norm b.event.timestamp := by
  obtain ⟨role, -, hb⟩ := List.mem_flatMap.mp ((perm_sortBy _ _).mem_iff.mp hb)
  obtain ⟨ev, -, rfl⟩ := List.mem_map.mp hb
  rfl

theorem perm_groupInternals (norm : ℚ → ℚ) (internals : List TimedInternal) :
    ((groupInternals norm internals).map Block.event).Perm internals := by
  refine ((perm_sortBy _ _).map _).trans ?_
  simp only [List.flatMap_cons, List.flatMap_nil, List.append_nil, List.map_append, List.map_map]
  have hid : Block.event ∘ (fun ev => Block.mk ev (norm ev.timestamp)) = id := rfl
  rw [hid, List.map_id, List.map_id]
  refine ((perm_sortBy _ _).append (perm_sortBy _ _)).trans ?_
  exact perm_filter_append _ _ (fun ev => by cases ev.role <;> rfl) internals

/-- **Every sent packet and every INTERNAL line has its place.** -/
theorem perm_diagram (packets : List TimedPacket) (internals : List TimedInternal) :
    ((diagram packets internals).map Entry.ticks).Perm (placed packets internals) := by
  unfold diagram
  dsimp only
  generalize normTime (normOffset packets internals (findClientHelloBuild internals)) = norm
  refine ((perm_sortBy _ _).map _).trans ?_
  rw [List.map_append, List.map_map, List.map_map]
  refine List.perm_append_comm.trans (List.Perm.append ?_ ?_)
  · have h := (perm_groupInternals norm internals).map (·.ticks)
    rwa [List.map_map] at h
  · have h := (perm_pairPackets TimedPacket.toPacketEvent (norm ·.timestamp) packets).map (·.ticks)
    rwa [List.map_map] at h

/-! ### Times -/

/-- Nanoseconds until the shown time starts again. -/
def window : ℕ := 10 ^ 11

/-- The shown time is that of the clock modulo 100 seconds. -/
theorem exactDisplayMs_eq (ticks : ℕ) : exactDisplayMs ticks = (ticks % window : ℕ) / 10 ^ 6 := by
  have hfloor : ⌊(ticks / 1000000 : ℚ)⌋₊ = ticks / 1000000 := by
    have h := Nat.floor_div_eq_div (K := ℚ) ticks 1000000
    push_cast at h
    exact h
  have hsum : ticks % window + 1000000 * (ticks / 1000000) =
      1000000 * (ticks / 1000000 % 100000) + ticks := by
    unfold window
    omega
  have hq : ((ticks % window : ℕ) : ℚ) + 1000000 * (ticks / 1000000 : ℕ) =
      1000000 * (ticks / 1000000 % 100000 : ℕ) + ticks := by exact_mod_cast hsum
  simp only [exactDisplayMs, showMs, hfloor]
  linarith

theorem round6_intCast (z : ℤ) : round6 (z / 10 ^ 6) = z / 10 ^ 6 := by
  rw [round6, div_mul_cancel₀ _ (by positivity), roundEven_intCast]

variable {packets : List TimedPacket}

/-- The time of an entry: a whole number of nanoseconds from the shown time. -/
theorem time_diagram {offset : ℚ}
    (ho : normOffset packets internals (findClientHelloBuild internals) = some offset) :
    ∀ e ∈ diagram packets internals, e.time = exactDisplayMs e.ticks + offset := by
  intro e he
  have he := (perm_sortBy _ _).mem_iff.mp he
  rw [ho] at he
  rcases List.mem_append.mp he with he | he
  · obtain ⟨f, hf, rfl⟩ := List.mem_map.mp he
    change f.normTime = _
    rw [normTime_pairPackets hf, f.sendEvent.shown]
    rfl
  · obtain ⟨b, hb, rfl⟩ := List.mem_map.mp he
    change b.normTime = _
    rw [normTime_groupInternals hb, b.event.shown]
    rfl

/-- The offset is a whole number of nanoseconds. -/
theorem normOffset_eq {value : Option ℚ} {offset : ℚ}
    (hvalue : ∀ v ∈ value, ∃ k : ℕ, v = k / 1000)
    (ho : normOffset packets internals value = some offset) : ∃ z : ℤ, offset = z / 10 ^ 6 := by
  obtain ⟨t0, ht0, rfl⟩ := Option.map_eq_some_iff.mp ho
  obtain ⟨ticks, rfl⟩ : ∃ ticks, t0 = exactDisplayMs ticks := by
    rcases List.mem_append.mp (List.min?_mem ht0) with h | h
    · obtain ⟨ev, -, rfl⟩ := List.mem_map.mp h
      exact ⟨_, ev.shown⟩
    · obtain ⟨ev, -, rfl⟩ := List.mem_map.mp h
      exact ⟨_, ev.shown⟩
  rw [exactDisplayMs_eq]
  generalize ticks % window = n
  rcases value with _ | v
  · refine ⟨-n, ?_⟩
    push_cast [Option.getD_none]
    ring
  · obtain ⟨k, rfl⟩ := hvalue v rfl
    refine ⟨k * 1000 - n, ?_⟩
    push_cast [Option.getD_some]
    ring

/-- With an event of the client, the entries are in the order of the shown times. -/
theorem sorted_diagram {offset : ℚ}
    (hvalue : ∀ v ∈ findClientHelloBuild internals, ∃ k : ℕ, v = k / 1000)
    (ho : normOffset packets internals (findClientHelloBuild internals) = some offset) :
    (diagram packets internals).Pairwise fun a b => a.ticks % window ≤ b.ticks % window := by
  obtain ⟨z, hz⟩ := normOffset_eq hvalue ho
  have hround : ∀ e ∈ diagram packets internals,
      round6 e.time = ((e.ticks % window : ℕ) + z : ℤ) / 10 ^ 6 := by
    intro e he
    have htime : e.time = ((e.ticks % window : ℕ) + z : ℤ) / 10 ^ 6 := by
      rw [time_diagram ho e he, exactDisplayMs_eq, hz]
      generalize e.ticks % window = n
      push_cast
      ring
    rw [htime, round6_intCast]
  have hsorted : (diagram packets internals).Pairwise fun a b => a.key ≤ b.key :=
    pairwise_sortBy _ _
  refine hsorted.imp_of_mem fun {a b} ha hb hab => ?_
  have hle : round6 a.time ≤ round6 b.time := by
    rcases Prod.Lex.le_iff.mp hab with h | h
    · exact h.le
    · exact h.1.le
  rw [hround a ha, hround b hb, div_le_div_iff_of_pos_right (by positivity)] at hle
  have hint : ((a.ticks % window : ℕ) + z : ℤ) ≤ (b.ticks % window : ℕ) + z := by exact_mod_cast hle
  omega

/-! ### Without a client -/

theorem sortBy_normTime_none {α : Type*} (f : α → ℚ) (l : List α) :
    sortBy (fun ev => normTime none (f ev)) l = l :=
  sortBy_const (k := 0) fun _ _ => rfl

theorem pairPackets_of_server (hp : ∀ ev ∈ packets, ev.role = .server) :
    (pairPackets TimedPacket.toPacketEvent (normTime none ·.timestamp) packets).map
        PacketFlow.sendEvent =
      packets.filter (·.kind = .sent) := by
  have hto : packets.filter
      (fun ev => ev.kind = .sent && assignDirection ev.toPacketEvent = .clientToServer) = [] := by
    refine List.filter_eq_nil_iff.mpr fun ev hev => ?_
    simp only [assignDirection, hp ev hev]
    cases ev.kind <;> simp
  have hfrom : packets.filter
      (fun ev => ev.kind = .sent && assignDirection ev.toPacketEvent = .serverToClient) =
      packets.filter (·.kind = .sent) := by
    refine List.filter_congr fun ev hev => ?_
    simp only [assignDirection, hp ev hev]
    cases ev.kind <;> simp
  rw [pairPackets, sortBy_const (k := 0)]
  · simp only [List.flatMap_cons, List.flatMap_nil, List.append_nil, List.map_append,
      (sendEvent_pairLoop _ _ _ _ _).1, ofDirection, hto, hfrom, sortBy_normTime_none,
      List.nil_append]
  · intro f hf
    obtain ⟨direction, -, hf⟩ := List.mem_flatMap.mp hf
    exact ((sendEvent_pairLoop _ _ _ _ _).2 f hf).2

theorem groupInternals_of_server (hi : ∀ ev ∈ internals, ev.role = .server) :
    (groupInternals (normTime none) internals).map Block.event = internals := by
  have hclient : internals.filter (·.role = .client) = [] :=
    List.filter_eq_nil_iff.mpr fun ev hev => by simp [hi ev hev]
  have hserver : internals.filter (·.role = .server) = internals :=
    List.filter_eq_self.mpr fun ev hev => by simp [hi ev hev]
  rw [groupInternals, sortBy_const (k := 0)]
  · simp only [List.flatMap_cons, List.flatMap_nil, List.append_nil, hclient, hserver,
      sortBy_normTime_none, List.map_nil, List.nil_append, List.map_map]
    exact List.map_id _
  · intro b hb
    obtain ⟨role, -, hb⟩ := List.mem_flatMap.mp hb
    obtain ⟨ev, -, rfl⟩ := List.mem_map.mp hb
    rfl

/-- Without an event of the client, the INTERNAL lines come first, and all is in the order of the
logs. -/
theorem diagram_of_no_client (h : clientEvents packets internals = []) :
    (diagram packets internals).map Entry.ticks = placed packets internals := by
  obtain ⟨hp, hi⟩ := List.append_eq_nil_iff.mp h
  have hserver (role : Role) (hr : ¬ (decide (role = .client) = true)) : role = .server := by
    cases role
    · exact absurd rfl hr
    · rfl
  have hp : ∀ ev ∈ packets, ev.role = .server := fun ev hev =>
    hserver _ (List.filter_eq_nil_iff.mp (List.map_eq_nil_iff.mp hp) ev hev)
  have hi : ∀ ev ∈ internals, ev.role = .server := fun ev hev =>
    hserver _ (List.filter_eq_nil_iff.mp (List.map_eq_nil_iff.mp hi) ev hev)
  have ho : normOffset packets internals (findClientHelloBuild internals) = none := by
    rw [normOffset, h]
    rfl
  have hkey : (toLex (round6 0, 0) : ℚ ×ₗ ℕ) < toLex (round6 0, 1) :=
    Prod.Lex.lt_iff.mpr (.inr ⟨rfl, Nat.one_pos⟩)
  rw [diagram, ho, timeline, sortBy_append_swap hkey, List.map_append, placed]
  · congr 1
    · conv_rhs => rw [← groupInternals_of_server hi, List.map_map]
      rw [List.map_map]
      rfl
    · conv_rhs => rw [← pairPackets_of_server hp, List.map_map]
      rw [List.map_map]
      rfl
  · intro e he
    obtain ⟨f, hf, rfl⟩ := List.mem_map.mp he
    change toLex (round6 f.normTime, 1) = _
    rw [normTime_pairPackets hf]
    rfl
  · intro e he
    obtain ⟨b, hb, rfl⟩ := List.mem_map.mp he
    change toLex (round6 b.normTime, 0) = _
    rw [normTime_groupInternals hb]
    rfl

/-! ### The order -/

/-- **Chronology.** Every event has its place, and in a run of less than 100 seconds the places are
in the order of time if and only if: with an event of the client, no multiple of 100 seconds of the
clock lies between two events; without one, the server's INTERNAL lines followed by its sent packets
are in the order of time. The value of CLIENT HELLO BUILD is printed with three digits. -/
theorem chronological_iff {packets : List TimedPacket} {internals : List TimedInternal}
    (hvalue : ∀ v ∈ findClientHelloBuild internals, ∃ k : ℕ, v = k / 1000)
    (hrun : ∀ a ∈ placed packets internals, ∀ b ∈ placed packets internals, b < a + window) :
    ((diagram packets internals).map Entry.ticks).Perm (placed packets internals) ∧
      ((diagram packets internals).Pairwise (fun a b => a.ticks ≤ b.ticks) ↔
        if clientEvents packets internals = [] then (placed packets internals).Pairwise (· ≤ ·)
        else ∀ a ∈ placed packets internals, ∀ b ∈ placed packets internals,
          a / window = b / window) := by
  have hperm := perm_diagram packets internals
  refine ⟨hperm, ?_⟩
  by_cases hc : clientEvents packets internals = []
  · rw [if_pos hc, ← diagram_of_no_client hc, List.pairwise_map]
  · rw [if_neg hc]
    obtain ⟨offset, ho⟩ : ∃ offset,
        normOffset packets internals (findClientHelloBuild internals) = some offset := by
      rcases hm : (clientEvents packets internals).min? with _ | t0
      · exact absurd (List.min?_eq_none_iff.mp hm) hc
      · exact ⟨_, by rw [normOffset, hm]; rfl⟩
    have hsorted := sorted_diagram hvalue ho
    constructor
    · intro hchron a ha b hb
      obtain ⟨x, hx, rfl⟩ := List.mem_map.mp (hperm.mem_iff.mpr ha)
      obtain ⟨y, hy, rfl⟩ := List.mem_map.mp (hperm.mem_iff.mpr hb)
      have h1 := hrun _ ha _ hb
      have h2 := hrun _ hb _ ha
      -- Of two events in different windows the later one shows the smaller time.
      by_contra hne
      have hxy := le_of_pairwise hchron hsorted hx hy
      have hyx := le_of_pairwise hchron hsorted hy hx
      unfold window at *
      omega
    · intro hsame
      refine hsorted.imp_of_mem fun {x y} hx hy hxy => ?_
      have hw := hsame x.ticks (hperm.mem_iff.mp (List.mem_map_of_mem hx)) y.ticks
        (hperm.mem_iff.mp (List.mem_map_of_mem hy))
      have hdx := Nat.div_add_mod x.ticks window
      have hdy := Nat.div_add_mod y.ticks window
      rw [hw] at hdx
      omega

/-- A packet that the client sends at a time. -/
def sentAt (ticks : ℕ) : TimedPacket where
  role := .client
  kind := .sent
  timestamp := exactDisplayMs ticks
  packetNo := none
  packetType := none
  datagram := none
  frames := []
  creditBefore := none
  creditAfter := none
  amplification := none
  creditDelta := none
  ticks := ticks
  shown := rfl

/-- Two packets within 100 seconds. -/
theorem chronological_iff_two :
    (diagram [sentAt 1700000000500000000, sentAt 1700000001500000000] []).Pairwise
      fun a b => a.ticks ≤ b.ticks := by
  have hplaced : placed [sentAt 1700000000500000000, sentAt 1700000001500000000] [] =
      [1700000000500000000, 1700000001500000000] := rfl
  refine (@chronological_iff [sentAt 1700000000500000000, sentAt 1700000001500000000] []
    (fun v hv => by cases hv) ?_).2.mpr ?_
  · rw [hplaced]
    decide
  · rw [if_neg (by simp [clientEvents, sentAt]), hplaced]
    decide

/-- Two packets around a multiple of 100 seconds: the second one comes first. -/
theorem chronological_wrapped :
    (diagram [sentAt 1699999999500000000, sentAt 1700000000500000000] []).map Entry.ticks =
      [1700000000500000000, 1699999999500000000] := by
  decide +kernel

end PapQuic.Script.Diagram
