import Mathlib.Data.Rat.Defs
import Mathlib.Algebra.Order.Ring.Rat
import Mathlib.Order.OrderDual
import PapQuic.Lib.DecimalOrder
import PapQuic.Lib.Re
import PapQuic.Lib.StableSort
import PapQuic.Lib.Substring
import PapQuic.Script.Algorithms

/-! # Looking up runs

A run of `scripts/run_benchmarks.py` writes its logs to a directory whose name has the mode and the
QUIC mode in it. `find_latest_run` of `scripts/generate_packet_diagram.py` searches these names for
texts, and `find_client_log` takes the last log in alphabetical order.

Both searches can go wrong: `ALGORITHMS-SET-PQC` is also in the names of the mode `pqc-level`, a
QUIC mode is found in all numbers it begins, and `iteration_1000.log` comes before
`iteration_999.log`. What has to be excluded is said by `lookup_iff`. -/

namespace PapQuic.Script.RunLookup

open Lib.Printf Lib.Re Lib.DecimalOrder Lib.StableSort Lib.Substring Script.Algorithms

/-! ### The names of runs -/

/-- `PRINT_MODE_CHOICES`. -/
inductive PrintMode
  | benchmark
  | debug
  | packet
  deriving DecidableEq, Repr

def PrintMode.text : PrintMode → Text
  | .benchmark => "benchmark".toList
  | .debug => "debug".toList
  | .packet => "packet".toList

/-- `LOSS_PROFILE_CHOICES`, in per cent or `bursty`. -/
inductive LossProfile
  | zero
  | tenth
  | half
  | one
  | two
  | five
  | ten
  | fifteen
  | twenty
  | twentyFive
  | thirty
  | bursty
  deriving DecidableEq, Repr

def LossProfile.key : LossProfile → Text
  | .zero => "0".toList
  | .tenth => "0.1".toList
  | .half => "0.5".toList
  | .one => "1".toList
  | .two => "2".toList
  | .five => "5".toList
  | .ten => "10".toList
  | .fifteen => "15".toList
  | .twenty => "20".toList
  | .twentyFive => "25".toList
  | .thirty => "30".toList
  | .bursty => "bursty".toList

structure Timestamp where
  day : ℕ
  month : ℕ
  year : ℕ
  hour : ℕ
  minute : ℕ
  second : ℕ
  deriving DecidableEq, Repr

/-- The arguments of `build_results_directory`. -/
structure RunArgs where
  mode : Mode
  printMode : PrintMode
  quicMode : ℤ
  lossProfile : LossProfile
  timestamp : Timestamp
  deriving DecidableEq, Repr

/-- `str.upper` on texts in ASCII. -/
def upper (s : Text) : Text := s.map Char.toUpper

/-- An integer in decimal. -/
def signed (n : ℤ) : Text := if n < 0 then '-' :: dec n.natAbs else dec n.natAbs

/-- `_format_loss_segment`. -/
def formatLossSegment (value : Text) : Text :=
  let cleaned := strip (value.filter (· ≠ '%'))
  if cleaned = [] then "0".toList else cleaned

def dateFragment (ts : Timestamp) : Text :=
  zeroPad 2 ts.day ++ "-".toList ++ zeroPad 2 ts.month ++ "-".toList ++ zeroPad 4 ts.year

def timeFragment (ts : Timestamp) : Text :=
  zeroPad 2 ts.hour ++ "H".toList ++ zeroPad 2 ts.minute ++ "M".toList ++ zeroPad 2 ts.second ++
    "S".toList

/-- `build_results_directory`, the name below the base directory. -/
def buildResultsDirectory (args : RunArgs) : Text :=
  upper args.printMode.text ++ "-QUIC-OPTION-".toList ++ signed args.quicMode ++ "_".toList ++
    "ALGORITHMS-SET-".toList ++ upper args.mode.text ++ "_".toList ++
    "LOSS-PROFILE-".toList ++ formatLossSegment args.lossProfile.key ++ "_".toList ++
    dateFragment args.timestamp ++ "_".toList ++ timeFragment args.timestamp

/-- The log of an iteration, as `run_benchmark` names it. -/
def iterationLog (iteration : ℕ) : Text :=
  "iteration_".toList ++ (zeroPad 3 iteration ++ ".log".toList)

/-! ### The lookup -/

/-- An entry below `benchmarks`: the names in `raw_logs/<combo>`, if this is a directory, and
whether `raw_logs_server/<combo>/server.log` is a file. -/
structure Entry where
  name : Text
  isDir : Bool
  mtime : ℚ
  rawLogs : Text → Option (List Text)
  serverLog : Text → Bool

/-- The pattern `iteration_*.log`. -/
def isIterationLog (name : Text) : Bool :=
  "iteration_".toList <+: name ∧ ".log".toList <:+ name ∧ 14 ≤ name.length

/-- `find_client_log`, the name of the log. -/
def findClientLog (runDir : Entry) (combo : Text) : Option Text :=
  match runDir.rawLogs combo with
  | none => none
  | some files => (sortBy id (files.filter isIterationLog)).getLast?

/-- `find_server_log`, the name of the log. -/
def findServerLog (runDir : Entry) (combo : Text) : Option Text :=
  if runDir.serverLog combo then some "server.log".toList else none

/-- What the loop of `find_latest_run` keeps. -/
def isCandidate (combo : Text) (mode : Option Text) (quicMode : Option ℤ) (entry : Entry) : Bool :=
  entry.isDir ∧ "PACKET-".toList <+: entry.name ∧
    (mode.getD [] ≠ [] → "ALGORITHMS-SET-".toList ++ upper (mode.getD []) <:+: upper entry.name) ∧
    (∀ q ∈ quicMode, "QUIC-OPTION-".toList ++ signed q <:+: upper entry.name) ∧
    (findClientLog entry combo).isSome ∧ (findServerLog entry combo).isSome

/-- `find_latest_run`, with the entries of `benchmarks` if this is a directory. -/
def findLatestRun (benchRoot : Option (List Entry)) (combo : Text) (mode : Option Text)
    (quicMode : Option ℤ) : Option Entry :=
  match benchRoot with
  | none => none
  | some entries =>
    (sortBy (fun entry => OrderDual.toDual entry.mtime)
      (entries.filter (isCandidate combo mode quicMode))).head?

/-! ### Finding texts in names -/

variable {c : Char}

theorem not_mem_upper {s : Text} (h : ∀ d ∈ s, d.toUpper ≠ c) : c ∉ upper s := by
  intro hm
  obtain ⟨d, hd, he⟩ := List.mem_map.mp hm
  exact h d hd he

theorem isDec_of_mem_zeroPad {w n : ℕ} (h : c ∈ zeroPad w n) : isDec c = true := by
  rcases List.mem_append.mp h with h | h
  · rw [(List.mem_replicate.mp h).2]
    rfl
  · exact isDec_of_mem_dec h

theorem mem_signed {n : ℤ} (h : c ∈ signed n) : c = '-' ∨ isDec c = true := by
  unfold signed at h
  split_ifs at h
  · rcases List.mem_cons.mp h with rfl | h
    · exact .inl rfl
    · exact .inr (isDec_of_mem_dec h)
  · exact .inr (isDec_of_mem_dec h)

/-- Characters of numbers, dates and times. -/
def isStamp (c : Char) : Bool := c ∈ "0123456789-HMS_".toList

theorem isStamp_of_isDec (h : isDec c = true) : isStamp c = true :=
  (by decide : ∀ c ∈ "0123456789".toList, isStamp c = true) c (mem_digits h)

theorem toUpper_of_isStamp (h : isStamp c = true) : c.toUpper = c :=
  (by decide : ∀ c ∈ "0123456789-HMS_".toList, c.toUpper = c) c (of_decide_eq_true h)

theorem isStamp_signed {n : ℤ} (h : c ∈ signed n) : isStamp c = true := by
  rcases mem_signed h with rfl | h
  · decide
  · exact isStamp_of_isDec h

theorem upper_signed (n : ℤ) : upper (signed n) = signed n := by
  conv_rhs => rw [← List.map_id (signed n)]
  exact List.map_congr_left fun c hc => toUpper_of_isStamp (isStamp_signed hc)

/-- What follows the mode in a name. -/
def afterMode (args : RunArgs) : Text :=
  "LOSS-PROFILE-".toList ++ formatLossSegment args.lossProfile.key ++ "_".toList ++
    dateFragment args.timestamp ++ "_".toList ++ timeFragment args.timestamp

theorem isStamp_dateFragment {ts : Timestamp} (h : c ∈ dateFragment ts) :
    isStamp c = true := by
  simp only [dateFragment, List.mem_append] at h
  rcases h with (((h | h) | h) | h) | h
  · exact isStamp_of_isDec (isDec_of_mem_zeroPad h)
  · exact (by decide : ∀ c ∈ "-".toList, isStamp c = true) c h
  · exact isStamp_of_isDec (isDec_of_mem_zeroPad h)
  · exact (by decide : ∀ c ∈ "-".toList, isStamp c = true) c h
  · exact isStamp_of_isDec (isDec_of_mem_zeroPad h)

theorem isStamp_timeFragment {ts : Timestamp} (h : c ∈ timeFragment ts) :
    isStamp c = true := by
  simp only [timeFragment, List.mem_append] at h
  rcases h with ((((h | h) | h) | h) | h) | h
  · exact isStamp_of_isDec (isDec_of_mem_zeroPad h)
  · exact (by decide : ∀ c ∈ "H".toList, isStamp c = true) c h
  · exact isStamp_of_isDec (isDec_of_mem_zeroPad h)
  · exact (by decide : ∀ c ∈ "M".toList, isStamp c = true) c h
  · exact isStamp_of_isDec (isDec_of_mem_zeroPad h)
  · exact (by decide : ∀ c ∈ "S".toList, isStamp c = true) c h

/-- Neither `Q` nor `G` follows the mode. -/
theorem not_mem_afterMode (args : RunArgs) (hc : c ∈ "QG".toList) :
    c ∉ upper (afterMode args) := by
  have hstamp : ∀ d, isStamp d = true → d.toUpper ≠ c := by
    intro d hd he
    rw [toUpper_of_isStamp hd] at he
    subst he
    exact (by decide : ∀ c ∈ "QG".toList, isStamp c ≠ true) d hc hd
  have hloss : ∀ d ∈ "LOSS-PROFILE-".toList ++ formatLossSegment args.lossProfile.key ++ "_".toList,
      ∀ c ∈ "QG".toList, d.toUpper ≠ c := by
    cases args.lossProfile <;> decide +kernel
  refine not_mem_upper fun d hd => ?_
  rcases List.mem_append.mp hd with hd | h
  · rcases List.mem_append.mp hd with hd | h
    · rcases List.mem_append.mp hd with hd | h
      · exact hloss d hd c hc
      · exact hstamp d (isStamp_dateFragment h)
    · exact hstamp d ((by decide : ∀ c ∈ "_".toList, isStamp c = true) d h)
  · exact hstamp d (isStamp_timeFragment h)

/-- Regrouping the parts of a name. -/
theorem name_shape (a b c d e f g h i j k l m : Text) :
    a ++ b ++ c ++ d ++ e ++ f ++ g ++ h ++ i ++ j ++ k ++ l ++ m =
      (a ++ b) ++ (c ++ (d ++ (e ++ (f ++ (g ++ (h ++ i ++ j ++ k ++ l ++ m)))))) := by
  simp

theorem buildResultsDirectory_eq (args : RunArgs) : buildResultsDirectory args =
    (upper args.printMode.text ++ "-QUIC-OPTION-".toList) ++ (signed args.quicMode ++ ("_".toList ++
      ("ALGORITHMS-SET-".toList ++ (upper args.mode.text ++ ("_".toList ++ afterMode args))))) :=
  name_shape ..

/-- **The name of a run in packet mode**, in upper case. -/
theorem upper_name {args : RunArgs} (h : args.printMode = .packet) :
    upper (buildResultsDirectory args) =
      ("PACKET-".toList ++ 'Q' :: ("UIC-OPTION-".toList ++ signed args.quicMode)) ++ '_' ::
        (("ALGORITHMS-SET-".toList ++ upper args.mode.text) ++ '_' :: upper (afterMode args)) := by
  have hmode : upper (upper args.mode.text) = upper args.mode.text := by
    cases args.mode <;> decide +kernel
  have hhead : upper (upper args.printMode.text ++ "-QUIC-OPTION-".toList) =
      "PACKET-".toList ++ 'Q' :: "UIC-OPTION-".toList := by
    rw [h]
    decide +kernel
  have happend : ∀ s t, upper (s ++ t) = upper s ++ upper t := fun s t => List.map_append
  have hsep : upper "_".toList = ['_'] := by decide +kernel
  have hset : upper "ALGORITHMS-SET-".toList = "ALGORITHMS-SET-".toList := by decide +kernel
  rw [buildResultsDirectory_eq, happend, hhead, happend, happend, happend, happend, happend,
    upper_signed, hmode, hsep, hset]
  simp only [List.append_assoc, List.cons_append, List.nil_append]

/-- **Searching for a mode** finds the names in which it begins what follows `ALGORITHMS-SET-`. -/
theorem mode_infix_iff {args : RunArgs} (h : args.printMode = .packet) (mode : Text) :
    "ALGORITHMS-SET-".toList ++ upper mode <:+: upper (buildResultsDirectory args) ↔
      upper mode <+: upper args.mode.text ++ '_' :: upper (afterMode args) := by
  -- the only `G` of the name is that of `ALGORITHMS`
  have hbefore : 'G' ∉ "PACKET-".toList ++ 'Q' :: ("UIC-OPTION-".toList ++ signed args.quicMode) ++
      "_AL".toList := by
    simp only [List.mem_append, List.mem_cons, not_or]
    exact ⟨⟨by decide, by decide, by decide, fun hm => absurd (isStamp_signed hm) (by decide)⟩,
      by decide⟩
  have hmode : 'G' ∉ upper args.mode.text := by cases args.mode <;> decide +kernel
  have hafter : 'G' ∉ "ORITHMS-SET-".toList ++
      (upper args.mode.text ++ '_' :: upper (afterMode args)) := by
    simp only [List.mem_append, List.mem_cons, not_or]
    exact ⟨by decide, hmode, by decide, not_mem_afterMode args (by decide)⟩
  have hname : upper (buildResultsDirectory args) =
      ("PACKET-".toList ++ 'Q' :: ("UIC-OPTION-".toList ++ signed args.quicMode) ++ "_AL".toList) ++
        'G' :: ("ORITHMS-SET-".toList ++
          (upper args.mode.text ++ '_' :: upper (afterMode args))) := by
    rw [upper_name h]
    simp
  have htoken : "ALGORITHMS-SET-".toList ++ upper mode =
      "AL".toList ++ 'G' :: ("ORITHMS-SET-".toList ++ upper mode) := rfl
  rw [hname, htoken, append_cons_infix_iff hbefore hafter, List.prefix_append_right_inj]
  exact and_iff_right ⟨"PACKET-".toList ++ 'Q' :: ("UIC-OPTION-".toList ++ signed args.quicMode) ++
    ['_'], by simp⟩

/-- **Searching for a QUIC mode** finds the numbers that begin with it. -/
theorem quic_infix_iff {args : RunArgs} (h : args.printMode = .packet) (q : ℤ) :
    "QUIC-OPTION-".toList ++ signed q <:+: upper (buildResultsDirectory args) ↔
      signed q <+: signed args.quicMode := by
  have htoken : "QUIC-OPTION-".toList ++ signed q = 'Q' :: ("UIC-OPTION-".toList ++ signed q) := rfl
  have hnot : ∀ {c : Char} {n : ℤ}, c ∉ "UIC-OPTION-".toList → c ≠ '-' → isDec c = false →
      c ∉ "UIC-OPTION-".toList ++ signed n := by
    intro c n hlit hminus hdec hm
    rcases List.mem_append.mp hm with hm | hm
    · exact hlit hm
    · rcases mem_signed hm with hm | hm
      · exact hminus hm
      · exact absurd hm (by simp [hdec])
  have hsep : '_' ∉ 'Q' :: ("UIC-OPTION-".toList ++ signed q) := by
    rw [List.mem_cons, not_or]
    exact ⟨by decide, hnot (by decide) (by decide) (by decide)⟩
  have hset : ¬ 'Q' :: ("UIC-OPTION-".toList ++ signed q) <:+:
      "ALGORITHMS-SET-".toList ++ upper args.mode.text := by
    intro hin
    have hu : 'U' ∈ "ALGORITHMS-SET-".toList ++ upper args.mode.text :=
      hin.subset (List.mem_cons_of_mem _ (List.mem_append_left _ (by decide)))
    revert hu
    cases args.mode <;> decide +kernel
  have hafter : ¬ 'Q' :: ("UIC-OPTION-".toList ++ signed q) <:+: upper (afterMode args) :=
    fun hin => not_mem_afterMode args (by decide) (hin.subset List.mem_cons_self)
  rw [htoken, upper_name h, infix_append_cons_iff hsep, infix_append_cons_iff hsep,
    ← List.nil_append ('Q' :: ("UIC-OPTION-".toList ++ signed q)),
    append_cons_infix_iff (by decide) (hnot (by decide) (by decide) (by decide)),
    List.prefix_append_right_inj]
  simp only [List.nil_append, List.nil_suffix, true_and, hset, hafter, or_false]

theorem packet_prefix_iff (args : RunArgs) :
    "PACKET-".toList <+: buildResultsDirectory args ↔ args.printMode = .packet := by
  have hlen : ("PACKET-".toList).length ≤
      (upper args.printMode.text ++ "-QUIC-OPTION-".toList).length := by
    cases args.printMode <;> decide +kernel
  have hhead : "PACKET-".toList <+: upper args.printMode.text ++ "-QUIC-OPTION-".toList ↔
      args.printMode = .packet := by
    cases args.printMode <;> decide +kernel
  rw [buildResultsDirectory_eq, ← hhead]
  exact ⟨fun h => List.prefix_of_prefix_length_le h (List.prefix_append _ _) hlen,
    fun h => h.trans (List.prefix_append _ _)⟩

/-! ### The right run -/

section Run

variable (args : Entry → RunArgs) (combo : Text) (mode : Option Text) (quicMode : Option ℤ)

/-- Both logs of the combination are there. -/
def hasLogs (entry : Entry) : Bool :=
  (findClientLog entry combo).isSome ∧ (findServerLog entry combo).isSome

/-- The run in packet mode is with the requested mode and QUIC mode, and has both logs. The case of
the mode does not count, and an empty text asks for no mode. -/
def requested (entry : Entry) : Bool :=
  (args entry).printMode = .packet ∧
    (∀ m ∈ mode, m ≠ [] → upper (args entry).mode.text = upper m) ∧
    (∀ q ∈ quicMode, (args entry).quicMode = q) ∧ hasLogs combo entry

/-- The mode, with what follows it in the name, and the QUIC mode of the run begin with the
requested ones. -/
def fits (entry : Entry) : Bool :=
  (args entry).printMode = .packet ∧
    (∀ m ∈ mode,
      upper m <+: upper (args entry).mode.text ++ '_' :: upper (afterMode (args entry))) ∧
    (∀ q ∈ quicMode, signed q <+: signed (args entry).quicMode) ∧ hasLogs combo entry

/-- The entries are runs with the names `build_results_directory` gives them. -/
def Named (entries : List Entry) : Prop :=
  ∀ entry ∈ entries, entry.isDir = true ∧ entry.name = buildResultsDirectory (args entry)

/-- **The right run**: as requested, and the one modified last; none only if there is none. -/
def RightRun (entries : List Entry) : Prop :=
  (∀ entry, findLatestRun (some entries) combo mode quicMode = some entry →
    entry ∈ entries ∧ requested args combo mode quicMode entry = true ∧
      ∀ other ∈ entries, requested args combo mode quicMode other = true →
      other.mtime ≤ entry.mtime) ∧
  (findLatestRun (some entries) combo mode quicMode = none →
    ∀ entry ∈ entries, requested args combo mode quicMode entry = false)

/-- Every run that only begins with what is requested is followed by one that is requested: modified
later, or at the same time and listed before. -/
def RequestedFirst (entries : List Entry) : Prop :=
  ∀ before entry after, entries.filter (fits args combo mode quicMode) = before ++ entry :: after →
    requested args combo mode quicMode entry = false →
    ∃ other ∈ entries, requested args combo mode quicMode other = true ∧
      (entry.mtime < other.mtime ∨ entry.mtime = other.mtime ∧ other ∈ before)

variable {args combo mode quicMode}

theorem fits_of_requested {entry : Entry} (h : requested args combo mode quicMode entry = true) :
    fits args combo mode quicMode entry = true := by
  simp only [requested, fits, decide_eq_true_eq] at h ⊢
  refine ⟨h.1, fun m hm => ?_, fun q hq => ?_, h.2.2.2⟩
  · by_cases hne : m = []
    · rw [hne]
      exact List.nil_prefix
    · rw [← h.2.1 m hm hne]
      exact List.prefix_append _ _
  · rw [h.2.2.1 q hq]

/-- **What the loop keeps** are the runs that begin with what is requested. -/
theorem isCandidate_iff {entry : Entry} (hdir : entry.isDir = true)
    (hname : entry.name = buildResultsDirectory (args entry)) :
    isCandidate combo mode quicMode entry = fits args combo mode quicMode entry := by
  rw [Bool.eq_iff_iff]
  simp only [isCandidate, fits, hasLogs, decide_eq_true_eq, hdir, hname,
    packet_prefix_iff, true_and]
  refine and_congr_right fun hp => and_congr ?_ (and_congr ?_ Iff.rfl)
  · cases mode with
    | none => simp
    | some m =>
      simp only [Option.getD_some, mode_infix_iff hp, Option.mem_some_iff, forall_eq']
      exact ⟨fun himp => (em (m = [])).elim (fun hm => hm ▸ List.nil_prefix) himp, fun hm _ => hm⟩
  · exact forall₂_congr fun q _ => quic_infix_iff hp q

theorem findLatestRun_eq {entries : List Entry} (h : Named args entries) :
    findLatestRun (some entries) combo mode quicMode =
      (sortBy (fun entry => OrderDual.toDual entry.mtime)
        (entries.filter (fits args combo mode quicMode))).head? := by
  have hfilter : entries.filter (isCandidate combo mode quicMode) =
      entries.filter (fits args combo mode quicMode) :=
    List.filter_congr fun entry hm => isCandidate_iff (h entry hm).1 (h entry hm).2
  rw [findLatestRun, hfilter]

/-- Two places in a list. -/
theorem places_cases {α : Type*} {before after before' after' : List α} {a b : α}
    (h : before ++ a :: after = before' ++ b :: after') :
    a ∈ before' ∧ b ∈ after ∨ b ∈ before ∨ a = b := by
  rcases List.append_eq_append_iff.mp h with ⟨u, rfl, hu⟩ | ⟨u, rfl, hu⟩
  · cases u with
    | nil => exact .inr (.inr (List.cons.inj hu).1)
    | cons c u =>
      obtain ⟨rfl, rfl⟩ := List.cons.inj hu
      exact .inl ⟨by simp, by simp⟩
  · cases u with
    | nil => exact .inr (.inr (List.cons.inj hu).1.symm)
    | cons c u =>
      obtain ⟨rfl, rfl⟩ := List.cons.inj hu
      exact .inr (.inl (by simp))

/-- **When the right run is found.** -/
theorem rightRun_iff {entries : List Entry} (h : Named args entries) :
    RightRun args combo mode quicMode entries ↔
    RequestedFirst args combo mode quicMode entries := by
  unfold RightRun RequestedFirst
  rw [findLatestRun_eq h]
  rcases hhead : (sortBy (fun entry => OrderDual.toDual entry.mtime)
      (entries.filter (fits args combo mode quicMode))).head? with _ | found
  · -- no run fits
    have hnil : entries.filter (fits args combo mode quicMode) = [] := by
      have hperm := perm_sortBy (fun entry : Entry => OrderDual.toDual entry.mtime)
        (entries.filter (fits args combo mode quicMode))
      rw [List.head?_eq_none_iff.mp hhead] at hperm
      exact hperm.nil_eq.symm
    rw [hhead, hnil]
    refine iff_of_true ⟨by simp, fun _ entry hm => ?_⟩ (by simp)
    by_contra hr
    have := List.filter_eq_nil_iff.mp hnil entry hm
    exact this (fits_of_requested (Bool.eq_true_of_not_eq_false hr))
  · obtain ⟨before, after, hsplit, hb, ha⟩ := head?_sortBy _ hhead
    have hfound : found ∈ entries ∧ fits args combo mode quicMode found = true :=
      List.mem_filter.mp (by rw [hsplit]; simp)
    have hmax : ∀ other ∈ entries, requested args combo mode quicMode other = true →
        other.mtime ≤ found.mtime := by
      intro other hm hr
      have hin := List.mem_filter.mpr ⟨hm, fits_of_requested hr⟩
      rw [hsplit] at hin
      rcases List.mem_append.mp hin with hin | hin
      · exact (OrderDual.toDual_lt_toDual.mp (hb other hin)).le
      · rcases List.mem_cons.mp hin with rfl | hin
        · exact le_rfl
        · exact OrderDual.toDual_le_toDual.mp (ha other hin)
    rw [hhead]
    constructor
    · rintro ⟨hright, -⟩ before' entry after' hsplit' hnot
      obtain ⟨-, hreq, -⟩ := hright found rfl
      refine ⟨found, hfound.1, hreq, ?_⟩
      rcases places_cases (hsplit.symm.trans hsplit') with ⟨hin, hafter⟩ | hin | rfl
      · rcases (OrderDual.toDual_le_toDual.mp (ha entry hafter)).lt_or_eq with hlt | heq
        · exact .inl hlt
        · exact .inr ⟨heq, hin⟩
      · exact .inl (OrderDual.toDual_lt_toDual.mp (hb entry hin))
      · rw [hreq] at hnot
        cases hnot
    · intro hfirst
      refine ⟨fun entry he => ?_, by simp⟩
      obtain rfl := Option.some.inj he
      refine ⟨hfound.1, ?_, hmax⟩
      by_contra hnot
      obtain ⟨other, hm, hr, hlt | ⟨heq, hin⟩⟩ := hfirst before found after hsplit
        (Bool.eq_false_of_not_eq_true hnot)
      · exact absurd (hmax other hm hr) (not_le.mpr hlt)
      · exact absurd (OrderDual.toDual_lt_toDual.mp (hb other hin)) (by rw [heq]; exact lt_irrefl _)

end Run

/-! ### The right log -/

section Log

/-- The last iteration. -/
def IsLast (iterations : List ℕ) (last : ℕ) : Prop := last ∈ iterations ∧ ∀ n ∈ iterations, n ≤ last

/-- **The right log** is that of the last iteration. -/
def RightLog (runDir : Entry) (combo : Text) (iterations : List ℕ) : Prop :=
  ∀ last, IsLast iterations last → findClientLog runDir combo = some (iterationLog last)

/-- No iteration exceeds the leading digits of the last one. -/
def LeadingDigits (iterations : List ℕ) : Prop :=
  ∀ last, IsLast iterations last → ∀ n ∈ iterations,
    n ≤ last / 10 ^ ((zeroPad 3 last).length - (zeroPad 3 n).length)

theorem isIterationLog_iterationLog (n : ℕ) : isIterationLog (iterationLog n) = true := by
  have hlen : 3 ≤ (zeroPad 3 n).length := by simp [zeroPad]; omega
  have hfix : ("iteration_".toList).length = 10 ∧ (".log".toList).length = 4 := by decide
  have hname : (iterationLog n).length =
      ("iteration_".toList).length + ((zeroPad 3 n).length + (".log".toList).length) :=
    List.length_append.trans (congrArg _ List.length_append)
  refine decide_eq_true ⟨List.prefix_append _ _, ⟨"iteration_".toList ++ zeroPad 3 n, ?_⟩, ?_⟩
  · exact List.append_assoc ..
  · rw [hfix.1, hfix.2] at hname
    omega

theorem iterationLog_le_iff {n last : ℕ} (h : n ≤ last) : iterationLog n ≤ iterationLog last ↔
    n ≤ last / 10 ^ ((zeroPad 3 last).length - (zeroPad 3 n).length) :=
  zeroPad_le_iff h (by decide) _ _

/-- **When the right log is found.** -/
theorem rightLog_iff {runDir : Entry} {combo : Text} {iterations : List ℕ}
    (h : runDir.rawLogs combo = some (iterations.map iterationLog)) :
    RightLog runDir combo iterations ↔ LeadingDigits iterations := by
  have hfilter : (iterations.map iterationLog).filter isIterationLog =
      iterations.map iterationLog :=
    List.filter_eq_self.mpr fun name hm => by
      obtain ⟨n, -, rfl⟩ := List.mem_map.mp hm
      exact isIterationLog_iterationLog n
  have hfind : findClientLog runDir combo = (sortBy id (iterations.map iterationLog)).getLast? := by
    rw [findClientLog, h]
    change (sortBy id (List.filter _ _)).getLast? = _
    rw [hfilter]
  refine forall_congr' fun last => forall_congr' fun hlast => ?_
  rw [hfind]
  constructor
  · intro hl n hn
    have hle := (getLast?_sortBy hl).2 _ (List.mem_map_of_mem hn)
    exact (iterationLog_le_iff (hlast.2 n hn)).mp hle
  · intro hle
    rcases hl : (sortBy id (iterations.map iterationLog)).getLast? with _ | name
    · have hperm := perm_sortBy id (iterations.map iterationLog)
      rw [List.getLast?_eq_none_iff.mp hl] at hperm
      have hnil := List.map_eq_nil_iff.mp hperm.nil_eq.symm
      exact absurd hlast.1 (by simp [hnil])
    · obtain ⟨hm, hmax⟩ := getLast?_sortBy hl
      obtain ⟨n, hn, rfl⟩ := List.mem_map.mp hm
      have hle' := (iterationLog_le_iff (hlast.2 n hn)).mpr (hle n hn)
      rw [le_antisymm hle' (hmax _ (List.mem_map_of_mem hlast.1))]

end Log

/-- **The lookup is right** exactly if every run that only begins with what is requested is followed
by one that is requested, and no iteration exceeds the leading digits of the last one. -/
theorem lookup_iff (args : Entry → RunArgs) (combo : Text) (mode : Option Text)
    (quicMode : Option ℤ)
    (entries : List Entry) (hentries : Named args entries) (runDir : Entry) (iterations : List ℕ)
    (hlogs : runDir.rawLogs combo = some (iterations.map iterationLog)) :
    (RightRun args combo mode quicMode entries ∧ RightLog runDir combo iterations) ↔
      RequestedFirst args combo mode quicMode entries ∧ LeadingDigits iterations :=
  and_congr (rightRun_iff hentries) (rightLog_iff hlogs)

/-- Runs of QUIC mode 0 at noon, told apart by the time they were modified. -/
def noonArgs (entry : Entry) : RunArgs :=
  ⟨if entry.mtime = 1 then .pqc else .pqcLevel, .packet, 0, .zero, ⟨1, 1, 2025, 12, 0, 0⟩⟩

/-- The directory of such a run. -/
def noonRun (mtime : ℚ) (iterations : List ℕ) : Entry :=
  ⟨buildResultsDirectory (noonArgs ⟨[], true, mtime, fun _ => none, fun _ => true⟩), true, mtime,
    fun _ => some (iterations.map iterationLog), fun _ => true⟩

/-- One run of the mode `pqc` with two iterations is found, and its second log. -/
theorem lookup_iff_one :
    RightRun noonArgs [] (some "pqc".toList) (some 0) [noonRun 1 [1, 2]] ∧
      RightLog (noonRun 1 [1, 2]) [] [1, 2] := by
  refine (lookup_iff noonArgs [] (some "pqc".toList) (some 0) _ (fun entry hm => ?_) _ _ rfl).mpr
    ⟨fun before entry after hsplit hnot => ?_, fun last hlast n hn => ?_⟩
  · rw [List.mem_singleton.mp hm]
    exact ⟨rfl, rfl⟩
  · have hm : entry ∈ [noonRun 1 [1, 2]] := List.mem_of_mem_filter (by rw [hsplit]; simp)
    rw [List.mem_singleton.mp hm] at hnot
    exact absurd hnot (by decide +kernel)
  · have hlast' := hlast.2 2 (by simp)
    have hcases := List.mem_pair.mp hlast.1
    obtain rfl : last = 2 := by omega
    rcases List.mem_pair.mp hn with rfl | rfl <;> decide +kernel

/-- A later run of the mode `pqc-level` is found in place of one of the mode `pqc`, and the log of
iteration 999 in place of that of iteration 1000. -/
theorem lookup_prefixes :
    Named noonArgs [noonRun 1 [1], noonRun 2 [1]] ∧
    (findLatestRun (some [noonRun 1 [1], noonRun 2 [1]]) [] (some "pqc".toList) (some 0)).map
      Entry.name = some (noonRun 2 [1]).name ∧
    (noonArgs (noonRun 2 [1])).mode = .pqcLevel ∧
    (noonRun 1 [999, 1000]).rawLogs [] = some ([999, 1000].map iterationLog) ∧
    findClientLog (noonRun 1 [999, 1000]) [] = some "iteration_999.log".toList ∧
    ¬RightLog (noonRun 1 [999, 1000]) [] [999, 1000] := by
  have hfind : findClientLog (noonRun 1 [999, 1000]) [] = some "iteration_999.log".toList := by
    decide +kernel
  refine ⟨fun entry hm => ?_, by decide +kernel, by decide +kernel, rfl, hfind, fun h => ?_⟩
  · rcases List.mem_pair.mp hm with rfl | rfl <;> exact ⟨rfl, rfl⟩
  · have hlast : IsLast [999, 1000] 1000 := ⟨by decide, by decide⟩
    rw [h 1000 hlast] at hfind
    exact absurd hfind (by decide +kernel)

end PapQuic.Script.RunLookup
