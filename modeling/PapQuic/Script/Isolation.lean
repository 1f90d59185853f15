import PapQuic.Script.CpuList
import PapQuic.Script.HostTuning

/-! # From a CPU list to the isolation of CPUs

`scripts/with_host_tuning.sh` from the value of `--cpus` to the commands that keep other work away
from these CPUs: the CPUs of `user.slice`, the interrupts and the cpuset of the command.

The list is expanded in a process substitution, so the check of the status sees the status of
`mapfile` and never the one of `expand_cpu_list`. What stops the script is the snapshot of the
state, which does not read ranges. It lets a list through in which Python takes a part for a number
and the shell does not; the CPUs before this part are then isolated (`noPartialIsolation_minus`). -/

namespace PapQuic.Script.Isolation

open Lib.Printf Lib.Re Lib.Intervals Lib.Run Script.Cpus Script.HostTuning Script.CpuList

/-! ### The script -/

/-- How the script ends before it runs the command: by an exit when no trap is installed yet, or
through `restore_settings`. -/
inductive Stop
  | exit (status : ℕ)
  | restoreSettings (status : ℕ)
  deriving DecidableEq, Repr

/-- What is done for the cpuset of the command. -/
inductive CpusetCommand
  | shield (cpus : Text)
  | scope (cpus : Text)
  | enableController
  | makeScope
  | setMems (mems : Text)
  | setCpus (cpus : Text)
  | removeScope
  deriving DecidableEq, Repr

/-- What the script finds. -/
structure Machine where
  /-- The options and tools; the CPU lists in it are not used. -/
  config : Config
  glob : Text → List Text
  /-- A word without special characters stands for itself. -/
  globPlain : ∀ w : Text, (∀ c ∈ w, isDec c = true ∨ c = '-') → glob w = [w]
  /-- Status and output of `select_physical_cpus.py`, if it can be executed. -/
  autoSelected : Option (ℕ × Text)
  python3 : Bool
  /-- The layout can be read and the state file can be written. -/
  stateWritten : Bool
  /-- `/sys/devices/system/cpu/online`. -/
  onlineCpus : Option Text
  /-- What `sed` or the final `printf` make of the configuration of irqbalance, with a mask. -/
  banCpus : Text → String → String
  cset : Bool
  /-- There is `/sys/fs/cgroup/cgroup.controllers`. -/
  unified : Bool
  systemdRun : Bool
  cpusetListed : Bool
  subtreeWritable : Bool
  subtreeWritten : Bool
  scopeMade : Bool
  memsWritten : Bool
  cpusWritten : Bool

/-- The CPUs that are used: those given, or those that are selected. The script ends with the
selection if it fails, before it looks at the status. -/
def selectCpus (m : Machine) (given : Text) : Except ℕ Text :=
  if given ≠ [] then .ok given
  else
    match m.autoSelected with
    | none => .ok []
    | some (0, selected) => .ok selected
    | some (status, _) => .error status

/-- `mapfile -t` from a process substitution: the lines, and the status of `mapfile`. The status of
the process is lost. -/
def mapfile (process : Process) : List Text × ℕ := (process.stdout, 0)

/-- The status of `write_state_snapshot`. -/
def writeStateSnapshot (m : Machine) (cpus : Text) : ℕ :=
  if ((cpus.splitOn ',').filter (· ≠ [])).all (fun x => (pyInt x).isSome) && m.stateWritten
    then 0 else 1

/-- `compute_cpu_mask`. -/
def computeCpuMask (m : Machine) (cpus : List Text) : Text :=
  if cpus = [] || !m.python3 then "0x0".toList
  else "0x".toList ++ Nat.toDigits 16 (cpus.foldl (fun mask cpu => mask ||| 1 <<< ofDec cpu) 0)

/-- `all_cpu_list`, and the status that is checked. -/
def allCpuList (m : Machine) : List Text × ℕ :=
  match m.onlineCpus with
  | some online => mapfile (expandCpuList m.glob online)
  | none => ([], 0)

/-- `rest_cpu_list`. -/
def restCpus (reserved all : List Text) : List Text := all.filter (· ∉ reserved)

/-- `all_cpu_string`. -/
def allCpuString (m : Machine) (all : List Text) : Text :=
  if collapseCpuList all = [] then
    (m.onlineCpus.getD []).filter fun c => !(c = ' ' || '\t' ≤ c && c ≤ '\r')
  else collapseCpuList all

/-- What the commands for the slice and the interrupts are made from. -/
def tuning (m : Machine) (reserved all : List Text) : Config :=
  { m.config with
    cpus := true
    allCpuString := String.ofList (allCpuString m all)
    restCpuString := String.ofList (collapseCpuList (restCpus reserved all))
    banCpus := m.banCpus (computeCpuMask m reserved) }

/-- `setup_manual_cpuset_scope`. Its redirection without a command prints nothing, so `mems` is
0. -/
def setupManualCpusetScope (m : Machine) (cpus : Text) : List CpusetCommand :=
  let scope :=
    if !m.scopeMade then [.makeScope]
    else if !m.memsWritten then [.makeScope, .setMems "0".toList, .removeScope]
    else if !m.cpusWritten then [.makeScope, .setMems "0".toList, .setCpus cpus, .removeScope]
    else [.makeScope, .setMems "0".toList, .setCpus cpus]
  if m.cpusetListed then scope
  else if m.subtreeWritable then
    .enableController :: if m.subtreeWritten then scope else []
  else []

/-- The end of the block: a shield, a scope of systemd or a scope made by hand. -/
def cpusetCommands (m : Machine) (cpus : Text) : List CpusetCommand :=
  if m.unified then
    if m.systemdRun then [.scope cpus] else setupManualCpusetScope m cpus
  else if m.cset then [.shield cpus] else []

/-- What the script has done when it runs the command, or when it stops. -/
structure Outcome where
  /-- `reserved_cpu_list`, if it has been set. -/
  reserved : Option (List Text)
  stop : Option Stop
  commands : List Command
  cpuset : List CpusetCommand

/-- The commands before the block. -/
def before (c : Config) (h : Host) : List Command :=
  (governorCommands c).map .governor ++ (boostCommands c h.boost).map .boost

/-- The script, up to the command. `check_cap_sys_nice` ends it if there is no Python. -/
def wrapper (m : Machine) (h : Host) (given : Text) : Outcome :=
  match selectCpus m given with
  | .error status => ⟨none, some (.exit status), [], []⟩
  | .ok cpus =>
    if !m.python3 then ⟨none, some (.exit 127), [], []⟩
    else if cpus = [] then ⟨none, none, before m.config h, []⟩
    else
      let reserved := mapfile (expandCpuList m.glob cpus)
      if reserved.2 ≠ 0 then ⟨some reserved.1, some (.restoreSettings 2), before m.config h, []⟩
      else if writeStateSnapshot m cpus ≠ 0 then
        ⟨some reserved.1, some (.restoreSettings (writeStateSnapshot m cpus)),
          before m.config h, []⟩
      else if (allCpuList m).2 ≠ 0 then
        ⟨some reserved.1, some (.restoreSettings 2), before m.config h, []⟩
      else
        ⟨some reserved.1, none, script (tuning m reserved.1 (allCpuList m).1) h,
          cpusetCommands m cpus⟩

/-! ### What should hold -/

/-- A number, or a range that ends where it starts or later. -/
def isPart (part : Text) : Bool :=
  match rangeOf part with
  | some (start, last) => ofDec start ≤ ofDec last
  | none => isNumber part

/-- The CPUs of a part. -/
def partCpus (part : Text) : List ℕ :=
  match rangeOf part with
  | some (start, last) => numbers (ofDec start, ofDec last)
  | none => [ofDec part]

/-- **No partial isolation**: all CPUs of a good list are reserved, and a bad list stops the script
with status 2 before it changes the slice, the interrupts or a cpuset. -/
def NoPartialIsolation (given : Text) (o : Outcome) : Prop :=
  if ∀ part ∈ given.splitOn ',', isPart part = true then
    o.reserved.map (List.map ofDec) = some ((given.splitOn ',').flatMap partCpus)
  else
    o.stop = some (.restoreSettings 2) ∧ o.cpuset = [] ∧
      ∀ x ∈ o.commands, x.slice? = none ∧ x.irqbalance? = none ∧ x.irq? = none

/-! ### The parts of a good list -/

theorem rangeOf_eq_some {part start last : Text} (h : rangeOf part = some (start, last)) :
    part = start ++ '-' :: last ∧ isNumber start = true ∧ isNumber last = true := by
  unfold rangeOf at h
  split at h
  · next a b hsplit =>
    split_ifs at h with hnum
    cases h
    have hjoin : ([('-' : Char)]).intercalate (part.splitOn '-') = part :=
      List.intercalate_splitOn '-'
    rw [hsplit] at hjoin
    rw [Bool.and_eq_true] at hnum
    exact ⟨by rw [← hjoin]; simp, hnum⟩
  · cases h

theorem plain_of_rangeOf {part start last : Text} (h : rangeOf part = some (start, last)) :
    part ≠ [] ∧ ∀ c ∈ part, isDec c = true ∨ c = '-' := by
  obtain ⟨rfl, hs, hl⟩ := rangeOf_eq_some h
  refine ⟨by simp, fun c hc => ?_⟩
  rcases List.mem_append.mp hc with hc | hc
  · exact .inl ((isNumber_iff.mp hs).2 c hc)
  · rcases List.mem_cons.mp hc with rfl | hc
    · exact .inr rfl
    · exact .inl ((isNumber_iff.mp hl).2 c hc)

theorem plain_of_isPart {part : Text} (h : isPart part = true) :
    part ≠ [] ∧ ∀ c ∈ part, isDec c = true ∨ c = '-' := by
  unfold isPart at h
  split at h
  · next hrange => exact plain_of_rangeOf hrange
  · exact ⟨(isNumber_iff.mp h).1, fun c hc => .inl ((isNumber_iff.mp h).2 c hc)⟩

/-- A part is accepted unless its arithmetic finds that the range ends before it starts. -/
theorem expandEntry_isPart {part : Text} (h : isPart part = true) :
    (∃ lines, expandEntry part = .ok lines ∧ lines.map ofDec = partCpus part ∧
        ∀ start last, rangeOf part = some (start, last) → arithGreater start last = false) ∨
      (∃ message, expandEntry part = .error message) ∧
        ∃ start last, rangeOf part = some (start, last) ∧ arithGreater start last = true := by
  unfold isPart at h
  unfold expandEntry partCpus
  rcases hrange : rangeOf part with _ | ⟨start, last⟩
  · rw [hrange] at h
    exact .inl ⟨[part], if_pos h, rfl, fun _ _ hsome => by cases hsome⟩
  · rcases hgreater : arithGreater start last with _ | _
    · refine .inl ⟨seq start last, if_neg (by simp [hgreater]), map_ofDec_seq start last, ?_⟩
      intro a b hsome
      cases hsome
      exact hgreater
    · exact .inr ⟨⟨_, if_pos hgreater⟩, start, last, rfl, hgreater⟩

theorem partCpus_ne_nil {part : Text} (h : isPart part = true) : partCpus part ≠ [] := by
  unfold isPart at h
  unfold partCpus
  split
  · next start last hrange =>
    rw [hrange] at h
    exact List.ne_nil_of_mem (mem_numbers.mpr ⟨of_decide_eq_true h, Nat.le_refl _⟩)
  · simp

/-- **The loop expands a good list in full exactly if it accepts all its parts.** -/
theorem stdout_expandEntries_iff {parts : List Text} (h : ∀ part ∈ parts, isPart part = true) :
    (expandEntries parts).stdout.map ofDec = parts.flatMap partCpus ↔
      ∀ part ∈ parts, ∀ start last, rangeOf part = some (start, last) →
        arithGreater start last = false := by
  induction parts with
  | nil => simp [expandEntries]
  | cons part parts ih =>
    obtain ⟨hpart, hparts⟩ := List.forall_mem_cons.mp h
    rw [expandEntries, if_neg (plain_of_isPart hpart).1, List.flatMap_cons, List.forall_mem_cons]
    rcases expandEntry_isPart hpart with
      ⟨lines, hok, hlines, hgreater⟩ | ⟨⟨message, he⟩, a, b, hr, hg⟩
    · rw [hok]
      change (lines ++ (expandEntries parts).stdout).map ofDec = _ ↔ _
      rw [List.map_append, hlines, List.append_cancel_left_eq, ih hparts]
      exact (and_iff_right hgreater).symm
    · rw [he]
      refine ⟨fun hnil => ?_, fun hall => ?_⟩
      · exact absurd (List.append_eq_nil_iff.mp hnil.symm).1 (partCpus_ne_nil hpart)
      · rw [hall.1 a b hr] at hg
        cases hg

/-- The shell sees the parts of a good list. -/
theorem entries_of_isPart (m : Machine) {given : Text}
    (h : ∀ part ∈ given.splitOn ',', isPart part = true) :
    entries m.glob given = given.splitOn ',' := by
  have hblank : ∀ c ∈ given, isIfs c = false := by
    intro c hc
    rcases mem_splitOn ',' hc with rfl | ⟨part, hp, hc⟩
    · rfl
    · exact isIfs_eq_false ((plain_of_isPart (h part hp)).2 c hc)
  rw [entries_eq hblank fun part hp => m.globPlain part (plain_of_isPart (h part hp)).2,
    List.filter_eq_self]
  exact fun part hp => decide_eq_true (plain_of_isPart (h part hp)).1

/-! ### What the script does -/

section Wrapper

variable (m : Machine) (h : Host) {given : Text}

theorem selectCpus_of_ne_nil (hne : given ≠ []) : selectCpus m given = .ok given := if_pos hne

theorem writeStateSnapshot_of_ne {cpus : Text} (hne : writeStateSnapshot m cpus ≠ 0) :
    writeStateSnapshot m cpus = 1 := by
  unfold writeStateSnapshot at hne ⊢
  split_ifs at hne ⊢
  · exact absurd rfl hne
  · rfl

theorem allCpuList_snd : (allCpuList m).2 = 0 := by
  unfold allCpuList
  split <;> rfl

/-- **The block**: no status but the one of the snapshot is seen. -/
theorem wrapper_of_cpus {cpus : Text} (hs : selectCpus m given = .ok cpus) (hpy : m.python3 = true)
    (hne : cpus ≠ []) :
    wrapper m h given =
      let reserved := (expandCpuList m.glob cpus).stdout
      if writeStateSnapshot m cpus ≠ 0 then
        ⟨some reserved, some (.restoreSettings (writeStateSnapshot m cpus)), before m.config h, []⟩
      else
        ⟨some reserved, none, script (tuning m reserved (allCpuList m).1) h,
          cpusetCommands m cpus⟩ := by
  simp only [wrapper, hs, hpy, Bool.not_true, Bool.false_eq_true, if_false, hne, mapfile,
    allCpuList_snd, ne_eq, not_true_eq_false]

theorem reserved_wrapper (hpy : m.python3 = true) (hne : given ≠ []) :
    (wrapper m h given).reserved = some (expandCpuList m.glob given).stdout := by
  rw [wrapper_of_cpus m h (selectCpus_of_ne_nil m hne) hpy hne]
  dsimp only
  split_ifs <;> rfl

/-- **The ways the script can go**: it ends before the traps, it has no CPUs to isolate, the
snapshot stops it, or it isolates CPUs. -/
theorem wrapper_cases {P : Outcome → Prop} (given : Text)
    (hexit : ∀ status, P ⟨none, some (.exit status), [], []⟩)
    (hskip : P ⟨none, none, before m.config h, []⟩)
    (hsnapshot : ∀ reserved, P ⟨some reserved, some (.restoreSettings 1), before m.config h, []⟩)
    (hisolate : ∀ reserved commands cpuset, P ⟨some reserved, none, commands, cpuset⟩) :
    P (wrapper m h given) := by
  rcases hs : selectCpus m given with status | cpus
  · rw [wrapper, hs]
    exact hexit status
  rcases hpy : m.python3 with _ | _
  · simp only [wrapper, hs, hpy]
    exact hexit 127
  by_cases hne : cpus = []
  · simp only [wrapper, hs, hpy, hne]
    exact hskip
  rw [wrapper_of_cpus m h hs hpy hne]
  dsimp only
  split_ifs with hstatus
  · rw [writeStateSnapshot_of_ne m hstatus]
    exact hsnapshot _
  · exact hisolate _ _ _

/-- **The script never stops with status 2.** -/
theorem stop_wrapper_ne (given : Text) : (wrapper m h given).stop ≠ some (.restoreSettings 2) := by
  refine wrapper_cases (P := fun o => o.stop ≠ some (.restoreSettings 2)) m h given ?_ ?_ ?_ ?_ <;>
    simp

end Wrapper

/-! ### Partial isolation -/

/-- **When there is no partial isolation**: when there is Python, every part is a number or a range,
and the arithmetic of the shell, for which a number with a leading 0 is octal, agrees about each
range. -/
theorem noPartialIsolation_iff (m : Machine) (h : Host) (given : Text) :
    NoPartialIsolation given (wrapper m h given) ↔
      m.python3 = true ∧ ∀ part ∈ given.splitOn ',', isPart part = true ∧
        ∀ start last, rangeOf part = some (start, last) → arithGreater start last = false := by
  unfold NoPartialIsolation
  split_ifs with hgood
  · have hne : given ≠ [] := by
      rintro rfl
      exact (plain_of_isPart (hgood [] (List.mem_singleton_self _))).1 rfl
    rcases hpy : m.python3 with _ | _
    · simp only [wrapper, selectCpus_of_ne_nil m hne, hpy]
      simp
    · rw [reserved_wrapper m h hpy hne, CpuList.expandCpuList, entries_of_isPart m hgood,
        Option.map_some, Option.some_inj, stdout_expandEntries_iff hgood]
      refine ⟨fun hall => ⟨rfl, fun part hp => ⟨hgood part hp, hall part hp⟩⟩,
        fun hall part hp => ?_⟩
      exact (hall.2 part hp).2
  · refine ⟨fun hstop => absurd hstop.1 (stop_wrapper_ne m h given), fun hall => ?_⟩
    exact absurd (fun part hp => (hall.2 part hp).1) hgood

/-- Four CPUs and control groups of version 2. -/
def fourCpuMachine : Machine where
  config := fourCpus
  glob w := [w]
  globPlain _ _ := rfl
  autoSelected := none
  python3 := true
  stateWritten := true
  onlineCpus := some "0-3".toList
  banCpus mask text := text ++ "\nIRQBALANCE_BANNED_CPUS=" ++ String.ofList mask ++ "\n"
  cset := false
  unified := true
  systemdRun := true
  cpusetListed := true
  subtreeWritable := true
  subtreeWritten := true
  scopeMade := true
  memsWritten := true
  cpusWritten := true

/-- Python takes `-2` for a number and the shell does not: CPU 1 alone is isolated. -/
theorem noPartialIsolation_minus :
    let o := wrapper fourCpuMachine (hostWith "0-3") "1,-2".toList
    ¬ NoPartialIsolation "1,-2".toList o ∧ o.reserved = some ["1".toList] ∧ o.stop = none ∧
      (run (exec (tuning fourCpuMachine ["1".toList] (allCpuList fourCpuMachine).1))
        (.start (hostWith "0-3")) o.commands).slice.allowed = "0,2-3" ∧
      o.cpuset = [.scope "1,-2".toList] := by
  refine ⟨fun hno => ?_, by decide +kernel, by decide +kernel, by decide +kernel, by decide +kernel⟩
  rw [NoPartialIsolation, if_neg (by decide +kernel)] at hno
  exact absurd hno.1 (stop_wrapper_ne _ _ _)

end PapQuic.Script.Isolation
