import PapQuic.Lib.Backup
import PapQuic.Lib.Run
import Mathlib.Data.List.Infix

/-! # Host tuning and its restoration

`scripts/with_host_tuning.sh` changes the CPU governors, the boost state, the CPUs of `user.slice`,
the configuration of irqbalance and the affinities of interrupts, runs a command, and restores what
it saved. The script can stop between any two commands; the exit trap then runs `restore_settings`.

The five kinds of settings do not depend on each other, so each is a small machine of its own: what
its commands do to the host and to what the script remembers, and what `restore_settings` makes of
it. The script as a whole runs the commands in order. -/

namespace PapQuic.Script.HostTuning

open Lib.Backup Lib.Run

/-! ### The machine and its settings -/

/-- What decides the course of the script: its options, the tools and files of the machine, which
commands succeed, and what the CPU lists are. -/
structure Config where
  changeGovernor : Bool
  cpupower : Bool
  goWith : String
  policies : List String
  /-- The policies whose governor `cpupower` really sets. -/
  cpupowerSets : String → Bool
  changeBoost : Bool
  disableBoost : Bool
  boostWritten : Bool
  cpus : Bool
  systemctl : Bool
  allCpuString : String
  restCpuString : String
  sliceShown : Bool
  sliceSet : Bool
  irqbalanceActive : Bool
  confCopied : Bool
  /-- What `sed` or the final `printf` make of the configuration. -/
  banCpus : String → String
  irqs : List String
  irqsNodup : irqs.Nodup
  irqSaved : String → Bool
  irqWritten : String → Bool

/-! ### Governors -/

/-- The governors, and `restore_governor_file`. -/
structure Governors where
  governor : String → String
  saved : Option (List (String × String))

inductive GovernorCommand
  | clear | save (policy : String) | set
  deriving DecidableEq

def GovernorCommand.exec (c : Config) (s : Governors) : GovernorCommand → Governors
  | .clear => { s with saved := some [] }
  | .save policy => { s with saved := some (s.saved.getD [] ++ [(policy, s.governor policy)]) }
  | .set =>
    { s with governor := fun policy =>
        if policy ∈ c.policies ∧ c.cpupowerSets policy then c.goWith else s.governor policy }

def governorCommands (c : Config) : List GovernorCommand :=
  if c.changeGovernor && c.cpupower then
    .clear :: (c.policies.map .save ++ [.set])
  else []

def Governors.restore (s : Governors) : String → String := restoreAll (s.saved.getD []) s.governor

/-! ### Boost -/

/-- The boost file, if there is one, and `restore_boost_file`. -/
structure Boost where
  boost : Option String
  saved : Option String
  deriving DecidableEq

inductive BoostCommand
  | save | disable
  deriving DecidableEq

def BoostCommand.exec (c : Config) (s : Boost) : BoostCommand → Boost
  | .save => { s with saved := s.boost }
  | .disable => if c.boostWritten then { s with boost := some "0" } else s

def boostCommands (c : Config) (boost : Option String) : List BoostCommand :=
  if c.changeBoost && c.disableBoost && boost.isSome then [.save, .disable] else []

def Boost.restore (s : Boost) : Option String := s.saved.or s.boost

/-! ### The slice -/

/-- `AllowedCPUs` of `user.slice`, `restore_slice_file` and `systemd_slices_modified`. -/
structure Slice where
  allowed : String
  saved : Option (List String)
  modified : Bool
  deriving DecidableEq

inductive SliceCommand
  | clear | save | set | flag
  deriving DecidableEq

/-- `current` is read before `save`, but what is saved is `all_cpu_string`. -/
def SliceCommand.exec (c : Config) (s : Slice) : SliceCommand → Slice
  | .clear => { s with saved := some [] }
  | .save => { s with saved := some (s.saved.getD [] ++ [c.allCpuString]) }
  | .set => if c.sliceSet then { s with allowed := c.restCpuString } else s
  | .flag => { s with modified := true }

def sliceCommands (c : Config) : List SliceCommand :=
  if c.cpus && c.restCpuString ≠ "" && c.systemctl then
    if c.sliceShown then
      if c.sliceSet then [.clear, .save, .set, .flag] else [.clear, .save, .set]
    else [.clear]
  else []

/-- The values are set one after the other, an empty one too. -/
def Slice.restore (c : Config) (s : Slice) : String :=
  if c.systemctl && s.modified then (s.saved.getD []).foldl (fun _ value => value) s.allowed
  else s.allowed

/-! ### irqbalance -/

/-- The configuration file, its backup, `irqbalance_modified` and `irqbalance_conf_existed`. -/
structure Irqbalance where
  conf : Option String
  backup : Option String
  modified : Bool
  confExisted : Bool
  deriving DecidableEq

inductive IrqbalanceCommand
  | flag | copyConf | setExisted | clearBackup | clearExisted | touch | edit
  deriving DecidableEq

def IrqbalanceCommand.exec (c : Config) (s : Irqbalance) : IrqbalanceCommand → Irqbalance
  | .flag => { s with modified := true }
  | .copyConf => if c.confCopied then { s with backup := s.conf } else s
  | .setExisted => { s with confExisted := true }
  | .clearBackup => { s with backup := some "" }
  | .clearExisted => { s with confExisted := false }
  | .touch => { s with conf := some (s.conf.getD "") }
  | .edit => { s with conf := s.conf.map c.banCpus }

/-- irqbalance is reconfigured when it is active; else the interrupts are set one by one. -/
def usesIrqbalance (c : Config) : Bool := c.systemctl && c.irqbalanceActive

def irqbalanceCommands (c : Config) (conf : Option String) : List IrqbalanceCommand :=
  if c.cpus && c.restCpuString ≠ "" && usesIrqbalance c then
    (if conf.isSome then [.flag, .copyConf, .setExisted]
      else [.flag, .clearBackup, .clearExisted]) ++ [.touch, .edit]
  else []

/-- `cp` of a backup that is not there does nothing. -/
def Irqbalance.restore (s : Irqbalance) : Option String :=
  if s.modified then if s.confExisted then s.backup.or s.conf else none else s.conf

/-! ### Interrupts -/

/-- The affinity lists, and the files in `manual_irq_backup_dir`. -/
structure Irqs where
  affinity : String → String
  saved : Option (List (String × String))

inductive IrqCommand
  | makeDir | save (irq : String) | set (irq : String)
  deriving DecidableEq

def IrqCommand.exec (c : Config) (s : Irqs) : IrqCommand → Irqs
  | .makeDir => { s with saved := some [] }
  | .save irq =>
    if c.irqSaved irq then { s with saved := some (s.saved.getD [] ++ [(irq, s.affinity irq)]) }
    else s
  | .set irq =>
    if c.irqWritten irq then
      { s with affinity := Function.update s.affinity irq c.restCpuString }
    else s

/-- The loop over the interrupts. -/
def irqLoop : List String → List IrqCommand
  | [] => []
  | irq :: irqs => .save irq :: .set irq :: irqLoop irqs

def irqCommands (c : Config) : List IrqCommand :=
  if c.cpus && c.restCpuString ≠ "" && !usesIrqbalance c then .makeDir :: irqLoop c.irqs else []

def Irqs.restore (s : Irqs) : String → String := restoreAll (s.saved.getD []) s.affinity

/-! ### The script -/

/-- All settings. -/
structure Host where
  governor : String → String
  boost : Option String
  allowedCpus : String
  irqbalanceConf : Option String
  affinity : String → String

/-- The host and what the script remembers. -/
structure State where
  governors : Governors
  boost : Boost
  slice : Slice
  irqbalance : Irqbalance
  irqs : Irqs

/-- When the traps are installed. -/
def State.start (h : Host) : State :=
  ⟨⟨h.governor, none⟩, ⟨h.boost, none⟩, ⟨h.allowedCpus, none, false⟩,
    ⟨h.irqbalanceConf, none, false, false⟩, ⟨h.affinity, none⟩⟩

inductive Command
  | governor (x : GovernorCommand)
  | boost (x : BoostCommand)
  | slice (x : SliceCommand)
  | irqbalance (x : IrqbalanceCommand)
  | irq (x : IrqCommand)

def exec (c : Config) (s : State) : Command → State
  | .governor x => { s with governors := x.exec c s.governors }
  | .boost x => { s with boost := x.exec c s.boost }
  | .slice x => { s with slice := x.exec c s.slice }
  | .irqbalance x => { s with irqbalance := x.exec c s.irqbalance }
  | .irq x => { s with irqs := x.exec c s.irqs }

/-- The commands of the script that change a setting or what is remembered of it, in order. -/
def script (c : Config) (h : Host) : List Command :=
  (governorCommands c).map .governor ++ (boostCommands c h.boost).map .boost ++
    (sliceCommands c).map .slice ++ (irqbalanceCommands c h.irqbalanceConf).map .irqbalance ++
    (irqCommands c).map .irq

/-- `restore_settings`. -/
def restoreSettings (c : Config) (s : State) : Host :=
  ⟨s.governors.restore, s.boost.restore, s.slice.restore c, s.irqbalance.restore, s.irqs.restore⟩

/-! ### What each part is restored to -/

section

variable (c : Config)

theorem run_saves (g : String → String) :
    ∀ (policies : List String) (saved : List (String × String)),
    run (GovernorCommand.exec c) ⟨g, some saved⟩ (policies.map .save) =
      ⟨g, some (saved ++ policies.map fun p => (p, g p))⟩
  | [], saved => by simp
  | p :: policies, saved => by
    rw [List.map_cons, run_cons]
    change run (GovernorCommand.exec c) ⟨g, some (saved ++ [(p, g p)])⟩ _ = _
    rw [run_saves g policies]
    simp

/-- The governors are saved before they are set, so they all come back. -/
theorem governors_restored (g : String → String) {d : List GovernorCommand}
    (hd : d <+: governorCommands c) :
    (run (GovernorCommand.exec c) ⟨g, none⟩ d).restore = g := by
  have hsound (policies : List String) : Sound (policies.map fun p => (p, g p)) g := by
    intro kv hkv
    obtain ⟨p, -, rfl⟩ := List.mem_map.mp hkv
    rfl
  unfold governorCommands at hd
  split_ifs at hd
  · rcases List.prefix_cons_iff.mp hd with rfl | ⟨t, rfl, ht⟩
    · rfl
    rw [run_cons]
    change (run (GovernorCommand.exec c) ⟨g, some []⟩ t).restore = g
    rcases List.prefix_concat_iff.mp ht with rfl | ht
    · rw [run_append, run_saves, Governors.restore]
      refine (restoreAll_eq_iff (hsound c.policies) _).mpr fun p hp => ?_
      have hp : p ∉ c.policies := by simpa using hp
      simp [GovernorCommand.exec, hp]
    · rw [List.prefix_iff_eq_take.mp ht, ← List.map_take, run_saves, Governors.restore]
      exact (restoreAll_eq_iff (hsound _) _).mpr fun _ _ => rfl
  · rw [List.prefix_nil.mp hd]
    rfl

theorem boost_restored (boost : Option String) {d : List BoostCommand}
    (hd : d <+: boostCommands c boost) :
    (run (BoostCommand.exec c) ⟨boost, none⟩ d).restore = boost := by
  unfold boostCommands at hd
  split_ifs at hd with h
  · simp only [Bool.and_eq_true] at h
    obtain ⟨b, rfl⟩ := Option.isSome_iff_exists.mp h.2
    rw [← List.mem_inits] at hd
    simp only [List.inits, List.map_cons, List.map_nil, List.mem_cons, List.not_mem_nil,
      or_false] at hd
    rcases hd with rfl | rfl | rfl
    · rfl
    · rfl
    · cases hw : c.boostWritten <;> simp [BoostCommand.exec, Boost.restore, hw]
  · rw [List.prefix_nil.mp hd]
    rfl

/-- The CPUs of the slice come back: they were not changed, or the change was noted and they were
the list of all CPUs, or the change changed nothing. -/
def SliceKept (allowed : String) (d : List SliceCommand) : Prop :=
  .set ∈ d → c.sliceSet = true →
    allowed = if .flag ∈ d then c.allCpuString else c.restCpuString

theorem slice_restored_iff (allowed : String) {d : List SliceCommand}
    (hd : d <+: sliceCommands c) :
    (run (SliceCommand.exec c) ⟨allowed, none, false⟩ d).restore c = allowed ↔
      SliceKept c allowed d := by
  unfold sliceCommands at hd
  rw [← List.mem_inits] at hd
  split_ifs at hd with hsys hshown hset <;>
    simp only [List.inits, List.map_cons, List.map_nil, List.mem_cons, List.not_mem_nil,
      or_false] at hd
  · simp only [Bool.and_eq_true] at hsys
    rcases hd with rfl | rfl | rfl | rfl | rfl <;>
      simp [Slice.restore, SliceKept, SliceCommand.exec, hset, hsys.2, eq_comm]
  · rcases hd with rfl | rfl | rfl | rfl <;>
      simp [Slice.restore, SliceKept, SliceCommand.exec, hset]
  · rcases hd with rfl | rfl <;> simp [Slice.restore, SliceKept, SliceCommand.exec]
  · rw [hd]
    simp [Slice.restore, SliceKept]

/-- The configuration of irqbalance comes back: it was not there, or it was noted that it was there
once the backup had been asked for, and the backup was made unless nothing has changed. -/
def IrqbalanceKept (conf : Option String) (d : List IrqbalanceCommand) : Prop :=
  .flag ∈ d → conf.isSome = true →
    .setExisted ∈ d ∧ (c.confCopied = true ∨ (.edit ∈ d → conf.map c.banCpus = conf))

theorem irqbalance_restored_iff (conf : Option String) {d : List IrqbalanceCommand}
    (hd : d <+: irqbalanceCommands c conf) :
    (run (IrqbalanceCommand.exec c) ⟨conf, none, false, false⟩ d).restore = conf ↔
      IrqbalanceKept c conf d := by
  unfold irqbalanceCommands at hd
  by_cases h : (c.cpus && decide (c.restCpuString ≠ "") && usesIrqbalance c) = true
  · rw [if_pos h, ← List.mem_inits] at hd
    rcases conf with _ | text
    · simp only [Option.isSome_none, Bool.false_eq_true, if_false, List.cons_append,
        List.nil_append,
        List.inits, List.map_cons, List.map_nil, List.mem_cons, List.not_mem_nil, or_false] at hd
      rcases hd with rfl | rfl | rfl | rfl | rfl | rfl <;>
        simp [Irqbalance.restore, IrqbalanceKept, IrqbalanceCommand.exec]
    · simp only [Option.isSome_some, if_true, List.cons_append, List.nil_append, List.inits,
        List.map_cons, List.map_nil, List.mem_cons, List.not_mem_nil, or_false] at hd
      rcases hd with rfl | rfl | rfl | rfl | rfl | rfl <;> cases hcopy : c.confCopied <;>
        simp [Irqbalance.restore, IrqbalanceKept, IrqbalanceCommand.exec, hcopy]
  · rw [if_neg h] at hd
    rw [List.prefix_nil.mp hd]
    simp [Irqbalance.restore, IrqbalanceKept]

/-- The affinities come back: each one that was changed had been saved, or had that value. -/
def IrqsKept (affinity : String → String) (d : List IrqCommand) : Prop :=
  ∀ irq, .set irq ∈ d → c.irqWritten irq = true →
    c.irqSaved irq = true ∨ affinity irq = c.restCpuString

/-- The loop over the interrupts, from any point on. -/
theorem irqLoop_restored_iff {affinity : String → String} : ∀ {irqs : List String} {s : Irqs}
    {d : List IrqCommand}, irqs.Nodup → Sound (s.saved.getD []) affinity →
    (∀ irq ∈ irqs, s.affinity irq = affinity irq ∧ irq ∉ (s.saved.getD []).map Prod.fst) →
    d <+: irqLoop irqs →
    ((run (IrqCommand.exec c) s d).restore = affinity ↔
      s.restore = affinity ∧ IrqsKept c affinity d)
  | [], s, d, _, _, _, hd => by
    rw [List.prefix_nil.mp hd]
    simp [IrqsKept]
  | irq :: irqs, s, d, hnodup, hsound, hsame, hd => by
    obtain ⟨hirq, hnodup⟩ := List.nodup_cons.mp hnodup
    obtain ⟨hvalue, hnew⟩ := hsame irq (by simp)
    rw [irqLoop] at hd
    -- after the affinity has been saved, or not
    have hsave : Sound ((IrqCommand.exec c s (.save irq)).saved.getD []) affinity ∧
        (IrqCommand.exec c s (.save irq)).affinity = s.affinity ∧
        ∀ k, k ∉ ((IrqCommand.exec c s (.save irq)).saved.getD []).map Prod.fst ↔
          k ∉ (s.saved.getD []).map Prod.fst ∧ (k = irq → c.irqSaved irq = false) := by
      cases hs : c.irqSaved irq with
      | true =>
        refine ⟨?_, by simp [IrqCommand.exec, hs], fun k => ?_⟩
        · simp only [IrqCommand.exec, hs, if_true, Option.getD_some, hvalue]
          exact hsound.concat irq
        · simp [IrqCommand.exec, hs]
      | false => simpa [IrqCommand.exec, hs] using hsound
    obtain ⟨hsound1, haff1, hkeys1⟩ := hsave
    have hrestore1 : (IrqCommand.exec c s (.save irq)).restore = affinity ↔
        s.restore = affinity := by
      rw [Irqs.restore, Irqs.restore, restoreAll_eq_iff hsound1, restoreAll_eq_iff hsound, haff1]
      refine forall_congr' fun k => ?_
      rw [hkeys1]
      constructor
      · intro h hk
        by_cases he : k = irq
        · rw [he, hvalue]
        · exact h ⟨hk, fun hk => absurd hk he⟩
      · exact fun h hk => h hk.1
    rcases List.prefix_cons_iff.mp hd with rfl | ⟨t, rfl, ht⟩
    · simp [IrqsKept]
    rw [run_cons]
    rcases List.prefix_cons_iff.mp ht with rfl | ⟨u, rfl, hu⟩
    · simpa [IrqsKept] using hrestore1
    rw [run_cons]
    generalize IrqCommand.exec c s (.save irq) = s1 at hsound1 haff1 hkeys1 hrestore1 ⊢
    -- after it has been set, or not
    have hset : (IrqCommand.exec c s1 (.set irq)).saved = s1.saved ∧
        (IrqCommand.exec c s1 (.set irq)).affinity =
          if c.irqWritten irq then Function.update s1.affinity irq c.restCpuString
          else s1.affinity := by
      cases hw : c.irqWritten irq <;> simp [IrqCommand.exec, hw]
    generalize IrqCommand.exec c s1 (.set irq) = s2 at hset ⊢
    obtain ⟨hsaved2, haff2⟩ := hset
    have hsame2 : ∀ k ∈ irqs, s2.affinity k = affinity k ∧
        k ∉ (s2.saved.getD []).map Prod.fst := by
      intro k hk
      have hne : k ≠ irq := by rintro rfl; exact hirq hk
      obtain ⟨hk1, hk2⟩ := hsame k (by simp [hk])
      refine ⟨?_, by rw [hsaved2, hkeys1]; exact ⟨hk2, fun h => absurd h hne⟩⟩
      rw [haff2]
      split_ifs
      · rw [Function.update_of_ne hne, haff1, hk1]
      · rw [haff1, hk1]
    rw [irqLoop_restored_iff hnodup (by rw [hsaved2]; exact hsound1) hsame2 hu]
    have hrestore2 : s2.restore = affinity ↔ s.restore = affinity ∧
        (c.irqWritten irq = true → c.irqSaved irq = true ∨ affinity irq = c.restCpuString) := by
      rw [← hrestore1, Irqs.restore, Irqs.restore, hsaved2, restoreAll_eq_iff hsound1,
        restoreAll_eq_iff hsound1, haff2]
      cases hw : c.irqWritten irq with
      | false => simp
      | true =>
        simp only [if_true, forall_const]
        constructor
        · intro h
          refine ⟨fun k hk => ?_, ?_⟩
          · by_cases he : k = irq
            · rw [he, haff1, hvalue]
            · rw [← h k hk, Function.update_of_ne he]
          · cases hs : c.irqSaved irq with
            | true => exact .inl rfl
            | false =>
              have := h irq ((hkeys1 irq).mpr ⟨hnew, fun _ => hs⟩)
              rw [Function.update_self] at this
              exact .inr this.symm
        · rintro ⟨h, hor⟩ k hk
          by_cases he : k = irq
          · subst he
            rw [Function.update_self]
            rcases hor with hs | hor
            · rw [((hkeys1 k).mp hk).2 rfl] at hs
              cases hs
            · exact hor.symm
          · rw [Function.update_of_ne he, h k hk]
    rw [hrestore2, and_assoc]
    refine and_congr_right fun _ => ?_
    constructor
    · rintro ⟨hone, hrest⟩ k hk
      simp only [List.mem_cons, reduceCtorEq, IrqCommand.set.injEq, false_or] at hk
      rcases hk with rfl | hk
      · exact hone
      · exact hrest k hk
    · exact fun h => ⟨h irq (by simp), fun k hk => h k (by simp [hk])⟩

theorem irqs_restored_iff (affinity : String → String) {d : List IrqCommand}
    (hd : d <+: irqCommands c) :
    (run (IrqCommand.exec c) ⟨affinity, none⟩ d).restore = affinity ↔ IrqsKept c affinity d := by
  unfold irqCommands at hd
  split_ifs at hd
  · rcases List.prefix_cons_iff.mp hd with rfl | ⟨t, rfl, ht⟩
    · simp [Irqs.restore, restoreAll, IrqsKept]
    have h := irqLoop_restored_iff c (s := ⟨affinity, some []⟩) c.irqsNodup (sound_nil affinity)
      (fun irq _ => ⟨rfl, by simp⟩) ht
    rw [run_cons]
    change (run (IrqCommand.exec c) ⟨affinity, some []⟩ t).restore = affinity ↔ _
    rw [h]
    simp [IrqsKept, Irqs.restore, restoreAll]
  · rw [List.prefix_nil.mp hd]
    simp [Irqs.restore, restoreAll, IrqsKept]

end

/-! ### The whole script -/

def Command.governor? : Command → Option GovernorCommand
  | .governor x => some x
  | _ => none

def Command.boost? : Command → Option BoostCommand
  | .boost x => some x
  | _ => none

def Command.slice? : Command → Option SliceCommand
  | .slice x => some x
  | _ => none

def Command.irqbalance? : Command → Option IrqbalanceCommand
  | .irqbalance x => some x
  | _ => none

def Command.irq? : Command → Option IrqCommand
  | .irq x => some x
  | _ => none

/-- **When everything is restored**: for every stop between two commands, exactly when the slice,
the configuration of irqbalance and the interrupts are kept. Governors and boost always come
back. -/
theorem restoreSettings_eq_iff (c : Config) (h : Host) {done : List Command}
    (hdone : done <+: script c h) :
    restoreSettings c (run (exec c) (.start h) done) = h ↔
      SliceKept c h.allowedCpus (done.filterMap Command.slice?) ∧
      IrqbalanceKept c h.irqbalanceConf (done.filterMap Command.irqbalance?) ∧
      IrqsKept c h.affinity (done.filterMap Command.irq?) := by
  have hpart {β : Type} (part : Command → Option β) : done.filterMap part <+:
      (script c h).filterMap part := hdone.filterMap part
  simp only [script, List.filterMap_append, List.filterMap_map, Function.comp_def] at hpart
  have hg := governors_restored c h.governor
    (by simpa [Command.governor?] using hpart Command.governor?)
  have hb := boost_restored c h.boost (by simpa [Command.boost?] using hpart Command.boost?)
  have hs := slice_restored_iff c h.allowedCpus
    (by simpa [Command.slice?] using hpart Command.slice?)
  have hq := irqbalance_restored_iff c h.irqbalanceConf
    (by simpa [Command.irqbalance?] using hpart Command.irqbalance?)
  have hi := irqs_restored_iff c h.affinity (by simpa [Command.irq?] using hpart Command.irq?)
  -- each part of the state has gone through its own commands only
  have hgov : (run (exec c) (.start h) done).governors = run (GovernorCommand.exec c)
      ⟨h.governor, none⟩ (done.filterMap Command.governor?) :=
        run_part (fun s a => by cases a <;> rfl) _ _
  have hboost : (run (exec c) (.start h) done).boost = run (BoostCommand.exec c)
      ⟨h.boost, none⟩ (done.filterMap Command.boost?) :=
        run_part (fun s a => by cases a <;> rfl) _ _
  have hslice : (run (exec c) (.start h) done).slice = run (SliceCommand.exec c)
      ⟨h.allowedCpus, none, false⟩ (done.filterMap Command.slice?) :=
    run_part (fun s a => by cases a <;> rfl) _ _
  have hirqbalance : (run (exec c) (.start h) done).irqbalance = run (IrqbalanceCommand.exec c)
      ⟨h.irqbalanceConf, none, false, false⟩ (done.filterMap Command.irqbalance?) :=
    run_part (fun s a => by cases a <;> rfl) _ _
  have hirqs : (run (exec c) (.start h) done).irqs = run (IrqCommand.exec c)
      ⟨h.affinity, none⟩ (done.filterMap Command.irq?) :=
        run_part (fun s a => by cases a <;> rfl) _ _
  rw [restoreSettings, hgov, hboost, hslice, hirqbalance, hirqs, hg, hb, ← hs, ← hq, ← hi]
  constructor
  · intro he
    exact ⟨congrArg Host.allowedCpus he, congrArg Host.irqbalanceConf he, congrArg Host.affinity he⟩
  · rintro ⟨h1, h2, h3⟩
    rw [h1, h2, h3]

/-- Two CPUs of four are reserved on a machine without irqbalance, with one policy and one
interrupt. -/
def fourCpus : Config where
  changeGovernor := true
  cpupower := true
  goWith := "performance"
  policies := ["policy0"]
  cpupowerSets _ := true
  changeBoost := true
  disableBoost := true
  boostWritten := true
  cpus := true
  systemctl := true
  allCpuString := "0-3"
  restCpuString := "2-3"
  sliceShown := true
  sliceSet := true
  irqbalanceActive := false
  confCopied := true
  banCpus text := text ++ "\nIRQBALANCE_BANNED_CPUS=0x3\n"
  irqs := ["24"]
  irqsNodup := by decide
  irqSaved _ := true
  irqWritten _ := true

/-- A host whose slice has given CPUs. -/
def hostWith (allowedCpus : String) : Host :=
  ⟨fun _ => "schedutil", some "1", allowedCpus, some "", fun _ => "0-3"⟩

theorem restoreSettings_eq_iff_all_cpus :
    restoreSettings fourCpus
      (run (exec fourCpus) (.start (hostWith "0-3")) (script fourCpus (hostWith "0-3"))) =
        hostWith "0-3" := by
  refine (restoreSettings_eq_iff fourCpus (hostWith "0-3") (List.prefix_refl _)).mpr
    ⟨fun _ _ => by decide, fun hflag => ?_, fun _ _ _ => .inl rfl⟩
  exact absurd hflag (by decide)

/-- A slice without a list of CPUs gets one. -/
theorem restoreSettings_slice :
    (restoreSettings fourCpus
      (run (exec fourCpus) (.start (hostWith "")) (script fourCpus (hostWith "")))).allowedCpus =
        "0-3" ∧ (hostWith "").allowedCpus = "" := by
  decide

end PapQuic.Script.HostTuning
