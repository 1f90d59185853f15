import Mathlib.Data.List.Basic

/-! # Taking a netem discipline off again

`NetemManager` and `apply_netem_profile` of `scripts/run_benchmarks.py`: five `tc` commands put a
root qdisc with two netem children and two filters on an interface, the body of the `with` block
runs, and `clear` deletes the root again. `clear` does something only when the flag `_active` is
set, and `apply` sets it after the last command. So a root that was installed before a later command
failed stays: the `except` clause and the `finally` clause both call `clear`, to no effect
(`applyNetemProfile_clean_iff`). -/

namespace PapQuic.Script.Netem

/-- `NetemProfile`. -/
structure NetemProfile where
  netemArgs : List String
  reverseNetemArgs : Option (List String)
  enabled : Bool

/-- `forward_args`. -/
def NetemProfile.forwardArgs (p : NetemProfile) : List String := p.netemArgs

/-- `reverse_args`: an empty tuple counts as none. -/
def NetemProfile.reverseArgs (p : NetemProfile) : List String :=
  match p.reverseNetemArgs with
  | some (a :: args) => a :: args
  | _ => p.netemArgs

/-- The commands in the `try` block of `apply`. -/
inductive Step
  | prio | netemForward | netemReverse | filterForward | filterReverse
  deriving DecidableEq, Repr

/-- The command that deletes the root qdisc. -/
def delArgs (interface : String) : List String := ["qdisc", "del", "dev", interface, "root"]

/-- The arguments of a filter on UDP packets. -/
def filterArgs (interface prio port serverPort flowid : String) : List String :=
  ["filter", "replace", "dev", interface, "protocol", "ip", "parent", "1:0", "prio", prio, "u32",
    "match", "ip", "protocol", "17", "0xff", "match", "ip", port, serverPort, "0xffff", "flowid",
    flowid]

/-- The arguments of a command. -/
def Step.args (interface : String) (serverPort : ℕ) (p : NetemProfile) : Step → List String
  | .prio => ["qdisc", "replace", "dev", interface, "root", "handle", "1:", "prio", "bands", "3"]
  | .netemForward =>
    ["qdisc", "replace", "dev", interface, "parent", "1:1", "handle", "10:", "netem"] ++
      p.forwardArgs
  | .netemReverse =>
    ["qdisc", "replace", "dev", interface, "parent", "1:2", "handle", "20:", "netem"] ++
      p.reverseArgs
  | .filterForward => filterArgs interface "1" "dport" (toString serverPort) "1:1"
  | .filterReverse => filterArgs interface "2" "sport" (toString serverPort) "1:2"

def steps : List Step := [.prio, .netemForward, .netemReverse, .filterForward, .filterReverse]

/-! ### The interface -/

/-- The root qdisc of the interface: none, one that was there before, or the one `apply`
installs. -/
inductive Root
  | absent | foreign | installed
  deriving DecidableEq, Repr

/-- What a `tc` command does to the root qdisc when it succeeds. A netem child or a filter belongs
to the root and leaves it in place. -/
def tc (args : List String) (root : Root) : Root :=
  match args with
  | "qdisc" :: "del" :: "dev" :: _ :: "root" :: _ => .absent
  | "qdisc" :: "replace" :: "dev" :: _ :: "root" :: _ => .installed
  | _ => root

/-- How a command ends. An exception other than `BenchmarkError` can come before or after the
command has done its work. -/
inductive Outcome
  | ok | failed | interrupted (done : Bool)
  deriving DecidableEq, Repr

/-- The command did its work. -/
def Outcome.done : Outcome → Bool
  | .ok => true
  | .failed => false
  | .interrupted done => done

inductive Exn
  | benchmarkError | other
  deriving DecidableEq, Repr

/-- The exception that `_run_tc` raises with `check=True`. -/
def Outcome.raises : Outcome → Option Exn
  | .ok => none
  | .failed => some .benchmarkError
  | .interrupted _ => some .other

/-! ### The manager -/

/-- The interface, and the flag `_active`. -/
structure State where
  root : Root
  active : Bool
  deriving DecidableEq, Repr

section

variable (interface : String) (serverPort : ℕ) (p : NetemProfile) (out : Step → Outcome)

/-- The commands one after the other, up to the first exception. -/
def runTc : List Step → State → Option Exn × State
  | [], s => (none, s)
  | x :: xs, s =>
    let s := if (out x).done then { s with root := tc (x.args interface serverPort p) s.root }
      else s
    match (out x).raises with
    | some e => (some e, s)
    | none => runTc xs s

/-- `clear`: the command that deletes the root succeeds. -/
def clear (s : State) : State :=
  if s.active then ⟨tc (delArgs interface) s.root, false⟩ else s

/-- The `try` block of `apply`, its `except` clause, and what follows. -/
def tryBlock (s : State) : Option Exn × State :=
  match runTc interface serverPort p out steps s with
  | (none, s) => (none, { s with active := true })
  | (some .benchmarkError, s) => (some .benchmarkError, clear interface s)
  | (some .other, s) => (some .other, s)

/-- `apply`; `start` is how the first command ends, which deletes what was there before. Its exit
status is not checked. -/
def apply (start : Outcome) (s : State) : Option Exn × State :=
  if !p.enabled then (none, s)
  else
    let s := if start.done then { s with root := tc (delArgs interface) s.root } else s
    match start with
    | .interrupted _ => (some .other, s)
    | _ => tryBlock interface serverPort p out s

/-- `apply_netem_profile` around a body that ends normally or raises an exception: what was raised,
and the interface after the block. -/
def applyNetemProfile (start : Outcome) (body : Option Exn) (root : Root) : Option Exn × State :=
  let (raised, s) := apply interface serverPort p out start ⟨root, false⟩
  (raised.or body, clear interface s)

end

/-! ### What stays -/

section

variable {interface : String} {serverPort : ℕ} {p : NetemProfile} {out : Step → Outcome}

theorem tc_del (root : Root) : tc (delArgs interface) root = .absent := rfl

theorem tc_prio (root : Root) : tc (Step.prio.args interface serverPort p) root = .installed := rfl

theorem tc_child {x : Step} (hx : x ≠ .prio) (root : Root) :
    tc (x.args interface serverPort p) root = root := by
  cases x with
  | prio => exact absurd rfl hx
  | _ => rfl

/-- No exception is raised exactly when all commands succeed. -/
theorem runTc_none_iff : ∀ {xs : List Step} {s : State},
    (runTc interface serverPort p out xs s).1 = none ↔ ∀ x ∈ xs, out x = .ok
  | [], s => by simp [runTc]
  | x :: xs, s => by
    rcases hx : out x with _ | _ | done
    · simpa [runTc, hx, Outcome.raises] using runTc_none_iff
    · simp [runTc, hx, Outcome.raises]
    · simp [runTc, hx, Outcome.raises]

/-- The commands leave the flag alone, and those for children and filters the root. -/
theorem runTc_state : ∀ {xs : List Step} (s : State), .prio ∉ xs →
    (runTc interface serverPort p out xs s).2 = s
  | [], s, _ => rfl
  | x :: xs, s, h => by
    obtain ⟨hx, hxs⟩ := not_or.mp (List.mem_cons.not.mp h)
    have hroot : (if (out x).done then
        { s with root := tc (x.args interface serverPort p) s.root } else s) = s := by
      rw [tc_child (Ne.symm hx), ite_self]
    rw [runTc, hroot]
    rcases (out x).raises with _ | e
    · exact runTc_state s hxs
    · rfl

/-- After the `try` block the root is there exactly when its command did its work. -/
theorem runTc_steps (s : State) :
    (runTc interface serverPort p out steps s).2 =
      if (out .prio).done then ⟨.installed, s.active⟩ else s := by
  rw [steps, runTc, tc_prio]
  rcases (out .prio).raises with _ | e
  · exact runTc_state _ (by decide)
  · rfl

theorem clear_inactive {s : State} (h : s.active = false) : clear interface s = s := by
  rw [clear, h]
  rfl

/-- What is left when a fresh manager goes through the `try` block and then clears. -/
theorem clear_tryBlock {s : State} (hactive : s.active = false) (hroot : s.root ≠ .installed) :
    (clear interface (tryBlock interface serverPort p out s).2).root ≠ .installed ↔
      (out .prio).done = false ∨ ∀ x, out x = .ok := by
  have hmem (x : Step) : x ∈ steps := by cases x <;> decide
  have hstate : (runTc interface serverPort p out steps s).2 =
      if (out .prio).done then ⟨.installed, s.active⟩ else s := runTc_steps s
  have hraised : (runTc interface serverPort p out steps s).1 = none ↔ ∀ x ∈ steps, out x = .ok :=
    runTc_none_iff
  unfold tryBlock
  generalize runTc interface serverPort p out steps s = r at hstate hraised ⊢
  obtain ⟨raised, after⟩ := r
  dsimp only at hstate hraised
  have hinactive : after.active = false := by
    rw [hstate]
    split_ifs
    · exact hactive
    · exact hactive
  have hafter : after.root ≠ .installed ↔ (out .prio).done = false := by
    rw [hstate]
    by_cases hd : (out .prio).done = true
    · simp [hd]
    · simp [hd, hroot]
  rcases raised with _ | e
  · have hall : ∀ x, out x = .ok := fun x => hraised.mp rfl x (hmem x)
    have hclear : (clear interface { after with active := true }).root = .absent := rfl
    simp only [hclear]
    exact ⟨fun _ => .inr hall, fun _ => by decide⟩
  · have hnot : ¬ ∀ x, out x = .ok := fun h => by cases hraised.mpr fun x _ => h x
    have hstay : (clear interface after) = after := clear_inactive hinactive
    cases e with
    | benchmarkError => simp only [hstay, hafter, hnot, or_false]
    | other => simp only [hstay, hafter, hnot, or_false]

/-- **When the interface is clean after the block**: exactly when the root qdisc was not installed,
or every command in `apply` succeeded. -/
theorem applyNetemProfile_clean_iff (interface : String) (serverPort : ℕ) {p : NetemProfile}
    (henabled : p.enabled = true) (out : Step → Outcome) (start : Outcome) (body : Option Exn)
    {root : Root} (hroot : root ≠ .installed) :
    (applyNetemProfile interface serverPort p out start body root).2.root ≠ .installed ↔
      (∃ done, start = .interrupted done) ∨ (out .prio).done = false ∨ ∀ x, out x = .ok := by
  simp only [applyNetemProfile, apply, henabled, Bool.not_true, Bool.false_eq_true, if_false]
  rcases start with _ | _ | done
  · simpa [Outcome.done, tc_del] using
      clear_tryBlock (s := ⟨.absent, false⟩) rfl (by decide)
  · simpa [Outcome.done] using clear_tryBlock (s := ⟨root, false⟩) rfl hroot
  · cases done with
    | true => simp [Outcome.done, tc_del, clear_inactive]
    | false => simp [Outcome.done, clear_inactive, hroot]

/-- The profile `bursty`. -/
def bursty : NetemProfile := ⟨["loss", "state", "0.03", "0.3"], none, true⟩

theorem applyNetemProfile_clean_iff_bursty :
    (applyNetemProfile "lo" 4433 bursty (fun _ => .ok) .ok (some .other) .foreign).2.root ≠
      .installed :=
  (applyNetemProfile_clean_iff "lo" 4433 rfl (fun _ => .ok) .ok (some .other) (by decide)).mpr
    (.inr (.inr fun _ => rfl))

/-- The command for the second child fails, and the root stays. -/
theorem applyNetemProfile_root_stays :
    applyNetemProfile "lo" 4433 bursty (fun x => if x = .netemReverse
      then .failed else .ok) .ok none .absent = (some .benchmarkError, ⟨.installed, false⟩) := by
  decide

end

end PapQuic.Script.Netem
