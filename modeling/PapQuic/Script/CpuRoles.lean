import PapQuic.Lib.JsonValue
import PapQuic.Script.Cpus

/-! # The CPUs of the server and the client

The layout that `scripts/select_physical_cpus.py` writes to a file is read by
`scripts/run_benchmarks.py`, where `_role_cpu_ids` takes the CPUs of a role from it. With two cores
or more each role has a core for itself. With one core the server reserves all of it, and the client
is given the second CPU but lists the others as its siblings, so both roles have the whole core
(`roleCpuIds_disjoint_iff`). -/

namespace PapQuic.Script.CpuRoles

open Lib.Printf Lib.JsonValue Script.Cpus

/-! ### The file -/

/-- An entry for an optional number. -/
def ofNat? (n : Option ℕ) : Json := n.elim .null fun n => .int n

/-- An entry of `roles`. -/
def roleEntries (r : RoleInfo) : List (Text × Json) :=
  [("core_id".toList, .str r.coreId), ("cpu".toList, .int r.cpu),
    ("siblings".toList, ofNats r.siblings), ("numa_node".toList, ofNat? r.numaNode)] ++
    (r.reserved.map fun cpus => ("reserved".toList, ofNats cpus)).toList

/-- An entry of `pairs`. -/
def pairJson (p : LayoutPair) : Json :=
  .dict ([("core_id".toList, .str p.coreId), ("cpus".toList, ofNats p.cpus),
    ("primary".toList, .int p.primary), ("siblings".toList, ofNats p.siblings),
    ("numa_node".toList, ofNat? p.numaNode)] ++
    (p.selected.map fun cpus => ("selected".toList, ofNats cpus)).toList)

def rolesJson (roles : Roles) : Json :=
  .dict ((roles.server.map fun r => ("server".toList, .dict (roleEntries r))).toList ++
    (roles.client.map fun r => ("client".toList, .dict (roleEntries r))).toList)

/-- What `_write_layout` dumps and `_load_host_tuning_state` loads. -/
def layoutJson (layout : Layout) : Json :=
  .dict [("pairs".toList, .list (layout.pairs.map pairJson)),
    ("cpuset".toList, ofNats layout.cpuset), ("roles".toList, rolesJson layout.roles)]

/-! ### The reader -/

/-- `value or {}`. -/
def orEmpty (value : Option Json) : Json :=
  match value with
  | some value => if value.truthy then value else .dict []
  | none => .dict []

/-- The loop over `info.get("siblings") or []`. -/
def siblingCpus (siblings : Option Json) : Option (List ℤ) :=
  match siblings with
  | some value => if value.truthy then value.iterInts else some []
  | none => some []

/-- The CPUs of an entry, in order and maybe more than once. -/
def entryCpus (info : List (Text × Json)) : Option (List ℤ) :=
  match entry info "reserved".toList with
  | some (.list (cpu :: cpus)) => some ((cpu :: cpus).filterMap Json.asInt)
  | _ =>
    (siblingCpus (entry info "siblings".toList)).map fun siblings =>
      ((entry info "cpu".toList).bind Json.asInt).toList ++ siblings

/-- `_role_cpu_ids`; `none` when it raises an exception. -/
def roleCpuIds (layout : Json) (logicalRole : Text) : Option (List ℤ) :=
  if layout.truthy then do
    let roles := orEmpty (← layout.get "roles".toList)
    match ← roles.get logicalRole with
    | some (.dict info) => return (← entryCpus info).eraseDups
    | _ => return []
  else some []

/-! ### What is read back -/

/-- The CPUs of a role, as they are written. -/
def roleCpus (r : RoleInfo) : List ℕ := r.reserved.getD (r.cpu :: r.siblings)

theorem siblingCpus_ofNats (l : List ℕ) :
    siblingCpus (some (ofNats l)) = some (l.map (Nat.cast : ℕ → ℤ)) := by
  rw [siblingCpus, iterInts_ofNats]
  cases l <;> rfl

theorem entryCpus_roleEntries {r : RoleInfo} (h : r.reserved ≠ some []) :
    entryCpus (roleEntries r) = some ((roleCpus r).map (Nat.cast : ℕ → ℤ)) := by
  obtain ⟨coreId, cpu, siblings, node, reserved⟩ := r
  rcases reserved with _ | _ | ⟨c, cpus⟩
  · change (siblingCpus (some (ofNats siblings))).map ([(cpu : ℤ)] ++ ·) = _
    rw [siblingCpus_ofNats]
    rfl
  · exact absurd rfl h
  · exact iterInts_ofNats (c :: cpus)

/-- **What the reader gets from a layout.** -/
theorem roleCpuIds_layoutJson {layout : Layout} {s c : RoleInfo} (hs : s.reserved ≠ some [])
    (hc : c.reserved ≠ some []) (hr : layout.roles = ⟨some s, some c⟩) :
    roleCpuIds (layoutJson layout) "server".toList =
        some ((roleCpus s).map (Nat.cast : ℕ → ℤ)).eraseDups ∧
      roleCpuIds (layoutJson layout) "client".toList =
        some ((roleCpus c).map (Nat.cast : ℕ → ℤ)).eraseDups := by
  obtain ⟨pairs, cpuset, roles⟩ := layout
  cases hr
  constructor
  · change (do return (← entryCpus (roleEntries s)).eraseDups) = _
    rw [entryCpus_roleEntries hs]
    rfl
  · change (do return (← entryCpus (roleEntries c)).eraseDups) = _
    rw [entryCpus_roleEntries hc]
    rfl

/-! ### Roles -/

/-- The server and the client have CPUs, and none in common. -/
def Separated (layout : Layout) : Prop :=
  ∃ server client, roleCpuIds (layoutJson layout) "server".toList = some server ∧
    roleCpuIds (layoutJson layout) "client".toList = some client ∧
    server ≠ [] ∧ client ≠ [] ∧ server.Disjoint client

theorem cpus_eq (core : CoreInfo) : core.cpus = core.primary :: core.siblings :=
  (List.cons_head_tail core.cpus_ne_nil).symm

theorem reserved_ownCore (core : CoreInfo) : (ownCore core).reserved ≠ some [] := by
  unfold ownCore
  split_ifs
  · simp
  · simpa using core.cpus_ne_nil

theorem roleCpus_ownCore (core : CoreInfo) : roleCpus (ownCore core) = core.cpus := by
  unfold roleCpus ownCore
  split_ifs with h
  · exact (cpus_eq core).symm
  · rfl

/-- The client that shares a core has all of it. -/
theorem mem_roleCpus_sharedCore {core : CoreInfo} {cpu : ℕ} :
    cpu ∈ roleCpus (sharedCore core) ↔ cpu ∈ core.cpus := by
  have halt : core.siblings.headD core.primary ∈ core.cpus := by
    rw [cpus_eq]
    rcases core.siblings with _ | ⟨c, l⟩
    · simp
    · simp
  simp only [roleCpus, sharedCore, Option.getD_none, List.mem_cons, List.mem_filter,
    decide_eq_true_eq]
  constructor
  · rintro (rfl | ⟨hm, -⟩)
    · exact halt
    · exact hm
  · intro hm
    by_cases hc : cpu = core.siblings.headD core.primary
    · exact .inl hc
    · exact .inr ⟨hm, hc⟩

theorem separated_iff {layout : Layout} {s c : RoleInfo} (hs : s.reserved ≠ some [])
    (hc : c.reserved ≠ some []) (hr : layout.roles = ⟨some s, some c⟩) :
    Separated layout ↔ roleCpus s ≠ [] ∧ roleCpus c ≠ [] ∧ (roleCpus s).Disjoint (roleCpus c) := by
  obtain ⟨h1, h2⟩ := roleCpuIds_layoutJson hs hc hr
  have hmem (l : List ℕ) (z : ℤ) :
      z ∈ (l.map (Nat.cast : ℕ → ℤ)).eraseDups ↔ ∃ n ∈ l, (n : ℤ) = z := by
    rw [List.mem_eraseDups, List.mem_map]
  have hne (l : List ℕ) : (l.map (Nat.cast : ℕ → ℤ)).eraseDups ≠ [] ↔ l ≠ [] := by
    cases l <;> simp [List.eraseDups_cons]
  constructor
  · rintro ⟨server, client, e1, e2, hserver, hclient, h⟩
    obtain rfl := Option.some.inj (h1.symm.trans e1)
    obtain rfl := Option.some.inj (h2.symm.trans e2)
    exact ⟨(hne _).mp hserver, (hne _).mp hclient, fun n hn hn' =>
      h ((hmem _ _).mpr ⟨n, hn, rfl⟩) ((hmem _ _).mpr ⟨n, hn', rfl⟩)⟩
  · rintro ⟨hserver, hclient, h⟩
    refine ⟨_, _, h1, h2, (hne _).mpr hserver, (hne _).mpr hclient, fun z hz hz' => ?_⟩
    obtain ⟨n, hn, rfl⟩ := (hmem _ _).mp hz
    obtain ⟨m, hm, he⟩ := (hmem _ _).mp hz'
    obtain rfl : m = n := by exact_mod_cast he
    exact h hn hm

/-- **The roles are separated exactly if there are two cores.** The cores have no CPU in common and
together at least two CPUs. -/
theorem roleCpuIds_disjoint_iff {pairs : List CoreInfo}
    (hd : pairs.Pairwise fun a b => a.cpus.Disjoint b.cpus)
    (h2 : 2 ≤ (layoutFromPairs pairs).cpuset.length) :
    Separated (layoutFromPairs pairs) ↔ 2 ≤ pairs.length := by
  match pairs, hd, h2 with
  | [], _, h2 => simp [layoutFromPairs] at h2
  | [core], _, _ =>
    refine iff_of_false (fun h => ?_) (by simp)
    rw [separated_iff (reserved_ownCore core) (by simp [sharedCore]) rfl, roleCpus_ownCore] at h
    have hp : core.primary ∈ core.cpus := List.head_mem core.cpus_ne_nil
    exact h.2.2 hp (mem_roleCpus_sharedCore.mpr hp)
  | server :: client :: rest, hd, _ =>
    refine iff_of_true ?_ (by simp)
    rw [separated_iff (reserved_ownCore server) (reserved_ownCore client) rfl, roleCpus_ownCore,
      roleCpus_ownCore]
    exact ⟨server.cpus_ne_nil, client.cpus_ne_nil, (List.pairwise_cons.mp hd).1 client (by simp)⟩

/-- Two cores with two CPUs each. -/
theorem roleCpuIds_disjoint_iff_two :
    let server : CoreInfo := ⟨"1".toList, [1, 5], false, false, none, by decide⟩
    let client : CoreInfo := ⟨"2".toList, [2, 6], false, false, none, by decide⟩
    Separated (layoutFromPairs [server, client]) ↔ 2 ≤ [server, client].length := by
  intro server client
  exact roleCpuIds_disjoint_iff (by simp [server, client]) (by decide)

/-- One core with the CPUs 2 and 3: both roles get both. -/
theorem roleCpuIds_oneCore :
    let core : CoreInfo := ⟨"1".toList, [2, 3], false, false, none, by decide⟩
    let layout := layoutFromPairs [core]
    layout.cpuset.length = 2 ∧
      roleCpuIds (layoutJson layout) "server".toList = some [2, 3] ∧
      roleCpuIds (layoutJson layout) "client".toList = some [3, 2] := by
  refine ⟨by decide, by decide +kernel, by decide +kernel⟩

end PapQuic.Script.CpuRoles
