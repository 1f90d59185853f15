import PapQuic.Lib.Re
import PapQuic.Lib.StableSort
import Mathlib.Data.List.Dedup

/-! # Selecting physical cores

`scripts/select_physical_cpus.py`: it reads the topology of the host from `/sys`, selects physical
cores for the benchmark, or describes a list of CPUs it is given, and lays the cores out for the
server and the client.

The directories are given by what the script reads from them (`Sys`); the numbers in them are
written in decimal. -/

namespace PapQuic.Script.Cpus

open Lib.Printf Lib.Re Lib.StableSort

/-- The exceptions that the script raises, with their messages. -/
inductive PyError
  | valueError (message : Text)
  | runtimeError (message : Text)
  deriving DecidableEq, Repr

/-! ### CPU lists -/

/-- Digits, with single underscores between them. The decimal digits of other scripts, which Python
takes too, are left out. -/
def pyDigits (s : Text) : Option ℕ :=
  if (s.splitOn '_').all fun part => !part.isEmpty && part.all isDec then
    some (ofDec (s.filter (· ≠ '_')))
  else none

/-- `int` of a text; `none` is its `ValueError`. -/
def pyInt (s : Text) : Option ℤ :=
  match strip s with
  | '-' :: s => (pyDigits s).map fun n => -n
  | '+' :: s => (pyDigits s).map fun n => n
  | s => (pyDigits s).map fun n => n

/-- `f"invalid CPU range '{part}'"` and `f"invalid CPU entry '{part}'"`. -/
def invalidCpu (kind : String) (part : Text) : PyError :=
  .valueError ("invalid CPU ".toList ++ kind.toList ++ " '".toList ++ part ++ "'".toList)

/-- What a part of a CPU list adds. No number in it is negative: a part with a hyphen is a range,
and a range ends where it starts or later. -/
def expandPart (part : Text) : Except PyError (List ℕ) :=
  if '-' ∈ part then
    match pyInt (part.takeWhile (· ≠ '-')), pyInt ((part.dropWhile (· ≠ '-')).drop 1) with
    | some start, some last =>
      if start > last then .error (invalidCpu "range" part)
      else .ok (List.range' start.toNat (last.toNat + 1 - start.toNat))
    | _, _ => .error (invalidCpu "range" part)
  else
    match pyInt part with
    | some cpu => .ok [cpu.toNat]
    | none => .error (invalidCpu "entry" part)

/-- `_expand_cpu_list`. -/
def expandCpuList (spec : Text) : Except PyError (List ℕ) :=
  if spec = [] then .ok []
  else
    (((spec.splitOn ',').map strip).filter (· ≠ [])).foldlM
      (fun cpus part => (cpus ++ ·) <$> expandPart part) []

/-! ### The host -/

/-- A file under `/sys`. -/
inductive SysFile
  | missing
  | unreadable
  | content (text : Text)
  deriving DecidableEq, Repr

/-- `path.exists()`. -/
def SysFile.exists : SysFile → Bool
  | .missing => false
  | _ => true

/-- `_read_file`. -/
def readFile : SysFile → Option Text
  | .content text => some (strip text)
  | _ => none

/-- `content or default`, where the content may be missing and may be empty. -/
def orElse (content : Option Text) (default : Text) : Text :=
  if content.getD [] = [] then default else content.getD []

/-- The files of a directory `cpu<n>`. -/
structure CpuDir where
  online : SysFile
  threadSiblingsList : SysFile
  coreId : SysFile
  deriving DecidableEq, Repr

/-- What the script reads: the directories `cpu<n>`, and the directories `node<n>` in the order of
their names, each with its `cpulist`. -/
structure Sys where
  cpus : List (ℕ × CpuDir)
  nodes : List (ℕ × SysFile)
  deriving Repr

/-- The directory of a CPU. -/
def Sys.dir (sys : Sys) (cpu : ℕ) : Option CpuDir := sys.cpus.lookup cpu

/-- A file of a CPU. -/
def Sys.file (sys : Sys) (cpu : ℕ) (file : CpuDir → SysFile) : SysFile :=
  (sys.dir cpu).elim .missing file

/-- `_cpu_online`. -/
def cpuOnline (sys : Sys) (cpu : ℕ) : Bool :=
  if (sys.file cpu CpuDir.online).exists then readFile (sys.file cpu CpuDir.online) ≠
    some "0".toList
  else (sys.dir cpu).isSome

/-- `sorted(set(cpus))`. -/
def sortedSet (cpus : List ℕ) : List ℕ := sortBy id cpus.dedup

/-- `_thread_siblings`. -/
def threadSiblings (sys : Sys) (cpu : ℕ) : Except PyError (List ℕ) :=
  match readFile (sys.file cpu CpuDir.threadSiblingsList) with
  | none | some [] => .ok [cpu]
  | some content => do
    let online := (sortedSet (← expandCpuList content)).filter (cpuOnline sys)
    return if online = [] then [cpu] else online

/-- `_build_cpu_node_map`. A list that cannot be read or expanded is passed over. -/
def buildCpuNodeMap (sys : Sys) : List (ℕ × ℕ) :=
  sys.nodes.flatMap fun (nodeId, cpulist) =>
    match readFile cpulist with
    | none | some [] => []
    | some content =>
      match expandCpuList content with
      | .error _ => []
      | .ok cpus => cpus.map (·, nodeId)

/-- `_cpu_node`: the last entry of a CPU counts. -/
def cpuNode (sys : Sys) (cpu : ℕ) : Option ℕ := (buildCpuNodeMap sys).reverse.lookup cpu

/-! ### Cores -/

/-- `CoreInfo`. A core has at least one CPU, the primary one. -/
structure CoreInfo where
  coreId : Text
  cpus : List ℕ
  containsCpu0 : Bool
  skipped : Bool
  nodeId : Option ℕ
  cpus_ne_nil : cpus ≠ []
  deriving DecidableEq

def CoreInfo.primary (core : CoreInfo) : ℕ := core.cpus.head core.cpus_ne_nil

def CoreInfo.siblings (core : CoreInfo) : List ℕ := core.cpus.tail

/-- `_read_file(cpu_path / "topology" / "core_id") or str(cpu)`. -/
def coreIdText (sys : Sys) (cpu : ℕ) : Text :=
  orElse (readFile (sys.file cpu CpuDir.coreId)) (dec cpu)

/-- The loop of `_collect_cores`. -/
def collectLoop (sys : Sys) (skip : List ℕ) :
    List (List ℕ) → List ℕ → Except PyError (List CoreInfo)
  | _, [] => .ok []
  | seen, cpu :: cpus =>
    if cpuOnline sys cpu = false then collectLoop sys skip seen cpus
    else do
      let siblings := sortBy id (← threadSiblings sys cpu)
      if hne : siblings = [] then collectLoop sys skip seen cpus
      else if siblings ∈ seen then collectLoop sys skip seen cpus
      else if 0 ∈ siblings then collectLoop sys skip (siblings :: seen) cpus
      else do
        let cores ← collectLoop sys skip (siblings :: seen) cpus
        return ⟨coreIdText sys cpu, siblings, 0 ∈ siblings, siblings.any (· ∈ skip),
          cpuNode sys cpu, hne⟩ :: cores

/-- `_collect_cores`. -/
def collectCores (sys : Sys) (skip : List ℕ) : Except PyError (List CoreInfo) :=
  sortBy CoreInfo.primary <$> collectLoop sys skip [] (sortBy id (sys.cpus.map Prod.fst))

/-! ### Layouts -/

/-- An entry of `roles`; `reserved` may be missing. -/
structure RoleInfo where
  coreId : Text
  cpu : ℕ
  siblings : List ℕ
  numaNode : Option ℕ
  reserved : Option (List ℕ)
  deriving DecidableEq, Repr

/-- `roles`; an entry may be missing. -/
structure Roles where
  server : Option RoleInfo
  client : Option RoleInfo
  deriving DecidableEq, Repr

/-- The entry of a core that a role has for itself. -/
def ownCore (core : CoreInfo) : RoleInfo where
  coreId := core.coreId
  cpu := core.primary
  siblings := core.siblings
  numaNode := core.nodeId
  reserved := if core.siblings = [] then none else some core.cpus

/-- The entry of a client that has no core of its own. -/
def sharedCore (server : CoreInfo) : RoleInfo :=
  let altCpu := server.siblings.headD server.primary
  { coreId := server.coreId
    cpu := altCpu
    siblings := server.cpus.filter (· ≠ altCpu)
    numaNode := server.nodeId
    reserved := none }

/-- `_assign_roles`. -/
def assignRoles : List CoreInfo → Roles
  | [] => ⟨none, none⟩
  | [server] => ⟨some (ownCore server), some (sharedCore server)⟩
  | server :: client :: _ => ⟨some (ownCore server), some (ownCore client)⟩

/-- An entry of `pairs`; `selected` is added by `_describe_cpuset`. -/
structure LayoutPair where
  coreId : Text
  cpus : List ℕ
  primary : ℕ
  siblings : List ℕ
  numaNode : Option ℕ
  selected : Option (List ℕ)
  deriving DecidableEq, Repr

structure Layout where
  pairs : List LayoutPair
  cpuset : List ℕ
  roles : Roles
  deriving DecidableEq, Repr

def layoutPair (core : CoreInfo) : LayoutPair :=
  ⟨core.coreId, core.cpus, core.primary, core.siblings, core.nodeId, none⟩

/-- `_layout_from_pairs`. -/
def layoutFromPairs (pairs : List CoreInfo) : Layout where
  pairs := pairs.map layoutPair
  cpuset := (pairs.flatMap CoreInfo.cpus).eraseDups
  roles := assignRoles pairs

/-- The loop of `_describe_cpuset`. -/
def describeLoop (sys : Sys) : List Text → List ℕ → Except PyError (List CoreInfo)
  | _, [] => .ok []
  | seen, cpu :: cpus =>
    if sys.dir cpu = none then describeLoop sys seen cpus
    else if coreIdText sys cpu ∈ seen then describeLoop sys seen cpus
    else do
      let siblings ← threadSiblings sys cpu
      let cores ← describeLoop sys (coreIdText sys cpu :: seen) cpus
      if hne : sortedSet siblings = [] then return cores
      else
        return ⟨coreIdText sys cpu, sortedSet siblings, 0 ∈ siblings, false,
          cpuNode sys cpu, hne⟩ :: cores

/-- `_describe_cpuset`. -/
def describeCpuset (sys : Sys) (cpus : List ℕ) : Except PyError Layout := do
  let pairs := sortBy CoreInfo.primary (← describeLoop sys [] (sortedSet cpus))
  let layout := layoutFromPairs pairs
  return { layout with
    pairs := layout.pairs.map fun pair =>
      { pair with selected := some (pair.cpus.filter (· ∈ cpus)) } }

/-- `_order_by_numa`. -/
def orderByNuma (cores : List CoreInfo) : Option ℕ → List CoreInfo
  | none => cores
  | some node => cores.filter (·.nodeId = some node) ++ cores.filter (·.nodeId ≠ some node)

/-- `select_pairs`. -/
def selectPairs (sys : Sys) (count : ℤ) (skip : List ℕ) (preferNode : Option ℕ) :
    Except PyError Layout :=
  if count ≤ 0 then .error (.valueError "count must be positive".toList)
  else do
    let cores ← collectCores sys skip
    let preferred := orderByNuma (cores.filter (!·.skipped)) preferNode
    let deferred := orderByNuma (cores.filter (·.skipped)) preferNode
    let selected := (preferred ++ deferred).take count.toNat
    if (selected.length : ℤ) < count then
      .error (.runtimeError ("only found ".toList ++ dec selected.length ++
        " suitable core(s) without CPU0; requested ".toList ++ dec count.toNat))
    else return layoutFromPairs selected

end PapQuic.Script.Cpus
