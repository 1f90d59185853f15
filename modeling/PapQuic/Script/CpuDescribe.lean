import PapQuic.Lib.Firsts
import PapQuic.Script.CpuTopology

/-! # Describing a list of CPUs

`_describe_cpuset` of `scripts/select_physical_cpus.py` takes a list of CPUs and returns their
cores. It passes over a CPU whose `core_id` it has seen, but a `core_id` is unique within a socket
only: of two CPUs with one `core_id` on different sockets the second one is lost
(`describeCpuset_iff`). -/

namespace PapQuic.Script.CpuDescribe

open Lib.Printf Lib.StableSort Lib.Firsts Script.Cpus Script.CpuTopology

/-! ### The loop -/

/-- The core of a CPU as it is described. -/
def describedCore (sys : Sys) (cpu : ℕ) : CoreInfo :=
  ⟨coreIdText sys cpu, siblingsOf sys cpu, 0 ∈ siblingsOf sys cpu, false, cpuNode sys cpu,
    siblingsOf_ne_nil sys cpu⟩

section Loop

variable {sys : Sys}

/-- **The loop keeps the first CPU of each `core_id`.** -/
theorem describeLoop_eq (hp : Partition sys) : ∀ {cpus : List ℕ} (seen : List Text),
    (∀ cpu ∈ cpus, cpuOnline sys cpu = true) →
    describeLoop sys seen cpus = .ok ((firstsBy (coreIdText sys) seen cpus).map (describedCore sys))
  | [], _, _ => rfl
  | cpu :: cpus, seen, ho => by
    obtain ⟨hcpu, hcpus⟩ := List.forall_mem_cons.mp ho
    rw [describeLoop, if_neg (dir_of_online hcpu)]
    by_cases hseen : coreIdText sys cpu ∈ seen
    · rw [if_pos hseen, firstsBy_cons_pos hseen, describeLoop_eq hp seen hcpus]
    · have hset := sortedSet_of_pairwise (pairwise_siblingsOf sys cpu)
      rw [if_neg hseen, firstsBy_cons_neg hseen, hp.reads cpu hcpu, describeLoop_eq hp _ hcpus]
      simp only [bind, Except.bind, hset, dif_neg (siblingsOf_ne_nil sys cpu)]
      rfl

/-- The entry of a core, with the CPUs that were asked for. -/
def describedPair (cpus : List ℕ) (core : CoreInfo) : LayoutPair :=
  { layoutPair core with selected := some (core.cpus.filter (· ∈ cpus)) }

/-- The CPUs whose cores are described. -/
def keptCpus (sys : Sys) (cpus : List ℕ) : List ℕ := firstsBy (coreIdText sys) [] (sortedSet cpus)

/-- **What is returned.** -/
theorem describeCpuset_pairs (hp : Partition sys) {cpus : List ℕ}
    (ho : ∀ cpu ∈ cpus, cpuOnline sys cpu = true) :
    ∃ layout, describeCpuset sys cpus = .ok layout ∧
      layout.pairs = (sortBy CoreInfo.primary ((keptCpus sys cpus).map (describedCore sys))).map
        (describedPair cpus) := by
  have hset : ∀ cpu ∈ sortedSet cpus, cpuOnline sys cpu = true :=
    fun c hc => ho c (mem_sortedSet.mp hc)
  rw [describeCpuset, describeLoop_eq hp [] hset]
  exact ⟨_, rfl, List.map_map⟩

end Loop

/-! ### Which CPUs are described -/

/-- Every CPU is in exactly one entry, and selected there; the entries have no CPU in common and are
sorted by their primary CPUs. -/
structure Describes (cpus : List ℕ) (layout : Layout) : Prop where
  once : ∀ cpu ∈ cpus, layout.pairs.countP (fun p => cpu ∈ p.cpus) = 1
  selected : ∀ cpu ∈ cpus, ∀ p ∈ layout.pairs, cpu ∈ p.cpus → cpu ∈ p.selected.getD []
  disjoint : layout.pairs.Pairwise fun a b => a.cpus.Disjoint b.cpus
  sorted : layout.pairs.Pairwise fun a b => a.primary ≤ b.primary

/-- A predicate that only elements with one key meet holds once, if it holds of an element. -/
theorem countP_eq_one {α κ : Type*} [DecidableEq κ] {key : α → κ} {l : List α}
    {p : α → Bool} {k : κ}
    (hnd : (l.map key).Nodup) (hk : ∀ a ∈ l, p a = true → key a = k) {a : α} (ha : a ∈ l)
    (hpa : p a = true) : l.countP p = 1 := by
  have hle : l.countP p ≤ (l.map key).count k := by
    rw [List.count, List.countP_map]
    exact List.countP_mono_left fun b hb hpb => by simp [hk b hb hpb]
  have hone : (l.map key).count k ≤ 1 := List.nodup_iff_count_le_one.mp hnd k
  have hpos : 0 < l.countP p := List.countP_pos_iff.mpr ⟨a, ha, hpa⟩
  omega

section Topology

variable {sys : Sys} {cpus : List ℕ} {socket : ℕ → ℕ}

/-- Siblings are the CPUs of one socket with one `core_id`. -/
def Sockets (sys : Sys) (socket : ℕ → ℕ) : Prop :=
  ∀ c d, cpuOnline sys c = true → cpuOnline sys d = true →
    (d ∈ siblingsOf sys c ↔ socket c = socket d ∧ coreIdText sys c = coreIdText sys d)

theorem mem_of_mem_keptCpus {c : ℕ} (h : c ∈ keptCpus sys cpus) : c ∈ cpus :=
  mem_sortedSet.mp ((sublist_firstsBy _ _).subset h)

theorem exists_keptCpus {c : ℕ} (h : c ∈ cpus) :
    ∃ e ∈ keptCpus sys cpus, coreIdText sys e = coreIdText sys c :=
  List.mem_map.mp (mem_map_firstsBy.mpr
    ⟨List.not_mem_nil, List.mem_map_of_mem (mem_sortedSet.mpr h)⟩)

theorem countP_pairs (layout : Layout) (hl : layout.pairs =
      (sortBy CoreInfo.primary ((keptCpus sys cpus).map (describedCore sys))).map
        (describedPair cpus)) (cpu : ℕ) :
    layout.pairs.countP (fun p => cpu ∈ p.cpus) =
      (keptCpus sys cpus).countP fun e => cpu ∈ siblingsOf sys e := by
  rw [hl, List.countP_map, (perm_sortBy _ _).countP_eq, List.countP_map]
  rfl

/-- **A list of CPUs is described exactly if no two of its CPUs have one `core_id` on different
sockets.** -/
theorem describeCpuset_iff (hp : Partition sys) (hs : Sockets sys socket)
    (ho : ∀ cpu ∈ cpus, cpuOnline sys cpu = true) :
    (∃ layout, describeCpuset sys cpus = .ok layout ∧ Describes cpus layout) ↔
      ∀ c ∈ cpus, ∀ d ∈ cpus, coreIdText sys c = coreIdText sys d → socket c = socket d := by
  obtain ⟨layout, hlayout, hl⟩ := describeCpuset_pairs hp ho
  have hkept {e : ℕ} (he : e ∈ keptCpus sys cpus) : cpuOnline sys e = true :=
    ho e (mem_of_mem_keptCpus he)
  have hnd : ((keptCpus sys cpus).map (coreIdText sys)).Nodup := nodup_map_firstsBy _ _
  constructor
  · rintro ⟨_, he, h⟩ c hc d hd hcd
    obtain rfl := Except.ok.inj (hlayout.symm.trans he)
    -- the two CPUs are in the core of the one CPU that is kept for their `core_id`
    have hfind (c : ℕ) (hc : c ∈ cpus) : ∃ e ∈ keptCpus sys cpus,
        socket e = socket c ∧ coreIdText sys e = coreIdText sys c := by
      have hpos : 0 < (keptCpus sys cpus).countP fun e => c ∈ siblingsOf sys e := by
        rw [← countP_pairs layout hl, h.once c hc]
        exact Nat.one_pos
      obtain ⟨e, he, hm⟩ := List.countP_pos_iff.mp hpos
      exact ⟨e, he, (hs e c (hkept he) (ho c hc)).mp (by simpa using hm)⟩
    obtain ⟨e, he, hse, hie⟩ := hfind c hc
    obtain ⟨f, hf, hsf, hif⟩ := hfind d hd
    obtain rfl : e = f := List.inj_on_of_nodup_map hnd he hf (by rw [hie, hif, hcd])
    exact hse.symm.trans hsf
  · intro h
    refine ⟨layout, hlayout, ⟨fun cpu hcpu => ?_, fun cpu hcpu p hm hc => ?_, ?_, ?_⟩⟩
    · rw [countP_pairs layout hl]
      obtain ⟨e, he, hie⟩ := @exists_keptCpus sys _ _ hcpu
      refine countP_eq_one (k := coreIdText sys cpu) hnd (fun f hf hm => ?_) he ?_
      · exact ((hs f cpu (hkept hf) (ho cpu hcpu)).mp (by simpa using hm)).2
      · have hsock := h e (mem_of_mem_keptCpus he) cpu hcpu hie
        simpa using (hs e cpu (hkept he) (ho cpu hcpu)).mpr ⟨hsock, hie⟩
    · rw [hl] at hm
      obtain ⟨core, -, rfl⟩ := List.mem_map.mp hm
      exact List.mem_filter.mpr ⟨hc, by simpa using hcpu⟩
    · rw [hl, List.pairwise_map]
      refine ((perm_sortBy _ _).pairwise_iff fun h => h.symm).mpr ?_
      rw [List.pairwise_map]
      refine (List.pairwise_map.mp hnd).imp_of_mem fun {a b} ha hb hne c hca hcb => hne ?_
      have hc := hp.online (hkept ha) hca
      exact ((hs a c (hkept ha) hc).mp hca).2.trans ((hs b c (hkept hb) hc).mp hcb).2.symm
    · rw [hl, List.pairwise_map]
      exact pairwise_sortBy _ _

end Topology

/-! ### Two sockets -/

theorem sockets_of_forall {sys : Sys} {socket : ℕ → ℕ}
    (h : ∀ c ∈ sys.cpus.map Prod.fst, ∀ d ∈ sys.cpus.map Prod.fst,
      (d ∈ siblingsOf sys c ↔ socket c = socket d ∧ coreIdText sys c = coreIdText sys d)) :
    Sockets sys socket :=
  fun c d hc hd => h c (mem_of_online hc) d (mem_of_online hd)

/-- A directory with the given siblings and `core_id`, of a CPU that is online. -/
def cpuDir (siblings coreId : String) : CpuDir :=
  ⟨.content "1\n".toList, .content siblings.toList, .content coreId.toList⟩

/-- Two sockets with one core of two CPUs each. -/
def twoSockets (coreId : String) : Sys :=
  ⟨[(0, cpuDir "0,2\n" "0\n"), (1, cpuDir "1,3\n" coreId), (2, cpuDir "0,2\n" "0\n"),
    (3, cpuDir "1,3\n" coreId)], []⟩

/-- With a `core_id` for each core, the CPUs 3 and 0 are described. -/
theorem describeCpuset_iff_distinct :
    ∃ layout, describeCpuset (twoSockets "1\n") [3, 0] = .ok layout ∧ Describes [3, 0] layout :=
  (@describeCpuset_iff _ _ (· % 2) (partition_of_forall (by decide +kernel))
    (sockets_of_forall (by decide +kernel)) (by decide +kernel)).mpr (by decide +kernel)

/-- Both cores have the `core_id` 0, and the CPU 3 is lost. -/
theorem describeCpuset_lost :
    Partition (twoSockets "0\n") ∧ Sockets (twoSockets "0\n") (· % 2) ∧
      (∀ cpu ∈ [0, 3], cpuOnline (twoSockets "0\n") cpu = true) ∧
      (describeCpuset (twoSockets "0\n") [0, 3]).map (·.pairs.map LayoutPair.cpus) = .ok [[0, 2]] :=
  ⟨partition_of_forall (by decide +kernel), sockets_of_forall (by decide +kernel),
    by decide +kernel, by decide +kernel⟩

end PapQuic.Script.CpuDescribe
