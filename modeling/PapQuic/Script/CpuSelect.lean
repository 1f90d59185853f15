import Mathlib.Data.Finset.Card
import Mathlib.Data.Finset.Image
import PapQuic.Lib.Firsts
import PapQuic.Script.CpuTopology

/-! # Selecting cores

`select_pairs` of `scripts/select_physical_cpus.py` takes the first cores in an order: those with a
skipped CPU come last, and among the others and among these the cores of a preferred node come
first, otherwise those with lower CPUs.

The skipped CPUs are meant to change the order only, but `_collect_cores` leaves out the core of CPU
0 whatever is skipped. So the selection is right exactly if this core would not be selected anyway
(`selectPairs_iff`). -/

namespace PapQuic.Script.CpuSelect

open Lib.Printf Lib.StableSort Lib.Firsts Script.Cpus Script.CpuTopology

/-! ### What is asked for -/

/-- The physical cores that are online. -/
def onlineCores (sys : Sys) : Finset (List ℕ) :=
  ((sys.cpus.map Prod.fst).filter (cpuOnline sys)).toFinset.image (siblingsOf sys)

/-- The primary CPU of a core. -/
def primaryOf (core : List ℕ) : ℕ := core.headD 0

/-- The core is not on the preferred node, where there is one. -/
def remote (sys : Sys) (preferNode : Option ℕ) (core : List ℕ) : Bool :=
  preferNode.isSome && cpuNode sys (primaryOf core) ≠ preferNode

/-- The place of a core in the order. -/
def rank (sys : Sys) (skip : List ℕ) (preferNode : Option ℕ) (core : List ℕ) : Bool ×ₗ Bool ×ₗ ℕ :=
  toLex (core.any (· ∈ skip), toLex (remote sys preferNode core, primaryOf core))

/-- The cores of a layout. -/
def coresOf (layout : Layout) : List (List ℕ) := layout.pairs.map LayoutPair.cpus

/-- **What a selection should be.** It succeeds if there are enough cores. Then it has as many as
are asked for, all of them cores that are online, without a CPU in common and in the right order,
and all others come later in this order. What is skipped changes the order only: the same cores can
be selected whatever is skipped. -/
structure Selects (sys : Sys) (count : ℤ) (skip : List ℕ) (preferNode : Option ℕ) : Prop where
  succeeds : (∃ layout, selectPairs sys count skip preferNode = .ok layout) ↔
    count ≤ (onlineCores sys).card
  length : ∀ layout, selectPairs sys count skip preferNode = .ok layout →
    (coresOf layout).length = count
  online : ∀ layout, selectPairs sys count skip preferNode = .ok layout →
    ∀ core ∈ coresOf layout, core ∈ onlineCores sys
  disjoint : ∀ layout, selectPairs sys count skip preferNode = .ok layout →
    (coresOf layout).Pairwise List.Disjoint
  sorted : ∀ layout, selectPairs sys count skip preferNode = .ok layout →
    (coresOf layout).Pairwise fun a b => rank sys skip preferNode a < rank sys skip preferNode b
  first : ∀ layout, selectPairs sys count skip preferNode = .ok layout →
    ∀ core ∈ coresOf layout, ∀ other ∈ onlineCores sys, other ∉ coresOf layout →
      rank sys skip preferNode core < rank sys skip preferNode other
  skipOnly : ∀ skip' core,
    (∃ n layout, selectPairs sys n skip preferNode = .ok layout ∧ core ∈ coresOf layout) ↔
      ∃ n layout, selectPairs sys n skip' preferNode = .ok layout ∧ core ∈ coresOf layout

/-! ### Collecting cores -/

/-- The core of a CPU as it is collected. -/
def collectedCore (sys : Sys) (skip : List ℕ) (cpu : ℕ) : CoreInfo :=
  ⟨coreIdText sys cpu, siblingsOf sys cpu, 0 ∈ siblingsOf sys cpu,
    (siblingsOf sys cpu).any (· ∈ skip), cpuNode sys cpu, siblingsOf_ne_nil sys cpu⟩

section Collect

variable {sys : Sys} {skip : List ℕ}

/-- **The loop keeps the first CPU of each core**, but for the core of CPU 0. -/
theorem collectLoop_eq (hp : Partition sys) : ∀ (cpus : List ℕ) (seen : List (List ℕ)),
    collectLoop sys skip seen cpus =
      .ok (((firstsBy (siblingsOf sys) seen (cpus.filter (cpuOnline sys))).filter
        (0 ∉ siblingsOf sys ·)).map (collectedCore sys skip))
  | [], _ => rfl
  | cpu :: cpus, seen => by
    rw [collectLoop]
    split_ifs with ho
    · rw [List.filter_cons_of_neg (by simp [ho]), collectLoop_eq hp]
    · have hcpu : cpuOnline sys cpu = true := by simpa using ho
      obtain ⟨hne, hsorted⟩ := siblingsOf_spec sys cpu
      have hsort : sortBy id (siblingsOf sys cpu) = siblingsOf sys cpu :=
        sortBy_of_pairwise (hsorted.imp Nat.le_of_lt)
      rw [List.filter_cons_of_pos hcpu, hp.reads cpu hcpu]
      simp only [bind, Except.bind, hsort, dif_neg hne]
      split_ifs with hseen h0
      · rw [firstsBy_cons_pos hseen, collectLoop_eq hp]
      · rw [firstsBy_cons_neg hseen, List.filter_cons_of_neg (by simpa using h0), collectLoop_eq hp]
      · rw [firstsBy_cons_neg hseen, List.filter_cons_of_pos (by simpa using h0), collectLoop_eq hp]
        rfl

/-- The CPUs whose cores are collected, each the primary one of its core. -/
def keptCpus (sys : Sys) : List ℕ :=
  (firstsBy (siblingsOf sys) []
    ((sortBy id (sys.cpus.map Prod.fst)).filter (cpuOnline sys))).filter (0 ∉ siblingsOf sys ·)

theorem collectCores_eq (hp : Partition sys) (skip : List ℕ) :
    collectCores sys skip =
      .ok (sortBy CoreInfo.primary ((keptCpus sys).map (collectedCore sys skip))) := by
  rw [collectCores, collectLoop_eq hp]
  rfl

theorem online_of_mem_keptCpus {cpu : ℕ} (h : cpu ∈ keptCpus sys) : cpuOnline sys cpu = true :=
  (List.mem_filter.mp ((sublist_firstsBy _ _).subset (List.mem_filter.mp h).1)).2

/-- **The cores that are collected** are those that are online, without that of CPU 0. -/
theorem mem_map_keptCpus {core : List ℕ} :
    core ∈ (keptCpus sys).map (siblingsOf sys) ↔ core ∈ onlineCores sys ∧ 0 ∉ core := by
  have hmem : core ∈ (firstsBy (siblingsOf sys) []
      ((sortBy id (sys.cpus.map Prod.fst)).filter (cpuOnline sys))).map (siblingsOf sys) ↔
      core ∈ onlineCores sys := by
    rw [mem_map_firstsBy, onlineCores, Finset.mem_image]
    simp [List.mem_filter, (perm_sortBy (id : ℕ → ℕ) _).mem_iff]
  rw [← hmem, keptCpus]
  constructor
  · intro h
    obtain ⟨cpu, hm, rfl⟩ := List.mem_map.mp h
    obtain ⟨hm, h0⟩ := List.mem_filter.mp hm
    exact ⟨List.mem_map_of_mem hm, by simpa using h0⟩
  · rintro ⟨h, h0⟩
    obtain ⟨cpu, hm, rfl⟩ := List.mem_map.mp h
    exact List.mem_map_of_mem (List.mem_filter.mpr ⟨hm, by simpa using h0⟩)

theorem nodup_map_keptCpus : ((keptCpus sys).map (siblingsOf sys)).Nodup :=
  (nodup_map_firstsBy _ _).sublist (List.filter_sublist.map _)

theorem primaryOf_mem (cpu : ℕ) : primaryOf (siblingsOf sys cpu) ∈ siblingsOf sys cpu := by
  obtain ⟨c, l, he⟩ := List.exists_cons_of_ne_nil (siblingsOf_ne_nil sys cpu)
  simp [he, primaryOf]

/-- The primary CPU is the lowest one. -/
theorem primaryOf_le {cpu c : ℕ} (h : c ∈ siblingsOf sys cpu) :
    primaryOf (siblingsOf sys cpu) ≤ c := by
  have hs := pairwise_siblingsOf sys cpu
  rcases he : siblingsOf sys cpu with _ | ⟨d, l⟩
  · rw [he] at h
    cases h
  · rw [he] at h hs
    rcases List.mem_cons.mp h with rfl | h
    · exact le_rfl
    · exact ((List.pairwise_cons.mp hs).1 c h).le

/-- A CPU that is kept is the primary one of its core. -/
theorem primaryOf_of_mem_keptCpus (hp : Partition sys) {cpu : ℕ} (h : cpu ∈ keptCpus sys) :
    primaryOf (siblingsOf sys cpu) = cpu := by
  have ho := online_of_mem_keptCpus h
  have hpo := hp.online ho (primaryOf_mem cpu)
  refine le_antisymm (primaryOf_le (hp.mem cpu ho)) ?_
  refine le_of_mem_firstsBy ((pairwise_sortBy id _).filter _) (List.mem_filter.mp h).1
    (List.mem_filter.mpr ⟨?_, hpo⟩) (hp.same cpu _ ho (primaryOf_mem cpu))
  exact (perm_sortBy (id : ℕ → ℕ) _).mem_iff.mpr (mem_of_online hpo)

end Collect

/-! ### The order -/

/-- The cores that are collected, by their primary CPUs. -/
def sortedCores (sys : Sys) (skip : List ℕ) : List CoreInfo :=
  sortBy CoreInfo.primary ((keptCpus sys).map (collectedCore sys skip))

/-- A core is not on the preferred node, as its entry says. -/
def CoreInfo.remote (preferNode : Option ℕ) (core : CoreInfo) : Bool :=
  preferNode.isSome && core.nodeId ≠ preferNode

theorem orderByNuma_eq (cores : List CoreInfo) (preferNode : Option ℕ) :
    orderByNuma cores preferNode =
      cores.filter (!CoreInfo.remote preferNode ·) ++
        cores.filter (CoreInfo.remote preferNode) := by
  cases preferNode with
  | none => simp [orderByNuma, CoreInfo.remote]
  | some node =>
    have hremote : CoreInfo.remote (some node) = fun core => !decide (core.nodeId = some node) := by
      funext core
      simp [CoreInfo.remote]
    simp [orderByNuma, hremote]

theorem filter_orderByNuma (p : CoreInfo → Bool) (cores : List CoreInfo) (preferNode : Option ℕ) :
    orderByNuma (cores.filter p) preferNode = (orderByNuma cores preferNode).filter p := by
  simp only [orderByNuma_eq, List.filter_append, List.filter_filter, Bool.and_comm]

/-- The cores in the order in which `select_pairs` takes them. -/
def orderedCores (sys : Sys) (skip : List ℕ) (preferNode : Option ℕ) : List CoreInfo :=
  (orderByNuma (sortedCores sys skip) preferNode).filter (!·.skipped) ++
    (orderByNuma (sortedCores sys skip) preferNode).filter (·.skipped)

section Order

variable {sys : Sys} {skip : List ℕ} {preferNode : Option ℕ}

theorem mem_sortedCores {core : CoreInfo} :
    core ∈ sortedCores sys skip ↔ ∃ cpu ∈ keptCpus sys, collectedCore sys skip cpu = core := by
  rw [sortedCores, (perm_sortBy _ _).mem_iff, List.mem_map]

theorem perm_orderedCores : (orderedCores sys skip preferNode).Perm (sortedCores sys skip) := by
  refine (perm_filter_append _ _ (fun _ => (Bool.not_not _).symm) _).trans ?_
  rw [orderByNuma_eq]
  exact perm_filter_append _ _ (fun _ => (Bool.not_not _).symm) _

theorem primary_eq (core : CoreInfo) : core.primary = primaryOf core.cpus := by
  rw [CoreInfo.primary, primaryOf, List.headD_eq_head?_getD,
    List.head?_eq_some_head core.cpus_ne_nil]
  rfl

/-- **The rank of a core**, as its entry says. -/
theorem rank_eq (hp : Partition sys) {core : CoreInfo} (h : core ∈ sortedCores sys skip) :
    toLex (core.skipped, toLex (CoreInfo.remote preferNode core, core.primary)) =
      rank sys skip preferNode core.cpus := by
  obtain ⟨cpu, hcpu, rfl⟩ := mem_sortedCores.mp h
  have hremote : CoreInfo.remote preferNode (collectedCore sys skip cpu) =
      remote sys preferNode (siblingsOf sys cpu) := by
    rw [remote, primaryOf_of_mem_keptCpus hp hcpu]
    rfl
  rw [hremote, primary_eq]
  rfl

theorem pairwise_sortedCores (hp : Partition sys) (skip : List ℕ) :
    (sortedCores sys skip).Pairwise fun a b => a.primary < b.primary := by
  have hle := pairwise_sortBy CoreInfo.primary ((keptCpus sys).map (collectedCore sys skip))
  have hnd : ((sortedCores sys skip).map CoreInfo.primary).Nodup := by
    rw [sortedCores, ((perm_sortBy _ _).map _).nodup_iff, List.map_map]
    have hid : (keptCpus sys).map (CoreInfo.primary ∘ collectedCore sys skip) =
        (keptCpus sys).map id :=
      List.map_congr_left fun cpu hcpu =>
        (primary_eq _).trans (primaryOf_of_mem_keptCpus hp hcpu)
    rw [hid, List.map_id]
    exact nodup_map_keptCpus.of_map _
  exact hle.imp₂ (fun a b h hne => lt_of_le_of_ne h hne) (List.pairwise_map.mp hnd)

/-- **The cores are taken in the order of their ranks.** -/
theorem pairwise_orderedCores (hp : Partition sys) :
    (orderedCores sys skip preferNode).Pairwise fun a b =>
      rank sys skip preferNode a.cpus < rank sys skip preferNode b.cpus := by
  have hnuma := pairwise_lex_filter (b := CoreInfo.remote preferNode)
    (pairwise_sortedCores hp skip)
  rw [← orderByNuma_eq] at hnuma
  refine (pairwise_lex_filter (b := CoreInfo.skipped) hnuma).imp_of_mem fun {a b} ha hb h => ?_
  rw [rank_eq hp (perm_orderedCores.subset ha), rank_eq hp (perm_orderedCores.subset hb)] at h
  exact h

theorem mem_orderedCores {core : List ℕ} :
    core ∈ (orderedCores sys skip preferNode).map CoreInfo.cpus ↔
      core ∈ onlineCores sys ∧ 0 ∉ core := by
  have hmap : ((sortedCores sys skip).map CoreInfo.cpus).Perm
      ((keptCpus sys).map (siblingsOf sys)) := by
    refine ((perm_sortBy _ _).map _).trans ?_
    rw [List.map_map]
    exact .refl _
  rw [(perm_orderedCores.map _).mem_iff, hmap.mem_iff, mem_map_keptCpus]

/-- The ranked cores. -/
def rankedCores (sys : Sys) (skip : List ℕ) (preferNode : Option ℕ) : List (List ℕ) :=
  (orderedCores sys skip preferNode).map CoreInfo.cpus

theorem pairwise_rankedCores (hp : Partition sys) :
    (rankedCores sys skip preferNode).Pairwise fun a b =>
      rank sys skip preferNode a < rank sys skip preferNode b :=
  List.pairwise_map.mpr (pairwise_orderedCores hp)

theorem nodup_rankedCores (hp : Partition sys) : (rankedCores sys skip preferNode).Nodup :=
  (pairwise_rankedCores hp).imp fun h he => (he ▸ h).false

theorem toFinset_rankedCores (sys : Sys) (skip : List ℕ) (preferNode : Option ℕ) :
    (rankedCores sys skip preferNode).toFinset = (onlineCores sys).filter (0 ∉ ·) := by
  ext core
  rw [List.mem_toFinset, rankedCores, mem_orderedCores, Finset.mem_filter]

theorem length_rankedCores (hp : Partition sys) :
    (rankedCores sys skip preferNode).length = ((onlineCores sys).filter (0 ∉ ·)).card := by
  rw [← toFinset_rankedCores sys skip preferNode,
    List.toFinset_card_of_nodup (nodup_rankedCores hp)]

end Order

/-! ### The selection -/

section Select

variable {sys : Sys} {skip : List ℕ} {preferNode : Option ℕ} {count : ℤ}

theorem coresOf_layoutFromPairs (pairs : List CoreInfo) :
    coresOf (layoutFromPairs pairs) = pairs.map CoreInfo.cpus := by
  rw [coresOf, layoutFromPairs, List.map_map]
  rfl

/-- **What `select_pairs` returns.** -/
theorem selectPairs_eq (hp : Partition sys) (hc : 1 ≤ count) :
    selectPairs sys count skip preferNode =
      if (((orderedCores sys skip preferNode).take count.toNat).length : ℤ) < count then
        .error (.runtimeError ("only found ".toList ++
          dec ((orderedCores sys skip preferNode).take count.toNat).length ++
          " suitable core(s) without CPU0; requested ".toList ++ dec count.toNat))
      else .ok (layoutFromPairs ((orderedCores sys skip preferNode).take count.toNat)) := by
  unfold selectPairs
  rw [if_neg (by omega), collectCores_eq hp]
  simp only [filter_orderByNuma]
  rfl

theorem selectPairs_ok_iff (hp : Partition sys) (hc : 1 ≤ count) {cores : List (List ℕ)} :
    (∃ layout, selectPairs sys count skip preferNode = .ok layout ∧ coresOf layout = cores) ↔
      count ≤ (rankedCores sys skip preferNode).length ∧
        cores = (rankedCores sys skip preferNode).take count.toNat := by
  have hlen : (rankedCores sys skip preferNode).length =
      (orderedCores sys skip preferNode).length := List.length_map _
  rw [selectPairs_eq hp hc, hlen]
  simp only [List.length_take]
  split_ifs with h
  · refine iff_of_false (by simp) fun hle => ?_
    omega
  · constructor
    · rintro ⟨layout, hl, rfl⟩
      cases hl
      refine ⟨by omega, ?_⟩
      rw [coresOf_layoutFromPairs, rankedCores, List.map_take]
    · rintro ⟨-, rfl⟩
      refine ⟨_, rfl, ?_⟩
      rw [coresOf_layoutFromPairs, rankedCores, List.map_take]

theorem of_selectPairs (hp : Partition sys) (hc : 1 ≤ count) {layout : Layout}
    (h : selectPairs sys count skip preferNode = .ok layout) :
    count ≤ (rankedCores sys skip preferNode).length ∧
      coresOf layout = (rankedCores sys skip preferNode).take count.toNat :=
  (selectPairs_ok_iff hp hc).mp ⟨layout, h, rfl⟩

theorem selectPairs_succeeds (hp : Partition sys) (hc : 1 ≤ count) :
    (∃ layout, selectPairs sys count skip preferNode = .ok layout) ↔
      count ≤ (rankedCores sys skip preferNode).length := by
  constructor
  · rintro ⟨layout, h⟩
    exact (of_selectPairs hp hc h).1
  · intro h
    obtain ⟨layout, hl, -⟩ := (selectPairs_ok_iff hp hc).mpr ⟨h, rfl⟩
    exact ⟨layout, hl⟩

theorem selectPairs_nonpos (h : ¬1 ≤ count) (layout : Layout) :
    selectPairs sys count skip preferNode ≠ .ok layout := by
  unfold selectPairs
  rw [if_pos (by omega)]
  simp

/-- **The cores that can be selected**, whatever is skipped: those without CPU 0. -/
theorem selectable_iff (hp : Partition sys) (skip : List ℕ) {core : List ℕ} :
    (∃ n layout, selectPairs sys n skip preferNode = .ok layout ∧ core ∈ coresOf layout) ↔
      core ∈ onlineCores sys ∧ 0 ∉ core := by
  rw [← @mem_orderedCores sys skip preferNode core]
  constructor
  · rintro ⟨n, layout, h, hm⟩
    by_cases hn : 1 ≤ n
    · rw [(of_selectPairs hp hn h).2] at hm
      exact List.mem_of_mem_take hm
    · exact absurd h (selectPairs_nonpos hn layout)
  · intro hm
    have hpos : 1 ≤ ((rankedCores sys skip preferNode).length : ℤ) := by
      exact_mod_cast List.length_pos_of_mem hm
    obtain ⟨layout, h, hcores⟩ := (selectPairs_ok_iff hp hpos).mpr ⟨le_rfl, rfl⟩
    refine ⟨_, layout, h, ?_⟩
    rw [hcores, Int.toNat_natCast, List.take_length]
    exact hm

/-- Two cores that are online and have a CPU in common are one. -/
theorem eq_of_mem_onlineCores (hp : Partition sys) {a b : List ℕ} (ha : a ∈ onlineCores sys)
    (hb : b ∈ onlineCores sys) {cpu : ℕ} (hca : cpu ∈ a) (hcb : cpu ∈ b) : a = b := by
  simp only [onlineCores, Finset.mem_image, List.mem_toFinset, List.mem_filter] at ha hb
  obtain ⟨c, ⟨-, hc⟩, rfl⟩ := ha
  obtain ⟨d, ⟨-, hd⟩, rfl⟩ := hb
  rw [← hp.same c cpu hc hca, hp.same d cpu hd hcb]

theorem disjoint_rankedCores (hp : Partition sys) :
    (rankedCores sys skip preferNode).Pairwise List.Disjoint := by
  refine (nodup_rankedCores hp).imp_of_mem fun {a b} ha hb hne cpu hca hcb => hne ?_
  exact eq_of_mem_onlineCores hp (mem_orderedCores.mp ha).1 (mem_orderedCores.mp hb).1 hca hcb

/-- The core of CPU 0 is one of the cores that are online if CPU 0 is, and no other has CPU 0. -/
theorem zero_mem_iff (hp : Partition sys) {core : List ℕ} (h : core ∈ onlineCores sys) :
    0 ∈ core ↔ cpuOnline sys 0 = true ∧ core = siblingsOf sys 0 := by
  simp only [onlineCores, Finset.mem_image, List.mem_toFinset, List.mem_filter] at h
  obtain ⟨cpu, ⟨-, hcpu⟩, rfl⟩ := h
  constructor
  · intro h0
    exact ⟨hp.online hcpu h0, (hp.same cpu 0 hcpu h0).symm⟩
  · rintro ⟨h0, he⟩
    rw [he]
    exact hp.mem 0 h0

theorem siblingsOf_mem_onlineCores {cpu : ℕ} (h : cpuOnline sys cpu = true) :
    siblingsOf sys cpu ∈ onlineCores sys := by
  simp only [onlineCores, Finset.mem_image, List.mem_toFinset, List.mem_filter]
  exact ⟨cpu, ⟨mem_of_online h, h⟩, rfl⟩

/-- The core of CPU 0 is the one that is missing. -/
theorem card_onlineCores (hp : Partition sys) (skip : List ℕ) (preferNode : Option ℕ) :
    (onlineCores sys).card = (rankedCores sys skip preferNode).length +
      if cpuOnline sys 0 = true then 1 else 0 := by
  rw [length_rankedCores hp, ← Finset.card_filter_add_card_filter_not (p := fun core => 0 ∉ core)]
  congr 1
  split_ifs with h0
  · rw [Finset.card_eq_one]
    refine ⟨siblingsOf sys 0, ?_⟩
    ext core
    simp only [Finset.mem_filter, not_not, Finset.mem_singleton]
    constructor
    · rintro ⟨hm, hz⟩
      exact ((zero_mem_iff hp hm).mp hz).2
    · rintro rfl
      exact ⟨siblingsOf_mem_onlineCores h0, hp.mem 0 h0⟩
  · rw [Finset.card_eq_zero, Finset.filter_eq_empty_iff]
    intro core hm hz
    exact h0 ((zero_mem_iff hp hm).mp (not_not.mp hz)).1

/-- **What depends on the core of CPU 0**: that there are enough cores without it, and that it comes
after those that are selected. -/
theorem selects_iff (hp : Partition sys) (hc : 1 ≤ count) :
    Selects sys count skip preferNode ↔
      (count ≤ (onlineCores sys).card → count ≤ (rankedCores sys skip preferNode).length) ∧
      (count ≤ (rankedCores sys skip preferNode).length → cpuOnline sys 0 = true →
        ∀ core ∈ (rankedCores sys skip preferNode).take count.toNat,
          rank sys skip preferNode core < rank sys skip preferNode (siblingsOf sys 0)) := by
  constructor
  · intro h
    refine ⟨fun hle => (selectPairs_succeeds hp hc).mp (h.succeeds.mpr hle),
      fun hle h0 core hm => ?_⟩
    obtain ⟨layout, hl, hcores⟩ := (selectPairs_ok_iff hp hc).mpr ⟨hle, rfl⟩
    refine h.first layout hl core (hcores ▸ hm) _ (siblingsOf_mem_onlineCores h0) fun hz => ?_
    rw [hcores] at hz
    exact (mem_orderedCores.mp (List.mem_of_mem_take hz)).2 (hp.mem 0 h0)
  · rintro ⟨henough, hafter⟩
    have hcard := card_onlineCores hp skip preferNode
    refine ⟨?_, fun layout hl => ?_, fun layout hl => ?_, fun layout hl => ?_, fun layout hl => ?_,
      fun layout hl => ?_, fun skip' core => ?_⟩
    · rw [selectPairs_succeeds hp hc]
      exact ⟨fun h => by omega, henough⟩
    · obtain ⟨hle, hcores⟩ := of_selectPairs hp hc hl
      rw [hcores, List.length_take]
      omega
    · intro core hm
      rw [(of_selectPairs hp hc hl).2] at hm
      exact (mem_orderedCores.mp (List.mem_of_mem_take hm)).1
    · rw [(of_selectPairs hp hc hl).2]
      exact (disjoint_rankedCores hp).sublist (List.take_sublist _ _)
    · rw [(of_selectPairs hp hc hl).2]
      exact (pairwise_rankedCores hp).sublist (List.take_sublist _ _)
    · obtain ⟨hle, hcores⟩ := of_selectPairs hp hc hl
      rw [hcores]
      intro core hm other ho hn
      by_cases hz : 0 ∈ other
      · obtain ⟨h0, rfl⟩ := (zero_mem_iff hp ho).mp hz
        exact hafter hle h0 core hm
      · exact lt_of_mem_take (pairwise_rankedCores hp) hm (mem_orderedCores.mpr ⟨ho, hz⟩) hn
    · rw [selectable_iff hp, selectable_iff hp]

/-- **The selection is right** exactly if CPU 0 is offline, or there are too few cores even with its
core, or enough cores come before its core anyway. -/
theorem selectPairs_iff (sys : Sys) (count : ℤ) (skip : List ℕ) (preferNode : Option ℕ)
    (hp : Partition sys) (hc : 1 ≤ count) :
    Selects sys count skip preferNode ↔
      cpuOnline sys 0 = false ∨ (onlineCores sys).card < count ∨
        count ≤ ((onlineCores sys).filter fun core =>
          rank sys skip preferNode core < rank sys skip preferNode (siblingsOf sys 0)).card := by
  have hcard := card_onlineCores hp skip preferNode
  rw [selects_iff hp hc]
  by_cases h0 : cpuOnline sys 0 = true
  · have hbefore : ((onlineCores sys).filter fun core =>
        rank sys skip preferNode core < rank sys skip preferNode (siblingsOf sys 0)).card =
        (rankedCores sys skip preferNode).countP fun core =>
          rank sys skip preferNode core < rank sys skip preferNode (siblingsOf sys 0) := by
      rw [List.countP_eq_length_filter,
        ← List.toFinset_card_of_nodup ((nodup_rankedCores hp).filter _), List.toFinset_filter,
        toFinset_rankedCores, Finset.filter_filter]
      congr 1
      ext core
      simp only [Finset.mem_filter, decide_eq_true_eq]
      refine and_congr_right fun hm => ⟨fun hlt => ⟨fun hz => ?_, hlt⟩, And.right⟩
      rw [((zero_mem_iff hp hm).mp hz).2] at hlt
      exact hlt.false
    have htake := fun h => forall_take_lt_iff (n := count.toNat)
      (@pairwise_rankedCores sys skip preferNode hp) h (rank sys skip preferNode (siblingsOf sys 0))
    have hle := List.countP_le_length (l := rankedCores sys skip preferNode)
      (p := fun core => rank sys skip preferNode core < rank sys skip preferNode (siblingsOf sys 0))
    rw [if_pos h0] at hcard
    rw [hbefore]
    simp only [h0, forall_const, Bool.true_eq_false, false_or]
    constructor
    · rintro ⟨henough, hafter⟩
      by_cases hlt : ((onlineCores sys).card : ℤ) < count
      · exact .inl hlt
      · have hlen := henough (not_lt.mp hlt)
        have := (htake (by omega)).mp (hafter hlen)
        exact .inr (by omega)
    · rintro (hlt | hcount)
      · exact ⟨fun h => by omega, fun h => by omega⟩
      · exact ⟨fun h => by omega, fun h => (htake (by omega)).mpr (by omega)⟩
  · rw [if_neg h0] at hcard
    refine iff_of_true ⟨fun h => by omega, fun _ h => absurd h h0⟩ (.inl (by simpa using h0))

end Select

/-- Two cores of one CPU each. -/
def twoCores : Sys :=
  ⟨[(0, ⟨.missing, .content "0\n".toList, .content "0\n".toList⟩),
    (1, ⟨.missing, .content "1\n".toList, .content "1\n".toList⟩)], []⟩

/-- One core is asked for and CPU 0 is skipped: the core of CPU 1 comes before its core. -/
theorem selectPairs_iff_skipped : cpuOnline twoCores 0 = true ∧ Selects twoCores 1 [0] none :=
  ⟨by decide +kernel, (selectPairs_iff twoCores 1 [0] none (partition_of_forall (by decide +kernel))
    le_rfl).mpr (by decide +kernel)⟩

/-- There are two cores that are online and nothing is skipped, but two cores cannot be selected. -/
theorem selectPairs_withoutCpu0 :
    Partition twoCores ∧ (onlineCores twoCores).card = 2 ∧
      selectPairs twoCores 2 [] none = .error (.runtimeError
        "only found 1 suitable core(s) without CPU0; requested 2".toList) ∧
      ¬Selects twoCores 2 [] none := by
  have herror : selectPairs twoCores 2 [] none = .error (.runtimeError
      "only found 1 suitable core(s) without CPU0; requested 2".toList) := by decide +kernel
  have hcard : (onlineCores twoCores).card = 2 := by decide +kernel
  refine ⟨partition_of_forall (by decide +kernel), hcard, herror, fun h => ?_⟩
  obtain ⟨layout, hl⟩ := h.succeeds.mpr (by rw [hcard]; rfl)
  rw [herror] at hl
  cases hl

end PapQuic.Script.CpuSelect
