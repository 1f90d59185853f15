import PapQuic.Script.Cpus

/-! # Topologies

What `_thread_siblings` of `scripts/select_physical_cpus.py` returns, and the topologies in which
the lists of siblings partition the CPUs that are online (`Partition`): each CPU is in its own list,
and all CPUs of a list have the same one. -/

namespace PapQuic.Script.CpuTopology

open Lib.StableSort Script.Cpus

theorem mem_sortedSet {cpu : ℕ} {cpus : List ℕ} : cpu ∈ sortedSet cpus ↔ cpu ∈ cpus := by
  rw [sortedSet, (perm_sortBy id _).mem_iff, List.mem_dedup]

theorem pairwise_sortedSet (cpus : List ℕ) : (sortedSet cpus).Pairwise (· < ·) := by
  have hle := pairwise_sortBy (id : ℕ → ℕ) cpus.dedup
  have hnd : (sortedSet cpus).Nodup := (perm_sortBy id _).nodup_iff.mpr (List.nodup_dedup _)
  exact hle.imp₂ (fun a b h hne => lt_of_le_of_ne h hne) hnd

theorem sortedSet_of_pairwise {cpus : List ℕ} (h : cpus.Pairwise (· < ·)) :
    sortedSet cpus = cpus := by
  rw [sortedSet, List.dedup_eq_self.mpr (h.imp Nat.ne_of_lt)]
  exact sortBy_of_pairwise (h.imp Nat.le_of_lt)

section Siblings

variable {sys : Sys} {cpu : ℕ} {l : List ℕ}

/-- What `_thread_siblings` returns: CPUs in increasing order. -/
theorem threadSiblings_spec (h : threadSiblings sys cpu = .ok l) :
    l ≠ [] ∧ l.Pairwise (· < ·) ∧ ∀ c ∈ l, c = cpu ∨ cpuOnline sys c = true := by
  have hone : [cpu] ≠ [] ∧ [cpu].Pairwise (· < ·) ∧ ∀ c ∈ [cpu], c = cpu ∨ cpuOnline sys c = true :=
    ⟨by simp, by simp, fun c hc => .inl (List.mem_singleton.mp hc)⟩
  unfold threadSiblings at h
  split at h
  · cases h
    exact hone
  · cases h
    exact hone
  · next content _ _ =>
    rcases he : expandCpuList content with e | cpus
    · rw [he] at h
      cases h
    · rw [he] at h
      change Except.ok _ = _ at h
      cases h
      split_ifs with hnil
      · exact hone
      · exact ⟨hnil, (pairwise_sortedSet cpus).filter _,
          fun c hc => .inr (List.mem_filter.mp hc).2⟩

/-- The siblings of a CPU, when its file can be read. -/
def siblingsOf (sys : Sys) (cpu : ℕ) : List ℕ :=
  match threadSiblings sys cpu with
  | .ok l => l
  | .error _ => [cpu]

theorem siblingsOf_spec (sys : Sys) (cpu : ℕ) :
    siblingsOf sys cpu ≠ [] ∧ (siblingsOf sys cpu).Pairwise (· < ·) := by
  unfold siblingsOf
  split
  · next h => exact ⟨(threadSiblings_spec h).1, (threadSiblings_spec h).2.1⟩
  · exact ⟨by simp, by simp⟩

theorem siblingsOf_ne_nil (sys : Sys) (cpu : ℕ) : siblingsOf sys cpu ≠ [] :=
  (siblingsOf_spec sys cpu).1

theorem pairwise_siblingsOf (sys : Sys) (cpu : ℕ) : (siblingsOf sys cpu).Pairwise (· < ·) :=
  (siblingsOf_spec sys cpu).2

/-- **The lists of siblings partition the CPUs that are online.** -/
structure Partition (sys : Sys) : Prop where
  reads : ∀ cpu, cpuOnline sys cpu = true → threadSiblings sys cpu = .ok (siblingsOf sys cpu)
  mem : ∀ cpu, cpuOnline sys cpu = true → cpu ∈ siblingsOf sys cpu
  same : ∀ cpu c, cpuOnline sys cpu = true → c ∈ siblingsOf sys cpu →
    siblingsOf sys c = siblingsOf sys cpu

theorem Partition.online (hp : Partition sys) (h : cpuOnline sys cpu = true) {c : ℕ}
    (hc : c ∈ siblingsOf sys cpu) : cpuOnline sys c = true := by
  rcases (threadSiblings_spec (hp.reads cpu h)).2.2 c hc with rfl | hc
  · exact h
  · exact hc

theorem dir_of_online (h : cpuOnline sys cpu = true) : sys.dir cpu ≠ none := by
  intro hnone
  simp [cpuOnline, Sys.file, hnone, SysFile.exists] at h

end Siblings

theorem mem_of_online {sys : Sys} {cpu : ℕ} (h : cpuOnline sys cpu = true) :
    cpu ∈ sys.cpus.map Prod.fst := by
  obtain ⟨dir, hd⟩ := Option.ne_none_iff_exists'.mp (dir_of_online h)
  obtain ⟨before, after, he, -⟩ := List.lookup_eq_some_iff.mp hd
  simp [he]

/-- It is enough to look at the directories there are. -/
theorem partition_of_forall {sys : Sys}
    (h : ∀ cpu ∈ sys.cpus.map Prod.fst, threadSiblings sys cpu = .ok (siblingsOf sys cpu) ∧
      cpu ∈ siblingsOf sys cpu ∧ ∀ c ∈ siblingsOf sys cpu, siblingsOf sys c = siblingsOf sys cpu) :
    Partition sys :=
  ⟨fun cpu ho => (h cpu (mem_of_online ho)).1, fun cpu ho => (h cpu (mem_of_online ho)).2.1,
    fun cpu c ho => (h cpu (mem_of_online ho)).2.2 c⟩

end PapQuic.Script.CpuTopology
