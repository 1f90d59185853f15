import Mathlib.Data.List.Nodup
import Mathlib.Data.List.Perm.Subperm
import Mathlib.Tactic.Common

/-! # Intervals of numbers

A list of numbers as a list of intervals, each given by its first and its last number. A loop that
goes over an increasing list and extends the last interval as long as it can (`runs`) loses nothing
(`flatMap_runs`), and there is no shorter list of intervals with the same numbers
(`length_runs_le`). -/

namespace PapQuic.Lib.Intervals

/-- The numbers of an interval. -/
def numbers (r : ℕ × ℕ) : List ℕ := List.range' r.1 (r.2 + 1 - r.1)

theorem mem_numbers {r : ℕ × ℕ} {n : ℕ} : n ∈ numbers r ↔ r.1 ≤ n ∧ n ≤ r.2 := by
  rw [numbers, List.mem_range'_1]
  omega

theorem numbers_self (n : ℕ) : numbers (n, n) = [n] := by
  rw [numbers, Nat.add_sub_cancel_left, List.range'_one]

theorem numbers_succ {a b : ℕ} (h : a ≤ b) : numbers (a, b + 1) = numbers (a, b) ++ [b + 1] := by
  have hlen : b + 1 + 1 - a = b + 1 - a + 1 := by omega
  have hlast : a + (b + 1 - a) = b + 1 := by omega
  rw [numbers, numbers, hlen, List.range'_1_concat, hlast]

/-- The intervals of the numbers from `a` to `b` and of a list that goes on from there. -/
def runs : ℕ → ℕ → List ℕ → List (ℕ × ℕ)
  | a, b, [] => [(a, b)]
  | a, b, n :: ns => if n = b + 1 then runs a n ns else (a, b) :: runs n n ns

/-- **Nothing is lost.** -/
theorem flatMap_runs {a b : ℕ} (h : a ≤ b) (ns : List ℕ) :
    (runs a b ns).flatMap numbers = numbers (a, b) ++ ns := by
  induction ns generalizing a b with
  | nil => rw [runs, List.flatMap_singleton, List.append_nil]
  | cons n ns ih =>
    by_cases hn : n = b + 1
    · subst hn
      rw [runs, if_pos rfl, ih (by omega), numbers_succ h, List.append_assoc, List.singleton_append]
    · rw [runs, if_neg hn, List.flatMap_cons, ih (Nat.le_refl n), numbers_self,
        List.singleton_append]

theorem le_of_mem_runs {a b : ℕ} {ns : List ℕ} (h : a ≤ b) {r : ℕ × ℕ} (hr : r ∈ runs a b ns) :
    r.1 ≤ r.2 := by
  induction ns generalizing a b with
  | nil =>
    rw [List.mem_singleton.mp hr]
    exact h
  | cons n ns ih =>
    unfold runs at hr
    split_ifs at hr with hn
    · exact ih (by omega) hr
    · rcases List.mem_cons.mp hr with rfl | hr
      · exact h
      · exact ih (Nat.le_refl n) hr

/-! ### The fewest intervals -/

/-- A number of the set before which there is a gap. -/
def IsStart (s : Set ℕ) (n : ℕ) : Prop := n ∈ s ∧ ∀ m ∈ s, m + 1 ≠ n

/-- Every interval of a set has its first number at a start, or else it has no start in it. -/
theorem start_mem_map_fst {s : Set ℕ} {rs : List (ℕ × ℕ)}
    (h : ∀ n, n ∈ rs.flatMap numbers ↔ n ∈ s) {n : ℕ} (hn : IsStart s n) : n ∈ rs.map Prod.fst := by
  obtain ⟨r, hr, hmem⟩ := List.mem_flatMap.mp ((h n).mpr hn.1)
  rw [mem_numbers] at hmem
  have hfirst : r.1 = n := by
    by_contra hne
    have hpred : n - 1 ∈ s := (h _).mp (List.mem_flatMap.mpr ⟨r, hr, mem_numbers.mpr (by omega)⟩)
    exact hn.2 _ hpred (by omega)
  exact List.mem_map.mpr ⟨r, hr, hfirst⟩

/-- Above `b` the set is the list `ns`, which is still to come. -/
theorem isStart_runs {s : Set ℕ} {a b : ℕ} {ns : List ℕ} (ha : IsStart s a)
    (hs : ∀ n, b < n → (n ∈ s ↔ n ∈ ns)) (hb : ∀ n ∈ ns, b < n) (hns : ns.Pairwise (· < ·)) :
    ∀ r ∈ runs a b ns, IsStart s r.1 := by
  induction ns generalizing a b with
  | nil =>
    intro r hr
    rw [List.mem_singleton.mp hr]
    exact ha
  | cons n ns ih =>
    obtain ⟨hlt, hns⟩ := List.pairwise_cons.mp hns
    have hbn : b < n := hb n List.mem_cons_self
    have habove : ∀ m, n < m → (m ∈ s ↔ m ∈ ns) := by
      intro m hm
      rw [hs m (by omega), List.mem_cons, or_iff_right (by omega)]
    intro r hr
    unfold runs at hr
    split_ifs at hr with hnext
    · exact ih ha habove hlt hns r hr
    · rcases List.mem_cons.mp hr with rfl | hr
      · exact ha
      · refine ih ⟨(hs n hbn).mpr List.mem_cons_self, fun m hm hsucc => ?_⟩ habove hlt hns r hr
        -- the number before `n` is above `b` and not in the list
        rcases List.mem_cons.mp ((hs m (by omega)).mp hm) with rfl | hm
        · omega
        · have := hlt m hm
          omega

theorem pairwise_runs {a b : ℕ} {ns : List ℕ} (h : a ≤ b) (hb : ∀ n ∈ ns, b < n)
    (hns : ns.Pairwise (· < ·)) :
    (∀ r ∈ runs a b ns, a ≤ r.1) ∧ ((runs a b ns).map Prod.fst).Pairwise (· < ·) := by
  induction ns generalizing a b with
  | nil => simp [runs]
  | cons n ns ih =>
    obtain ⟨hlt, hns⟩ := List.pairwise_cons.mp hns
    have hbn : b < n := hb n List.mem_cons_self
    unfold runs
    split_ifs with hnext
    · exact ih (by omega) hlt hns
    · obtain ⟨hle, hpair⟩ := ih (Nat.le_refl n) hlt hns
      constructor
      · intro r hr
        rcases List.mem_cons.mp hr with rfl | hr
        · exact Nat.le_refl a
        · have := hle r hr
          omega
      · rw [List.map_cons, List.pairwise_cons]
        refine ⟨fun m hm => ?_, hpair⟩
        obtain ⟨r, hr, rfl⟩ := List.mem_map.mp hm
        have := hle r hr
        omega

/-- **No list of intervals with the same numbers is shorter.** -/
theorem length_runs_le {n : ℕ} {ns : List ℕ} (hns : (n :: ns).Pairwise (· < ·))
    {rs : List (ℕ × ℕ)} (h : ∀ m, m ∈ rs.flatMap numbers ↔ m ∈ n :: ns) :
    (runs n n ns).length ≤ rs.length := by
  obtain ⟨hlt, hns⟩ := List.pairwise_cons.mp hns
  have hfirst : IsStart {m | m ∈ n :: ns} n := by
    refine ⟨List.mem_cons_self, fun m hm hsucc => ?_⟩
    rcases List.mem_cons.mp hm with rfl | hm
    · omega
    · have := hlt m hm
      omega
  have habove : ∀ m, n < m → (m ∈ {m | m ∈ n :: ns} ↔ m ∈ ns) := by
    intro m hm
    exact List.mem_cons.trans (or_iff_right (by omega))
  have hstarts := isStart_runs hfirst habove hlt hns
  have hsub : (runs n n ns).map Prod.fst ⊆ rs.map Prod.fst := by
    intro m hm
    obtain ⟨r, hr, rfl⟩ := List.mem_map.mp hm
    exact start_mem_map_fst h (hstarts r hr)
  have hnodup : ((runs n n ns).map Prod.fst).Nodup :=
    (pairwise_runs (Nat.le_refl n) hlt hns).2.imp Nat.ne_of_lt
  have hlen := (List.subperm_of_subset hnodup hsub).length_le
  rwa [List.length_map, List.length_map] at hlen

end PapQuic.Lib.Intervals
