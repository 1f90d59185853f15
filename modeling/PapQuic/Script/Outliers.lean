import Mathlib.Data.List.FinRange
import Mathlib.Data.List.OfFn
import Mathlib.Data.Rat.Lemmas
import Mathlib.Algebra.Order.Ring.Rat
import PapQuic.Lib.Quantile

/-! # Outliers

`remove_outliers` of `scripts/run_benchmarks.py`, over exact rationals. Of four samples or more it
keeps those inside the fences of the quartiles, at least half of them. Which positions are kept
follows the samples when they are permuted, and does not change when all of them are mapped by an
affine map (`removeOutliers_spec`). -/

namespace PapQuic.Script.Outliers

open Lib.StableSort Lib.Quantile

/-- What `remove_outliers` returns. -/
structure Filtered where
  filtered : List ℚ
  removed : ℕ
  mask : List Bool
  deriving DecidableEq, Repr

def removeOutliers (values : List ℚ) : Filtered :=
  if values.length < 4 then ⟨values, 0, List.replicate values.length true⟩
  else
    let sortedValues := sortBy id values
    let quartiles := quantiles sortedValues 4
    let q1 := quartiles.getD 0 0
    let q3 := quartiles.getD 2 0
    let iqr := q3 - q1
    let lowerBound := q1 - 3 / 2 * iqr
    let upperBound := q3 + 3 / 2 * iqr
    let mask := values.map fun v => decide (lowerBound ≤ v ∧ v ≤ upperBound)
    let filtered := ((values.zip mask).filter Prod.snd).map Prod.fst
    ⟨filtered, values.length - filtered.length, mask⟩

/-! ### What is kept -/

/-- A sample among others is kept. -/
def keeps (values : List ℚ) (v : ℚ) : Bool :=
  values.length < 4 ||
    inFences (quantile (sortBy id values) 4 1) (quantile (sortBy id values) 4 3) v

theorem filter_zip_map {α : Type*} (p : α → Bool) (l : List α) :
    ((l.zip (l.map p)).filter Prod.snd).map Prod.fst = l.filter p := by
  induction l with
  | nil => rfl
  | cons a l ih => cases hp : p a <;> simp [hp, ih]

/-- **What `remove_outliers` returns.** -/
theorem removeOutliers_eq (values : List ℚ) :
    removeOutliers values =
      ⟨values.filter (keeps values), values.length - (values.filter (keeps values)).length,
        values.map (keeps values)⟩ := by
  unfold removeOutliers
  split_ifs with h
  · have hkeeps : keeps values = fun _ => true := funext fun v => by simp [keeps, h]
    simp [hkeeps]
  · have hsort : sortBy id (sortBy id values) = sortBy id values :=
      sortBy_perm (perm_sortBy id values)
    have hkeeps : keeps values = fun v => decide
        (quantile (sortBy id values) 4 1 -
            3 / 2 * (quantile (sortBy id values) 4 3 - quantile (sortBy id values) 4 1) ≤ v ∧
          v ≤ quantile (sortBy id values) 4 3 +
            3 / 2 * (quantile (sortBy id values) 4 3 - quantile (sortBy id values) 4 1)) :=
      funext fun v => by simp [keeps, h, inFences]
    have hfirst : (quantiles (sortBy id values) 4).getD 0 0 = quantile (sortBy id values) 4 1 := by
      rw [quantiles, hsort]
      rfl
    have hthird : (quantiles (sortBy id values) 4).getD 2 0 = quantile (sortBy id values) 4 3 := by
      rw [quantiles, hsort]
      rfl
    simp only [hfirst, hthird, ← hkeeps, filter_zip_map]

/-- The positions that are kept. -/
def keptAt (values : List ℚ) : List (Fin values.length) :=
  (List.finRange values.length).filter fun i => keeps values (values.get i)

theorem filter_keeps (values : List ℚ) :
    values.filter (keeps values) = (keptAt values).map values.get := by
  have hfilter := List.filter_map (f := values.get) (p := keeps values)
    (l := List.finRange values.length)
  rw [List.map_get_finRange] at hfilter
  exact hfilter

theorem keeps_perm {values values' : List ℚ} (h : values.Perm values') :
    keeps values = keeps values' := by
  funext v
  rw [keeps, keeps, h.length_eq, sortBy_perm h]

theorem keeps_map (values : List ℚ) {a : ℚ} (ha : a ≠ 0) (b v : ℚ) :
    keeps (values.map fun x => a * x + b) (a * v + b) = keeps values v := by
  unfold keeps
  rw [List.length_map]
  by_cases h : values.length < 4
  · simp [h]
  · rw [inFences_sortBy_map (by omega) ha]

/-- **At least half of the samples are kept.** -/
theorem half_le_kept (values : List ℚ) :
    (values.length + 1) / 2 ≤ (values.filter (keeps values)).length := by
  by_cases h : values.length < 4
  · have hall : values.filter (keeps values) = values :=
      List.filter_eq_self.mpr fun v _ => by simp [keeps, h]
    rw [hall]
    omega
  · have hlen := (perm_sortBy id values).length_eq
    have hkeeps : keeps values =
        inFences (quantile (sortBy id values) 4 1) (quantile (sortBy id values) 4 3) :=
      funext fun v => by simp [keeps, h]
    rw [← List.countP_eq_length_filter, ← (perm_sortBy id values).countP_eq, hkeeps, ← hlen]
    exact half_le_countP_inFences (pairwise_sortBy id values) (by omega)

/-! ### A list of which no more than half is kept -/

/-- Between `k` samples below and `k` above, `2 * k + 1` equal ones. -/
def spread (k : ℕ) : List ℚ :=
  List.replicate k (-1) ++ (List.replicate (2 * k + 1) 0 ++ List.replicate k 1)

theorem length_spread (k : ℕ) : (spread k).length = 4 * k + 1 := by
  simp only [spread, List.length_append, List.length_replicate]
  omega

theorem pairwise_spread (k : ℕ) : (spread k).Pairwise (· ≤ ·) := by
  simp [spread, List.pairwise_append, List.pairwise_replicate, List.mem_replicate]

theorem getD_spread {k j : ℕ} (h : k ≤ j) (h' : j ≤ 3 * k) : (spread k).getD j 0 = 0 := by
  rw [spread, List.getD_append_right _ _ _ _ (by simpa using h), List.getD_append _ _ _ _ (by
    simp only [List.length_replicate]; omega), List.getD_replicate _ (by
    simp only [List.length_replicate]; omega)]

theorem kept_spread {k : ℕ} (hk : 1 ≤ k) :
    ((spread k).filter (keeps (spread k))).length = 2 * k + 1 := by
  have hsort : sortBy id (spread k) = spread k := sortBy_of_pairwise (pairwise_spread k)
  have hmod : ∀ i, i * ((spread k).length - 1) % 4 = 0 := fun i => by
    rw [length_spread, Nat.add_sub_cancel, Nat.mul_left_comm, Nat.mul_mod_right]
  have hq : ∀ i, i = 1 ∨ i = 3 → quantile (spread k) 4 i = 0 := by
    intro i hi
    have hpos : i * ((spread k).length - 1) / 4 = i * k := by
      rw [length_spread, Nat.add_sub_cancel, Nat.mul_left_comm,
        Nat.mul_div_cancel_left _ (by omega)]
    rw [quantile_eq (by omega), hmod, hpos, getD_spread (by rcases hi with rfl | rfl <;> omega)
      (by rcases hi with rfl | rfl <;> omega)]
    simp
  have hkeeps : keeps (spread k) = fun v => decide (v = 0) := by
    funext v
    have hlen : ¬(spread k).length < 4 := by
      rw [length_spread]
      omega
    rw [keeps, hsort, hq 1 (.inl rfl), hq 3 (.inr rfl)]
    simp [hlen, inFences, le_antisymm_iff, and_comm]
  rw [hkeeps, ← List.countP_eq_length_filter, spread]
  simp [List.countP_replicate]

/-- **Removing outliers.** What is kept are the samples at the positions where the mask is true, in
their order, and the rest is counted. At least half of the samples are kept, and for `4 * k + 1`
samples this bound is reached. A permutation of the samples permutes the mask, and an affine map of
the samples leaves the mask as it is. -/
theorem removeOutliers_spec :
    (∀ values : List ℚ, ∃ kept : List (Fin values.length), kept.Pairwise (· < ·) ∧
      (removeOutliers values).filtered = kept.map values.get ∧
      (removeOutliers values).filtered.length + (removeOutliers values).removed = values.length ∧
      (removeOutliers values).mask = (List.finRange values.length).map fun i => decide (i ∈ kept)) ∧
    (∀ values : List ℚ, (values.length + 1) / 2 ≤ (removeOutliers values).filtered.length) ∧
    (∀ k, 1 ≤ k → ∃ values : List ℚ, values.length = 4 * k + 1 ∧
      (removeOutliers values).filtered.length = (values.length + 1) / 2) ∧
    (∀ (n : ℕ) (values : Fin n → ℚ) (σ : Equiv.Perm (Fin n)), ∃ mask : Fin n → Bool,
      (removeOutliers (List.ofFn values)).mask = List.ofFn mask ∧
      (removeOutliers (List.ofFn (values ∘ σ))).mask = List.ofFn (mask ∘ σ)) ∧
    ∀ (values : List ℚ) (a b : ℚ), a ≠ 0 →
      (removeOutliers (values.map fun x => a * x + b)).mask = (removeOutliers values).mask := by
  refine ⟨fun values => ?_, fun values => ?_, fun k hk => ?_, fun n values σ => ?_,
    fun values a b ha => ?_⟩
  · rw [removeOutliers_eq]
    refine ⟨keptAt values, (List.pairwise_lt_finRange _).filter _, filter_keeps values,
      Nat.add_sub_cancel' (List.length_filter_le _ _), ?_⟩
    have hmap := List.map_map (f := values.get) (g := keeps values) (l :=
      List.finRange values.length)
    rw [List.map_get_finRange] at hmap
    exact hmap.trans (List.map_congr_left fun i _ => by simp [keptAt])
  · rw [removeOutliers_eq]
    exact half_le_kept values
  · refine ⟨spread k, length_spread k, ?_⟩
    rw [removeOutliers_eq, length_spread]
    exact (kept_spread hk).trans (by omega)
  · have hperm : (List.ofFn (values ∘ σ)).Perm (List.ofFn values) :=
      Equiv.Perm.ofFn_comp_perm σ values
    rw [removeOutliers_eq, removeOutliers_eq]
    refine ⟨keeps (List.ofFn values) ∘ values, List.map_ofFn, ?_⟩
    rw [keeps_perm hperm, List.map_ofFn]
    rfl
  · rw [removeOutliers_eq, removeOutliers_eq]
    simp only [List.map_map]
    exact List.map_congr_left fun v _ => keeps_map values ha b v

/-- Five samples of which three are kept, and the mask of five others. -/
theorem removeOutliers_five :
    (∃ values : List ℚ, values.length = 5 ∧
      (removeOutliers values).filtered.length = (values.length + 1) / 2) ∧
    (removeOutliers ([1, 2, 3, 4, 100].map fun x => -2 * x + 7)).mask =
      (removeOutliers [1, 2, 3, 4, 100]).mask :=
  ⟨removeOutliers_spec.2.2.1 1 le_rfl, removeOutliers_spec.2.2.2.2 _ (-2) 7 (by norm_num)⟩

example :
    removeOutliers [1, 2, 3, 4, 100] = ⟨[1, 2, 3, 4], 1, [true, true, true, true, false]⟩ := by
  decide +kernel

end PapQuic.Script.Outliers
