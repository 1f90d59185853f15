import Mathlib.Algebra.Order.Field.Basic
import Mathlib.Data.List.GetD
import Mathlib.Tactic.FieldSimp
import Mathlib.Tactic.Linarith
import Mathlib.Tactic.Ring
import PapQuic.Lib.StableSort

/-! # Quantiles

The inclusive quantiles of Python's `statistics`: the cut points between `parts` parts of a sorted
list, interpolated between two neighbours.

* order: a quantile is between its neighbours (`getD_le_quantile`, `quantile_le_getD`);
* symmetry: `quantile_map` for affine maps, `quantile_reverse`;
* fences: the samples that are not more than one and a half interquartile ranges away from the
  quartiles. At least half of the samples are (`half_le_countP_inFences`), and affine maps
  change nothing (`inFences_sortBy_map`). -/

namespace PapQuic.Lib.Quantile

open Lib.StableSort

variable {K : Type*} [Field K]

/-- The cut point `i` of a sorted list: `divmod(i * (len(data) - 1), parts)` gives the position and
the weight of the next element. -/
def quantile (data : List K) (parts i : ℕ) : K :=
  (data.getD (i * (data.length - 1) / parts) 0 * (parts - (i * (data.length - 1) % parts : ℕ)) +
    data.getD (i * (data.length - 1) / parts + 1) 0 * (i * (data.length - 1) % parts : ℕ)) / parts

/-! ### The position of a quantile -/

theorem position_lt {m parts i : ℕ} (hm : 0 < m) (hi : i < parts) : i * m / parts < m :=
  Nat.div_lt_of_lt_mul (Nat.mul_lt_mul_of_pos_right hi hm)

/-- **The position of the opposite cut point.** -/
theorem opposite_position {m parts i : ℕ} (hm : 0 < m) (hi : i < parts) :
    (i * m % parts = 0 → (parts - i) * m / parts = m - i * m / parts ∧
      (parts - i) * m % parts = 0) ∧
    (i * m % parts ≠ 0 → (parts - i) * m / parts = m - i * m / parts - 1 ∧
      (parts - i) * m % parts = parts - i * m % parts) := by
  have hlt := position_lt hm hi
  have hdm := Nat.div_add_mod (i * m) parts
  have hr := Nat.mod_lt (i * m) (Nat.zero_lt_of_lt hi)
  have hsub : (parts - i) * m + i * m = parts * m := by
    rw [← Nat.add_mul, Nat.sub_add_cancel hi.le]
  generalize i * m / parts = q at hlt hdm ⊢
  generalize i * m % parts = r at hdm hr ⊢
  obtain ⟨d, rfl⟩ : ∃ d, m = q + 1 + d := ⟨m - (q + 1), by omega⟩
  have hmul : parts * (q + 1 + d) = parts * q + parts + parts * d := by ring
  constructor
  · rintro rfl
    rw [Nat.div_mod_unique (Nat.zero_lt_of_lt hi)]
    refine ⟨?_, by omega⟩
    have hd : q + 1 + d - q = 1 + d := by omega
    rw [hd, Nat.mul_add]
    omega
  · intro h0
    rw [Nat.div_mod_unique (Nat.zero_lt_of_lt hi)]
    refine ⟨?_, by omega⟩
    have hd : q + 1 + d - q - 1 = d := by omega
    rw [hd]
    omega

section Quantile

variable {data : List K} {parts i : ℕ}

/-- **Symmetry.** -/
theorem quantile_reverse (hd : 2 ≤ data.length) (hi : i < parts) :
    quantile data.reverse parts i = quantile data parts (parts - i) := by
  have hm : 0 < data.length - 1 := by omega
  have hlt := position_lt hm hi
  obtain ⟨hzero, hpos⟩ := opposite_position hm hi
  have hrev : ∀ j, j < data.length →
      data.reverse.getD j 0 = data.getD (data.length - 1 - j) 0 := fun j hj => by
    rw [List.getD_eq_getElem _ _ (by simpa using hj), List.getElem_reverse,
      List.getD_eq_getElem _ _ (by omega)]
  unfold quantile
  rw [List.length_reverse, hrev _ (by omega), hrev _ (by omega)]
  by_cases hr : i * (data.length - 1) % parts = 0
  · obtain ⟨hq, hr'⟩ := hzero hr
    rw [hr, hq, hr']
    simp
  · obtain ⟨hq, hr'⟩ := hpos hr
    have hle : i * (data.length - 1) % parts ≤ parts := (Nat.mod_lt _ (Nat.zero_lt_of_lt hi)).le
    have hnext : data.length - 1 - i * (data.length - 1) / parts - 1 + 1 =
      data.length - 1 - i * (data.length - 1) / parts := by omega
    rw [hq, hr', hnext, Nat.cast_sub hle, ← Nat.sub_sub]
    ring

variable [LinearOrder K] [IsStrictOrderedRing K]

/-- A quantile as a step from one element towards the next one. -/
theorem quantile_eq (hi : i < parts) :
    quantile data parts i = data.getD (i * (data.length - 1) / parts) 0 +
      (data.getD (i * (data.length - 1) / parts + 1) 0 -
        data.getD (i * (data.length - 1) / parts) 0) *
        ((i * (data.length - 1) % parts : ℕ) / parts) := by
  have hp : (parts : K) ≠ 0 := Nat.cast_ne_zero.mpr (by omega)
  unfold quantile
  field_simp
  ring

theorem quantile_map (hd : 2 ≤ data.length) (hi : i < parts) (a b : K) :
    quantile (data.map fun x => a * x + b) parts i = a * quantile data parts i + b := by
  have hlt := position_lt (m := data.length - 1) (by omega) hi
  have hmap : ∀ j, j < data.length →
      (data.map fun x => a * x + b).getD j 0 = a * data.getD j 0 + b := fun j hj => by
    rw [List.getD_eq_getElem _ _ (by simpa using hj), List.getElem_map, List.getD_eq_getElem _ _ hj]
  rw [quantile_eq hi, quantile_eq hi, List.length_map, hmap _ (by omega), hmap _ (by omega)]
  ring

end Quantile

/-! ### Quartiles of sorted lists -/

variable [LinearOrder K]

/-- `statistics.quantiles(data, n=parts, method="inclusive")`, for two samples or more. -/
def quantiles (data : List K) (parts : ℕ) : List K :=
  (List.range (parts - 1)).map fun i => quantile (sortBy id data) parts (i + 1)

/-- Not more than one and a half interquartile ranges away from the quartiles. -/
def inFences (q1 q3 v : K) : Bool := q1 - 3 / 2 * (q3 - q1) ≤ v ∧ v ≤ q3 + 3 / 2 * (q3 - q1)

theorem getD_le_getD {data : List K} (h : data.Pairwise (· ≤ ·)) {i j : ℕ} (hij : i ≤ j)
    (hj : j < data.length) : data.getD i 0 ≤ data.getD j 0 := by
  rw [List.getD_eq_getElem _ _ (hij.trans_lt hj), List.getD_eq_getElem _ _ hj]
  rcases hij.eq_or_lt with rfl | hlt
  · exact le_rfl
  · exact List.pairwise_iff_getElem.mp h i j _ _ hlt

section Fences

variable {data : List K} {parts i : ℕ} [IsStrictOrderedRing K]

theorem getD_le_quantile (h : data.Pairwise (· ≤ ·)) (hd : 2 ≤ data.length) (hi : i < parts) :
    data.getD (i * (data.length - 1) / parts) 0 ≤ quantile data parts i := by
  have hlt := position_lt (m := data.length - 1) (by omega) hi
  have hstep := getD_le_getD h (Nat.le_succ (i * (data.length - 1) / parts)) (by omega)
  rw [quantile_eq hi]
  exact le_add_of_nonneg_right (mul_nonneg (sub_nonneg.mpr hstep) (by positivity))

theorem quantile_le_getD (h : data.Pairwise (· ≤ ·)) (hd : 2 ≤ data.length) (hi : i < parts) :
    quantile data parts i ≤ data.getD (i * (data.length - 1) / parts + 1) 0 := by
  have hlt := position_lt (m := data.length - 1) (by omega) hi
  have hstep := getD_le_getD h (Nat.le_succ (i * (data.length - 1) / parts)) (by omega)
  have hweight : ((i * (data.length - 1) % parts : ℕ) : K) / parts ≤ 1 :=
    div_le_one_of_le₀ (Nat.cast_le.mpr (Nat.mod_lt _ (by omega)).le) (by positivity)
  have := mul_le_mul_of_nonneg_left hweight (sub_nonneg.mpr hstep)
  rw [quantile_eq hi]
  linarith

/-- What the positions between the quartiles have is between the quartiles. -/
theorem quartiles (h : data.Pairwise (· ≤ ·)) (hd : 4 ≤ data.length) :
    quantile data 4 1 ≤ data.getD (1 * (data.length - 1) / 4 + 1) 0 ∧
      data.getD (1 * (data.length - 1) / 4 + 1) 0 ≤ data.getD (3 * (data.length - 1) / 4) 0 ∧
      data.getD (3 * (data.length - 1) / 4) 0 ≤ quantile data 4 3 :=
  ⟨quantile_le_getD h (by omega) (by omega), getD_le_getD h (by omega) (by omega),
    getD_le_quantile h (by omega) (by omega)⟩

/-- **The first fence**: it is below the position of the first quartile, up to a half. -/
theorem fence_le_getD (h : data.Pairwise (· ≤ ·)) (hd : 4 ≤ data.length) {p : ℕ}
    (hp : p < data.length) (hlow : data.length ≤ 4 * p + 3) :
    quantile data 4 1 - 3 / 2 * (quantile data 4 3 - quantile data 4 1) ≤ data.getD p 0 := by
  obtain ⟨hq1, hmid, hq3⟩ := quartiles h hd
  by_cases hnext : 1 * (data.length - 1) / 4 + 1 ≤ p
  · have := getD_le_getD h hnext hp
    linarith
  · -- the position before the quartile, which is at most half a step away
    obtain rfl : p = 1 * (data.length - 1) / 4 := by omega
    have hweight : ((1 * (data.length - 1) % 4 : ℕ) : K) ≤ 2 := by
      exact_mod_cast (by omega : 1 * (data.length - 1) % 4 ≤ 2)
    have hstep := getD_le_getD h (Nat.le_succ (1 * (data.length - 1) / 4)) (by omega)
    have hmul := mul_le_mul_of_nonneg_left hweight (sub_nonneg.mpr hstep)
    have hq := @quantile_eq _ _ data 4 1 _ _ (by omega)
    push_cast at hq
    linarith

/-- **The second fence.** -/
theorem getD_le_fence (h : data.Pairwise (· ≤ ·)) (hd : 4 ≤ data.length) {p : ℕ}
    (hp : p < data.length) (hhigh : 4 * p + 1 ≤ 3 * data.length) :
    data.getD p 0 ≤ quantile data 4 3 + 3 / 2 * (quantile data 4 3 - quantile data 4 1) := by
  obtain ⟨hq1, hmid, hq3⟩ := quartiles h hd
  by_cases hprev : p ≤ 3 * (data.length - 1) / 4
  · have := getD_le_getD h hprev (by omega)
    linarith
  · obtain rfl : p = 3 * (data.length - 1) / 4 + 1 := by omega
    have hweight : (2 : K) ≤ ((3 * (data.length - 1) % 4 : ℕ) : K) := by
      exact_mod_cast (by omega : 2 ≤ 3 * (data.length - 1) % 4)
    have hstep := getD_le_getD h (Nat.le_succ (3 * (data.length - 1) / 4)) hp
    have hmul := mul_le_mul_of_nonneg_left hweight (sub_nonneg.mpr hstep)
    have hq := @quantile_eq _ _ data 4 3 _ _ (by omega)
    push_cast at hq
    linarith

/-- **At least half of the samples are inside.** -/
theorem half_le_countP_inFences (h : data.Pairwise (· ≤ ·)) (hd : 4 ≤ data.length) :
    (data.length + 1) / 2 ≤ data.countP (inFences (quantile data 4 1) (quantile data 4 3)) := by
  -- the positions between the fences
  let low := data.length / 4
  let high := (3 * data.length - 1) / 4 + 1
  have hall : ∀ v ∈ (data.take high).drop low,
      inFences (quantile data 4 1) (quantile data 4 3) v = true := by
    intro v hv
    obtain ⟨k, hk, rfl⟩ := List.getElem_of_mem hv
    rw [List.length_drop, List.length_take] at hk
    rw [List.getElem_drop, List.getElem_take, ← List.getD_eq_getElem _ 0, inFences,
      decide_eq_true_eq]
    exact ⟨fence_le_getD h hd (by omega) (by omega), getD_le_fence h hd (by omega) (by omega)⟩
  calc (data.length + 1) / 2 ≤ ((data.take high).drop low).length := by
        rw [List.length_drop, List.length_take]
        omega
    _ = ((data.take high).drop low).countP (inFences (quantile data 4 1) (quantile data 4 3)) :=
        (List.countP_eq_length.mpr hall).symm
    _ ≤ _ := ((List.drop_sublist _ _).trans (List.take_sublist _ _)).countP_le

theorem inFences_pos {a : K} (ha : 0 < a) (b q1 q3 v : K) :
    inFences (a * q1 + b) (a * q3 + b) (a * v + b) = inFences q1 q3 v := by
  have hlow : a * q1 + b - 3 / 2 * (a * q3 + b - (a * q1 + b)) =
    a * (q1 - 3 / 2 * (q3 - q1)) + b := by ring
  have hhigh : a * q3 + b + 3 / 2 * (a * q3 + b - (a * q1 + b)) =
    a * (q3 + 3 / 2 * (q3 - q1)) + b := by ring
  simp only [inFences, hlow, hhigh, add_le_add_iff_right, mul_le_mul_iff_right₀ ha]

/-- A negative factor exchanges the fences. -/
theorem inFences_neg {a : K} (ha : a < 0) (b q1 q3 v : K) :
    inFences (a * q3 + b) (a * q1 + b) (a * v + b) = inFences q1 q3 v := by
  have hlow : a * q3 + b - 3 / 2 * (a * q1 + b - (a * q3 + b)) =
    a * (q3 + 3 / 2 * (q3 - q1)) + b := by ring
  have hhigh : a * q1 + b + 3 / 2 * (a * q1 + b - (a * q3 + b)) =
    a * (q1 - 3 / 2 * (q3 - q1)) + b := by ring
  simp only [inFences, hlow, hhigh, add_le_add_iff_right, mul_le_mul_left_of_neg ha, and_comm]

/-- **Affine maps**: whether a sample is inside does not change. -/
theorem inFences_sortBy_map {data : List K} (hd : 2 ≤ data.length) {a : K} (ha : a ≠ 0) (b v : K) :
    inFences (quantile (sortBy id (data.map fun x => a * x + b)) 4 1)
        (quantile (sortBy id (data.map fun x => a * x + b)) 4 3) (a * v + b) =
      inFences (quantile (sortBy id data) 4 1) (quantile (sortBy id data) 4 3) v := by
  have hs : 2 ≤ (sortBy id data).length := by rwa [(perm_sortBy id data).length_eq]
  rcases ha.lt_or_gt with hneg | hpos
  · have hanti : Antitone fun x : K => a * x + b := fun x y hxy =>
      add_le_add_left (mul_le_mul_of_nonpos_left hxy hneg.le) b
    rw [sortBy_map_antitone hanti, quantile_reverse (by rwa [List.length_map]) (by omega),
      quantile_reverse (by rwa [List.length_map]) (by omega), quantile_map hs (by omega),
      quantile_map hs (by omega)]
    exact inFences_neg hneg b _ _ v
  · have hmono : Monotone fun x : K => a * x + b := fun x y hxy =>
      add_le_add_left (mul_le_mul_of_nonneg_left hxy hpos.le) b
    rw [sortBy_map_monotone hmono, quantile_map hs (by omega), quantile_map hs (by omega)]
    exact inFences_pos hpos b _ _ v

end Fences

end PapQuic.Lib.Quantile
