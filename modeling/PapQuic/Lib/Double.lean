import Mathlib.Data.Int.Log
import Mathlib.Data.Rat.Floor
import Mathlib.Tactic.Linarith
import Mathlib.Tactic.FieldSimp
import Mathlib.Tactic.Positivity

/-! # Double precision

The arithmetic of `double` on the rational numbers that it can tell apart: `fl x` is the number with
53 significant bits next to `x`, ties going to the even one. Overflow and subnormal numbers are left
out, so this is the arithmetic of numbers of ordinary size.

* `fl_of_dyadic`: a number with at most 53 bits is not changed.
* `abs_fl_sub_le`: otherwise it moves by half a unit in the last place at most.
* `fl_eq_dyadic`: below `2 ^ 53` the result is a whole number of units, and a unit is `1 / 2 ^
  k`. -/

namespace PapQuic.Lib.Double

/-- The next integer, halves going to the even one. -/
def roundEven (x : ℚ) : ℤ :=
  if x - ⌊x⌋ < 1 / 2 then ⌊x⌋
  else if 1 / 2 < x - ⌊x⌋ then ⌊x⌋ + 1
  else if ⌊x⌋ % 2 = 0 then ⌊x⌋ else ⌊x⌋ + 1

/-- The unit in the last place: the distance of the doubles around `x`. -/
def ulp (x : ℚ) : ℚ := 2 ^ (Int.log 2 |x| - 52)

/-- The double next to `x`. -/
def fl (x : ℚ) : ℚ := ulp x * roundEven (x / ulp x)

theorem roundEven_intCast (n : ℤ) : roundEven n = n := by
  simp [roundEven]

theorem abs_roundEven_sub_le (x : ℚ) : |(roundEven x : ℚ) - x| ≤ 1 / 2 := by
  have h1 := Int.floor_le x
  have h2 := Int.lt_floor_add_one x
  rw [abs_le]
  unfold roundEven
  split_ifs <;> push_cast <;> constructor <;> linarith

theorem ulp_pos (x : ℚ) : 0 < ulp x := zpow_pos (by norm_num) _

/-- **The error of rounding.** -/
theorem abs_fl_sub_le (x : ℚ) : |fl x - x| ≤ ulp x / 2 := by
  have hu := ulp_pos x
  have h := abs_roundEven_sub_le (x / ulp x)
  have he : fl x - x = ulp x * (roundEven (x / ulp x) - x / ulp x) := by
    rw [fl, mul_sub, mul_div_cancel₀ x hu.ne']
  rw [he, abs_mul, abs_of_pos hu]
  calc ulp x * |(roundEven (x / ulp x) : ℚ) - x / ulp x| ≤ ulp x * (1 / 2) := by gcongr
    _ = ulp x / 2 := by ring

/-- A whole number of units is not changed. -/
theorem fl_of_units {x : ℚ} {n : ℤ} (h : x = n * ulp x) : fl x = x := by
  have hn : x / ulp x = n := by
    rw [div_eq_iff (ulp_pos x).ne']
    exact h
  rw [fl, hn, roundEven_intCast, mul_comm]
  exact h.symm

theorem log_le_of_lt {x : ℚ} {e : ℤ} (hx : 0 < x) (h : x < 2 ^ (e + 1)) : Int.log 2 x ≤ e := by
  have hlt : (2 : ℚ) ^ Int.log 2 x < 2 ^ (e + 1) := by
    have hle := Int.zpow_log_le_self (b := 2) (by norm_num) hx
    push_cast at hle
    exact lt_of_le_of_lt hle h
  have := (zpow_lt_zpow_iff_right₀ (by norm_num : (1 : ℚ) < 2)).mp hlt
  omega

theorem fl_of_dyadic_lt {m : ℕ} (j : ℤ) (hm : m < 2 ^ 53) : fl (m * 2 ^ j) = m * 2 ^ j := by
  rcases Nat.eq_zero_or_pos m with rfl | hpos
  · simp [fl, roundEven]
  have hm0 : (0 : ℚ) < m := by exact_mod_cast hpos
  have hm53 : (m : ℚ) < 2 ^ 53 := by exact_mod_cast hm
  have hx : (0 : ℚ) < m * 2 ^ j := mul_pos hm0 (zpow_pos (by norm_num) _)
  have hlog : Int.log 2 |(m : ℚ) * 2 ^ j| - 52 ≤ j := by
    rw [abs_of_pos hx]
    have hup : (m : ℚ) * 2 ^ j < 2 ^ (j + 52 + 1) := by
      have hp : (0 : ℚ) < 2 ^ j := zpow_pos (by norm_num) _
      calc (m : ℚ) * 2 ^ j < 2 ^ 53 * 2 ^ j := by gcongr
        _ = 2 ^ (j + 52 + 1) := by
          rw [show j + 52 + 1 = 53 + j by ring, zpow_add₀ (by norm_num)]
          norm_num
    have := log_le_of_lt hx hup
    omega
  obtain ⟨d, hd⟩ := Int.le.dest hlog
  refine fl_of_units (n := m * 2 ^ d) ?_
  rw [ulp]
  push_cast
  rw [mul_assoc]
  congr 1
  rw [← zpow_natCast, ← zpow_add₀ (by norm_num)]
  congr 1
  omega

/-- **Numbers with at most 53 bits are doubles.** -/
theorem fl_of_dyadic {m : ℕ} (j : ℤ) (hm : m ≤ 2 ^ 53) : fl (m * 2 ^ j) = m * 2 ^ j := by
  rcases Nat.lt_or_eq_of_le hm with hlt | heq
  · exact fl_of_dyadic_lt j hlt
  · -- the largest of them is a power of two, and has one bit
    have hm' : (m : ℚ) * 2 ^ j = (1 : ℕ) * 2 ^ (53 + j) := by
      rw [heq, zpow_add₀ (by norm_num)]
      push_cast
      norm_num
    rw [hm']
    exact fl_of_dyadic_lt (53 + j) (by norm_num)

theorem fl_natCast {m : ℕ} (hm : m ≤ 2 ^ 53) : fl m = m := by
  simpa using fl_of_dyadic 0 hm

theorem fl_div_pow {m k : ℕ} (hm : m ≤ 2 ^ 53) : fl (m / 2 ^ k : ℚ) = m / 2 ^ k := by
  have he : (m / 2 ^ k : ℚ) = m * 2 ^ (-(k : ℤ)) := by
    rw [zpow_neg, zpow_natCast, div_eq_mul_inv]
  rw [he]
  exact fl_of_dyadic _ hm

/-- The unit is small against the number. -/
theorem ulp_le {x : ℚ} (hx : 0 < x) : ulp x ≤ x / 2 ^ 52 := by
  have hle := Int.zpow_log_le_self (b := 2) (by norm_num) hx
  rw [ulp, abs_of_pos hx, zpow_sub₀ (by norm_num)]
  push_cast at hle
  norm_num at hle ⊢
  gcongr

theorem lt_ulp {x : ℚ} (hx : 0 < x) : x < 2 ^ 53 * ulp x := by
  have hup := Int.lt_zpow_succ_log_self (b := 2) (by norm_num) x
  rw [ulp, abs_of_pos hx]
  calc x < (2 : ℚ) ^ (Int.log 2 x + 1) := by exact_mod_cast hup
    _ = 2 ^ 53 * 2 ^ (Int.log 2 x - 52) := by
      rw [show Int.log 2 x + 1 = 53 + (Int.log 2 x - 52) by ring, zpow_add₀ (by norm_num)]
      norm_num

/-- Below `2 ^ 53` the units are fractions, and rounding gives a whole number of them, at most
`2 ^ 53`. -/
theorem fl_eq_dyadic {x : ℚ} (hx : 0 < x) (hlt : x < 2 ^ 53) :
    ∃ m k : ℕ, m ≤ 2 ^ 53 ∧ fl x = m / 2 ^ k ∧ ulp x = 1 / 2 ^ k := by
  have hlog : Int.log 2 x ≤ 52 := log_le_of_lt hx (by norm_num at hlt ⊢; exact hlt)
  obtain ⟨k, hk⟩ := Int.le.dest hlog
  have hulp : ulp x = 1 / 2 ^ k := by
    rw [ulp, abs_of_pos hx, show Int.log 2 x - 52 = -(k : ℤ) by omega, zpow_neg, zpow_natCast,
      one_div]
  have hu := ulp_pos x
  have herr := abs_le.mp (abs_roundEven_sub_le (x / ulp x))
  have hq : x / ulp x < 2 ^ 53 := by
    rw [div_lt_iff₀ hu]
    exact lt_ulp hx
  have hpos : 0 < x / ulp x := by positivity
  have h0 : 0 ≤ roundEven (x / ulp x) := by
    have hlow : (-1 : ℚ) < roundEven (x / ulp x) := by linarith
    have : (-1 : ℤ) < roundEven (x / ulp x) := by exact_mod_cast hlow
    omega
  have h53 : roundEven (x / ulp x) ≤ 2 ^ 53 := by
    have hup : (roundEven (x / ulp x) : ℚ) < 2 ^ 53 + 1 := by linarith
    have : roundEven (x / ulp x) < 2 ^ 53 + 1 := by exact_mod_cast hup
    omega
  obtain ⟨m, hm⟩ := Int.eq_ofNat_of_zero_le h0
  refine ⟨m, k, by rw [hm] at h53; exact_mod_cast h53, ?_, hulp⟩
  rw [fl, hm, hulp]
  push_cast
  ring

end PapQuic.Lib.Double
