import PapQuic.Lib.Double
import PapQuic.Lib.Printf
import Mathlib.Algebra.Order.Floor.Semifield

/-! # The time stamps of the packet log

A line starts with the wall clock in milliseconds, modulo 100 seconds, printed with `%12.8f`. The
packet lines of `ssl/quic/quic_debug.c` are printed by `BIO_printf`, whose own `fmtfp` in
`crypto/bio/bio_print.c` turns the fraction into digits, and those of
`ssl/quic/quic_handshake_timing.c` by `fprintf` of the C library, which rounds the exact value.

The clock is a `double`, but nothing is lost on the way from it to the text: the subtraction and the
addition in `displayMs` are exact (`displayMs_eq`), and the fraction is too far from 1 to be rounded
up (`wallclock_eq`). So both print the whole milliseconds modulo 100 000, padded to three
digits with blanks, and eight digits after the point (`fmtfp_displayMs`, `fprintf_displayMs`). -/

namespace PapQuic.Log.Clock

open Lib.Double Lib.Printf

/-! ### The clock -/

/-- `OSSL_TIME`: nanoseconds in a `uint64_t`. -/
abbrev OsslTime := Fin (2 ^ 64)

instance neZero_ticks : NeZero (2 ^ 64) := ⟨by decide⟩

/-- `quic_log_wallclock_ms`. -/
def quicLogWallclockMs (ticks : ℕ) : ℚ := fl (fl ticks / 1000000)

/-- `display_ms` of `ossl_quic_packet_log` and of `quic_timing_display_ms_from_now`. -/
def displayMs (elapsedMs : ℚ) : ℚ :=
  let integral := if 0 ≤ elapsedMs then ⌊elapsedMs⌋₊ else ⌊-elapsedMs⌋₊
  let fractional := fl (elapsedMs - if 0 ≤ elapsedMs then fl integral else -fl integral)
  let mod := integral % 100000
  let displayMs := if 0 ≤ elapsedMs then fl (fl mod + fractional) else -fl (fl mod + fractional)
  if displayMs < 0 then fl (displayMs + 100000) else displayMs

/-! ### Printing -/

/-- `roundv`. -/
def roundv (value : ℚ) : ℕ := if fl (value - ⌊value⌋₊) ≥ 1 / 2 then ⌊value⌋₊ + 1 else ⌊value⌋₊

/-- `fmtfp` on a number that is not negative, in the style of `%f` and without flags. -/
def fmtfp (min max : ℕ) (ufvalue : ℚ) : Text :=
  let intpart := ⌊ufvalue⌋₊
  let max10 : ℕ := 10 ^ max
  let fracpart := roundv (fl (max10 * fl (ufvalue - intpart)))
  padLeft min (if fracpart ≥ max10 then decimal (intpart + 1) max (fracpart - max10)
    else decimal intpart max fracpart)

/-- `%min.maxf` of the C library on a number that is not negative: the exact value, rounded. -/
def fprintf (min max : ℕ) (value : ℚ) : Text :=
  let scaled := (roundEven (value * 10 ^ max)).toNat
  padLeft min (decimal (scaled / 10 ^ max) max (scaled % 10 ^ max))

/-! ### Whole milliseconds and the fraction

A time below `2 ^ 53` is `m / 2 ^ k`: `m / 2 ^ k` whole milliseconds, and the fraction
`m % 2 ^ k` in units of `1 / 2 ^ k`. -/

theorem floor_dyadic (m k : ℕ) : ⌊(m / 2 ^ k : ℚ)⌋₊ = m / 2 ^ k := by
  have h := Nat.floor_div_eq_div (K := ℚ) m (2 ^ k)
  push_cast at h
  exact h

/-- What is left of a dyadic number after its whole part. -/
theorem dyadic_sub (m k : ℕ) : (m / 2 ^ k : ℚ) - (m / 2 ^ k : ℕ) = (m % 2 ^ k : ℕ) / 2 ^ k := by
  have h := Nat.div_add_mod m (2 ^ k)
  have hq : (2 ^ k : ℚ) * (m / 2 ^ k : ℕ) + (m % 2 ^ k : ℕ) = m := by exact_mod_cast h
  field_simp
  linarith

/-- **The displayed time is exact**: the milliseconds modulo 100 000, and the whole fraction. -/
theorem displayMs_eq {m k : ℕ} (hm : m ≤ 2 ^ 53) :
    displayMs (m / 2 ^ k) = ((m / 2 ^ k % 100000 * 2 ^ k + m % 2 ^ k : ℕ) : ℚ) / 2 ^ k := by
  have h0 : (0 : ℚ) ≤ m / 2 ^ k := by positivity
  have hint : m / 2 ^ k ≤ 2 ^ 53 := le_trans (Nat.div_le_self _ _) hm
  have hfrac : m % 2 ^ k ≤ 2 ^ 53 := le_trans (Nat.mod_le _ _) hm
  have hmod : m / 2 ^ k % 100000 ≤ 2 ^ 53 := le_trans (Nat.mod_le _ _) hint
  have hsum : m / 2 ^ k % 100000 * 2 ^ k + m % 2 ^ k ≤ 2 ^ 53 := by
    have h1 := Nat.mul_le_mul_right (2 ^ k) (Nat.mod_le (m / 2 ^ k) 100000)
    have h2 := Nat.div_add_mod' m (2 ^ k)
    omega
  have hadd : ((m / 2 ^ k % 100000 : ℕ) : ℚ) + (m % 2 ^ k : ℕ) / 2 ^ k =
      ((m / 2 ^ k % 100000 * 2 ^ k + m % 2 ^ k : ℕ) : ℚ) / 2 ^ k := by
    push_cast
    field_simp
  have hnn : ¬ ((m / 2 ^ k % 100000 * 2 ^ k + m % 2 ^ k : ℕ) : ℚ) / 2 ^ k < 0 := by
    rw [not_lt]
    positivity
  simp only [displayMs, if_pos h0, floor_dyadic]
  rw [fl_natCast hint, dyadic_sub, fl_div_pow hfrac, fl_natCast hmod, hadd, fl_div_pow hsum,
    if_neg hnn]

/-! ### No carry -/

theorem roundv_lt {n k bound : ℕ} (hn : n ≤ 2 ^ 53) (h : (n / 2 ^ k : ℚ) < bound - 1 / 2) :
    roundv (n / 2 ^ k) < bound := by
  have hsplit := dyadic_sub n k
  have hr : (0 : ℚ) ≤ (n % 2 ^ k : ℕ) / 2 ^ k := by positivity
  rw [roundv, floor_dyadic, hsplit, fl_div_pow (le_trans (Nat.mod_le _ _) hn)]
  split_ifs with hhalf
  · have hlt : ((n / 2 ^ k + 1 : ℕ) : ℚ) < bound := by
      push_cast
      linarith
    exact_mod_cast hlt
  · have hlt : ((n / 2 ^ k : ℕ) : ℚ) < bound := by linarith
    exact_mod_cast hlt

/-- A fraction this far from 1 is not rounded up to 1. -/
def FarFromOne (r k : ℕ) : Prop := ((r : ℚ) / 2 ^ k) ≤ 1 - 6 / 10 ^ 9

/-- The whole part of `i + r / 2 ^ k`, and the fraction. -/
theorem floor_add {i r k : ℕ} (hr : r < 2 ^ k) :
    ⌊((i * 2 ^ k + r : ℕ) : ℚ) / 2 ^ k⌋₊ = i ∧
      ((i * 2 ^ k + r : ℕ) : ℚ) / 2 ^ k - i = r / 2 ^ k := by
  have hdiv : (i * 2 ^ k + r) / 2 ^ k = i := by
    rw [Nat.mul_comm, Nat.mul_add_div (by positivity), Nat.div_eq_of_lt hr, Nat.add_zero]
  refine ⟨by rw [floor_dyadic, hdiv], ?_⟩
  push_cast
  field_simp
  ring

theorem fmtfp_eq {i r k : ℕ} (hr : r < 2 ^ k) (h53 : r ≤ 2 ^ 53) (hfar : FarFromOne r k) :
    ∃ f < 10 ^ 8, fmtfp 12 8 (((i * 2 ^ k + r : ℕ) : ℚ) / 2 ^ k) =
      padLeft 12 (decimal i 8 f) := by
  obtain ⟨hfloor, hfrac⟩ := floor_add (i := i) hr
  unfold FarFromOne at hfar
  have hf : roundv (fl (((10 ^ 8 : ℕ) : ℚ) * (r / 2 ^ k))) < 10 ^ 8 := by
    rcases Nat.eq_zero_or_pos r with rfl | hpos
    · have h := fl_natCast (m := 0) (by norm_num)
      rw [Nat.cast_zero] at h
      norm_num [h, roundv]
    · have hr0 : (0 : ℚ) < r := by exact_mod_cast hpos
      have hx : (0 : ℚ) < ((10 ^ 8 : ℕ) : ℚ) * (r / 2 ^ k) := by positivity
      have hup : ((10 ^ 8 : ℕ) : ℚ) * (r / 2 ^ k) ≤ 10 ^ 8 - 6 / 10 := by
        push_cast
        linarith
      obtain ⟨n, j, hn, hfl, -⟩ := fl_eq_dyadic hx (by linarith)
      have herr := abs_le.mp (abs_fl_sub_le (((10 ^ 8 : ℕ) : ℚ) * (r / 2 ^ k)))
      have hulp := ulp_le hx
      rw [hfl] at herr ⊢
      refine roundv_lt hn ?_
      push_cast at herr hulp hup ⊢
      linarith [herr.2]
  refine ⟨_, hf, ?_⟩
  have hk : fl (r / 2 ^ k : ℚ) = r / 2 ^ k := fl_div_pow h53
  simp only [fmtfp, hfloor, hfrac, hk]
  rw [if_neg (by omega)]

theorem fprintf_eq {i r k : ℕ} (hfar : FarFromOne r k) :
    ∃ f < 10 ^ 8, fprintf 12 8 (((i * 2 ^ k + r : ℕ) : ℚ) / 2 ^ k) =
      padLeft 12 (decimal i 8 f) := by
  unfold FarFromOne at hfar
  have hvi : ((i * 2 ^ k + r : ℕ) : ℚ) / 2 ^ k = i + r / 2 ^ k := by
    push_cast
    field_simp
  generalize ((i * 2 ^ k + r : ℕ) : ℚ) / 2 ^ k = v at hvi ⊢
  have hr0 : (0 : ℚ) ≤ r / 2 ^ k := by positivity
  have herr := abs_le.mp (abs_roundEven_sub_le (v * 10 ^ 8))
  simp only [fprintf]
  generalize roundEven (v * 10 ^ 8) = n at herr ⊢
  have hlow : (i * 10 ^ 8 : ℤ) ≤ n := by
    have : ((i * 10 ^ 8 : ℤ) : ℚ) < n + 1 := by
      push_cast
      linarith [herr.1]
    exact Int.lt_add_one_iff.mp (by exact_mod_cast this)
  have hup : n < ((i + 1) * 10 ^ 8 : ℤ) := by
    have : (n : ℚ) < (((i + 1) * 10 ^ 8 : ℤ) : ℚ) := by
      push_cast
      linarith [herr.2]
    exact_mod_cast this
  have hdiv : n.toNat / 10 ^ 8 = i := by omega
  rw [hdiv]
  exact ⟨_, Nat.mod_lt _ (by norm_num), rfl⟩

/-! ### The fraction of the clock -/

/-- While the ticks are exact and the units of the clock fine: a fraction that is not 0 is a number
of millionths, and stays between the first and the last of them. -/
theorem farFromOne_of_exact {ticks m k : ℕ} (hticks : ticks ≤ 2 ^ 53)
    (hE : fl (ticks / 1000000 : ℚ) = m / 2 ^ k) (hulp : ulp (ticks / 1000000 : ℚ) ≤ 1 / 2 ^ 28) :
    FarFromOne (m % 2 ^ k) k := by
  have hsub := dyadic_sub m k
  have hfloor := floor_dyadic m k
  have hq : (ticks / 1000000 : ℚ) = (ticks / 1000000 : ℕ) + (ticks % 1000000 : ℕ) / 1000000 := by
    have h := Nat.div_add_mod ticks 1000000
    have hc : (1000000 : ℚ) * (ticks / 1000000 : ℕ) + (ticks % 1000000 : ℕ) = ticks := by
      exact_mod_cast h
    linarith
  have ha : ticks / 1000000 ≤ 2 ^ 53 := le_trans (Nat.div_le_self _ _) hticks
  have hj : ticks % 1000000 < 1000000 := Nat.mod_lt _ (by norm_num)
  have herr := abs_le.mp (abs_fl_sub_le (ticks / 1000000 : ℚ))
  unfold FarFromOne
  generalize ticks / 1000000 = a at hq ha
  generalize ticks % 1000000 = j at hq hj
  rcases Nat.eq_zero_or_pos j with rfl | hpos
  · rw [hq, Nat.cast_zero, zero_div, add_zero, fl_natCast ha] at hE
    rw [← hE, Nat.floor_natCast] at hfloor
    rw [← hE, ← hfloor, sub_self] at hsub
    rw [← hsub]
    norm_num
  · have hj0 : (1 : ℚ) ≤ j := by exact_mod_cast hpos
    have hj1 : (j : ℚ) ≤ 999999 := by exact_mod_cast Nat.lt_succ_iff.mp hj
    rw [hE] at herr
    have hwhole : m / 2 ^ k = a := by
      rw [← hfloor, Nat.floor_eq_iff (by positivity)]
      constructor <;> linarith [herr.1, herr.2]
    rw [hwhole] at hsub
    linarith [herr.2]

/-- **The clock in milliseconds is a dyadic number whose fraction is far from 1.** -/
theorem wallclock_eq {ticks : ℕ} (h : ticks < 2 ^ 64) :
    ∃ m k : ℕ, m ≤ 2 ^ 53 ∧ quicLogWallclockMs ticks = m / 2 ^ k ∧ FarFromOne (m % 2 ^ k) k := by
  rcases Nat.eq_zero_or_pos ticks with rfl | hpos
  · refine ⟨0, 0, by norm_num, ?_, by norm_num [FarFromOne]⟩
    have h := fl_natCast (m := 0) (by norm_num)
    rw [Nat.cast_zero] at h
    simp [quicLogWallclockMs, h]
  have ht0 : (0 : ℚ) < ticks := by exact_mod_cast hpos
  have ht64 : (ticks : ℚ) < 2 ^ 64 := by exact_mod_cast h
  have herrT := abs_le.mp (abs_fl_sub_le (ticks : ℚ))
  have hulpT := ulp_le ht0
  have hq0 : (0 : ℚ) < fl ticks / 1000000 := by
    have : (0 : ℚ) < fl ticks := by linarith [herrT.1]
    positivity
  obtain ⟨m, k, hm, hE, hulp⟩ := fl_eq_dyadic hq0 (by linarith [herrT.2])
  refine ⟨m, k, hm, hE, ?_⟩
  have hr : m % 2 ^ k < 2 ^ k := Nat.mod_lt _ (by positivity)
  rcases Nat.lt_or_ge 27 k with hk | hk
  · -- the clock is below 2 ^ 25, so the ticks are exact
    have hku : (1 : ℚ) / 2 ^ k ≤ 1 / 2 ^ 28 := by gcongr <;> [norm_num; omega]
    have hlt := lt_ulp hq0
    have hticks : ticks ≤ 2 ^ 53 := by
      have : (ticks : ℚ) < 2 ^ 53 := by linarith [herrT.1]
      exact_mod_cast this.le
    have hT : fl (ticks : ℚ) = ticks := fl_natCast hticks
    rw [hT] at hE hulp
    exact farFromOne_of_exact hticks hE (hulp.trans_le hku)
  · have h1 : ((m % 2 ^ k : ℕ) : ℚ) + 1 ≤ 2 ^ k := by exact_mod_cast hr
    have h2 : (2 : ℚ) ^ k ≤ 2 ^ 27 := by gcongr; norm_num
    unfold FarFromOne
    rw [div_le_iff₀ (by positivity)]
    linarith

/-! ### What is printed -/

/-- The whole milliseconds of the clock, modulo 100 000. -/
def displayedMs (ticks : ℕ) : ℕ := ⌊quicLogWallclockMs ticks⌋₊ % 100000

/-- **What `BIO_printf` prints for the clock.** -/
theorem fmtfp_displayMs {ticks : ℕ} (h : ticks < 2 ^ 64) :
    ∃ f < 10 ^ 8, fmtfp 12 8 (displayMs (quicLogWallclockMs ticks)) =
      padLeft 12 (decimal (displayedMs ticks) 8 f) := by
  obtain ⟨m, k, hm, hE, hfar⟩ := wallclock_eq h
  rw [displayedMs, hE, displayMs_eq hm, floor_dyadic]
  exact fmtfp_eq (Nat.mod_lt _ (by positivity)) (le_trans (Nat.mod_le _ _) hm) hfar

/-- **What `fprintf` prints for the clock.** -/
theorem fprintf_displayMs {ticks : ℕ} (h : ticks < 2 ^ 64) :
    ∃ f < 10 ^ 8, fprintf 12 8 (displayMs (quicLogWallclockMs ticks)) =
      padLeft 12 (decimal (displayedMs ticks) 8 f) := by
  obtain ⟨m, k, hm, hE, hfar⟩ := wallclock_eq h
  rw [displayedMs, hE, displayMs_eq hm, floor_dyadic]
  exact fprintf_eq hfar

end PapQuic.Log.Clock
