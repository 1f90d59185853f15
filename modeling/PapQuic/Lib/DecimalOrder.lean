import Mathlib.Data.List.Lex
import Mathlib.Data.Char
import Mathlib.Tactic.Common
import Mathlib.Tactic.Ring
import PapQuic.Lib.Printf

/-! # Decimal numbers in names

Numbers padded with zeros (`zeroPad`, `%0*d`) and the alphabetical order of names that contain them.
Among numbers of one width it is the order of the numbers; a wider number is compared by its leading
digits only (`zeroPad_le_iff`). -/

namespace PapQuic.Lib.DecimalOrder

open Lib.Printf

/-- The last `w` decimal digits of a number. -/
def digits : ℕ → ℕ → Text
  | 0, _ => []
  | w + 1, n => digits w (n / 10) ++ [Nat.digitChar (n % 10)]

/-- `%0*d`. -/
def zeroPad (w n : ℕ) : Text := List.replicate (w - (dec n).length) '0' ++ dec n

@[simp] theorem length_digits (w n : ℕ) : (digits w n).length = w := by
  induction w generalizing n with
  | zero => rfl
  | succ w ih => simp [digits, ih]

theorem digits_zero (w : ℕ) : digits w 0 = List.replicate w '0' := by
  induction w with
  | zero => rfl
  | succ w ih =>
    rw [digits, Nat.zero_div, ih, List.replicate_succ']
    rfl

/-- The digits of a number as its leading ones and the others. -/
theorem digits_add (w k n : ℕ) : digits (w + k) n = digits w (n / 10 ^ k) ++ digits k n := by
  induction k generalizing n with
  | zero => simp [digits]
  | succ k ih =>
    rw [← Nat.add_assoc, digits, ih, digits, Nat.div_div_eq_div_mul, pow_succ', List.append_assoc]

/-- A decimal number has its own digits. -/
theorem dec_eq_digits (n : ℕ) : dec n = digits (dec n).length n := by
  induction n using Nat.strong_induction_on with
  | _ n ih =>
    by_cases hn : n < 10
    · rw [dec, Nat.toDigits_of_lt_base hn]
      simp [digits, Nat.mod_eq_of_lt hn]
    · have hpos : 0 < n / 10 := Nat.div_pos (by omega) (by omega)
      have happ : dec n = dec (n / 10) ++ [Nat.digitChar (n % 10)] := by
        have h := Nat.toDigits_append_toDigits (b := 10) (n := n / 10) (d := n % 10) (by omega) hpos
          (Nat.mod_lt n (by omega))
        rw [Nat.toDigits_of_lt_base (Nat.mod_lt n (by omega)), Nat.div_add_mod] at h
        exact h.symm
      rw [happ, List.length_append, List.length_singleton, digits, ← ih (n / 10) (by omega)]

/-- A positive number does not start with a 0. -/
theorem head?_dec_ne {n : ℕ} (h : 0 < n) : (dec n).head? ≠ some '0' := by
  induction n using Nat.strongRecOn with
  | ind n ih =>
    rw [dec, Nat.toDigits_eq_if (by decide)]
    split_ifs with hlt
    · rw [List.head?_cons, Ne, Option.some.injEq]
      interval_cases n <;> decide
    · rw [List.head?_append_of_ne_nil _ Nat.toDigits_ne_nil]
      exact ih (n / 10) (by omega) (by omega)

theorem zeroPad_eq_digits (w n : ℕ) : zeroPad w n = digits (zeroPad w n).length n := by
  have hlt : n < 10 ^ (dec n).length := by
    by_contra hle
    have hpos : 0 < (dec n).length := List.length_pos_of_ne_nil (dec_ne_nil n)
    exact absurd ((lt_length_dec_iff hpos).mpr (not_lt.mp hle)) (lt_irrefl _)
  have hlen : (zeroPad w n).length = w - (dec n).length + (dec n).length := by simp [zeroPad]
  rw [hlen, digits_add, Nat.div_eq_of_lt hlt, digits_zero, ← dec_eq_digits]
  rfl

theorem lt_pow_length_zeroPad (w n : ℕ) : n < 10 ^ (zeroPad w n).length := by
  have hpos : 0 < (dec n).length := List.length_pos_of_ne_nil (dec_ne_nil n)
  have hle : (dec n).length ≤ (zeroPad w n).length := by simp [zeroPad]
  by_contra hge
  have := (lt_length_dec_iff (hpos.trans_le hle)).mpr (not_lt.mp hge)
  omega

theorem length_zeroPad_mono {w n m : ℕ} (h : n ≤ m) :
    (zeroPad w n).length ≤ (zeroPad w m).length := by
  have hpos : 0 < (dec m).length := List.length_pos_of_ne_nil (dec_ne_nil m)
  have hdec : (dec n).length ≤ (dec m).length := by
    by_contra hlt
    have hm := (lt_length_dec_iff hpos).mp (not_le.mp hlt)
    exact absurd ((lt_length_dec_iff hpos).mpr (hm.trans h)) (lt_irrefl _)
  simp only [zeroPad, List.length_append, List.length_replicate]
  omega

/-! ### The alphabetical order -/

/-- Texts of one length are compared before what follows. -/
theorem append_lt_append {a b : Text} (h : a < b) (hl : a.length = b.length) (s t : Text) :
    a ++ s < b ++ t := by
  induction a generalizing b with
  | nil =>
    rw [List.length_nil, eq_comm, List.length_eq_zero_iff] at hl
    exact absurd (hl ▸ h) (lt_irrefl _)
  | cons x a ih =>
    cases b with
    | nil => cases hl
    | cons y b =>
      rw [List.cons_append, List.cons_append]
      rcases List.cons_lt_cons_iff.mp h with hxy | ⟨rfl, hab⟩
      · exact List.cons_lt_cons_iff.mpr (.inl hxy)
      · exact List.cons_lt_cons_iff.mpr (.inr ⟨rfl, ih hab (Nat.succ.inj hl)⟩)

theorem append_lt_append_left (a : Text) {s t : Text} (h : s < t) : a ++ s < a ++ t := by
  induction a with
  | nil => exact h
  | cons x a ih => exact List.cons_lt_cons_iff.mpr (.inr ⟨rfl, ih⟩)

theorem digitChar_lt {a b : ℕ} (hb : b < 10) (h : a < b) : Nat.digitChar a < Nat.digitChar b := by
  interval_cases b <;> interval_cases a <;> decide

/-- **Numbers of one width** are in the order of their digits. -/
theorem digits_lt_digits {w n m : ℕ} (hm : m < 10 ^ w) (h : n < m) : digits w n < digits w m := by
  induction w generalizing n m with
  | zero => omega
  | succ w ih =>
    rw [digits, digits]
    rcases (Nat.div_le_div_right (c := 10) h.le).eq_or_lt with heq | hlt
    · rw [heq]
      have hdigit := digitChar_lt (Nat.mod_lt m (by omega)) (by omega : n % 10 < m % 10)
      exact append_lt_append_left _ (List.cons_lt_cons_iff.mpr (.inl hdigit))
    · refine append_lt_append (ih ?_ hlt) (by simp) _ _
      rw [pow_succ] at hm
      omega

/-- **Numbers of two widths**: the narrower one is compared with the leading digits of the wider
one. What follows the number comes before all digits. -/
theorem zeroPad_le_iff {w n m : ℕ} (h : n ≤ m) {c : Char} (hc : ∀ d < 10, c < Nat.digitChar d)
    (before after : Text) :
    before ++ (zeroPad w n ++ c :: after) ≤ before ++ (zeroPad w m ++ c :: after) ↔
      n ≤ m / 10 ^ ((zeroPad w m).length - (zeroPad w n).length) := by
  obtain ⟨k, hk⟩ := Nat.exists_eq_add_of_le (length_zeroPad_mono (w := w) h)
  have hm := lt_pow_length_zeroPad w m
  rw [hk, Nat.add_sub_cancel_left]
  rw [hk, pow_add] at hm
  have hlead : m / 10 ^ k < 10 ^ (zeroPad w n).length :=
    Nat.div_lt_of_lt_mul (by rwa [Nat.mul_comm])
  have hsplit : zeroPad w m = digits (zeroPad w n).length (m / 10 ^ k) ++ digits k m := by
    rw [zeroPad_eq_digits, hk, digits_add]
  have hnarrow := zeroPad_eq_digits w n
  have hn := lt_pow_length_zeroPad w n
  rw [hsplit, List.append_assoc]
  generalize (zeroPad w n).length = v at hlead hnarrow hn
  rw [hnarrow]
  rcases lt_trichotomy n (m / 10 ^ k) with hlt | heq | hgt
  · refine iff_of_true (le_of_lt (append_lt_append_left _ ?_)) hlt.le
    exact append_lt_append (digits_lt_digits hlead hlt) (by simp) _ _
  · refine iff_of_true ?_ heq.le
    rw [← heq]
    cases k with
    | zero => exact le_rfl
    | succ k =>
      refine le_of_lt (append_lt_append_left _ (append_lt_append_left _ ?_))
      obtain ⟨d, hd, t, ht⟩ : ∃ d < 10, ∃ t, digits (k + 1) m = Nat.digitChar d :: t := by
        refine ⟨m / 10 ^ k % 10, Nat.mod_lt _ (by omega), digits k m, ?_⟩
        rw [Nat.add_comm, digits_add]
        rfl
      rw [ht, List.cons_append]
      exact List.cons_lt_cons_iff.mpr (.inl (hc d hd))
  · refine iff_of_false (not_le.mpr (append_lt_append_left _ ?_)) (not_le.mpr hgt)
    exact append_lt_append (digits_lt_digits hn hgt) (by simp) _ _

end PapQuic.Lib.DecimalOrder
