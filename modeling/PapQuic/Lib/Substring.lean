import Mathlib.Data.List.Infix
import Mathlib.Tactic.Common

/-! # Substrings

Where a text without a separator can be found in a text made of parts, and where a text with a
letter that occurs only once can. -/

namespace PapQuic.Lib.Substring

variable {α : Type*}

/-- A text without the separator is found in one of the two parts. -/
theorem infix_append_cons_iff {c : α} {t a b : List α} (hc : c ∉ t) :
    t <:+: a ++ c :: b ↔ t <:+: a ∨ t <:+: b := by
  constructor
  · rintro ⟨x, y, h⟩
    rw [List.append_assoc] at h
    rcases List.append_eq_append_iff.mp h with ⟨u, rfl, hu⟩ | ⟨u, rfl, hu⟩
    · -- the occurrence begins in the first part, and ends there
      rcases List.append_eq_append_iff.mp hu with ⟨v, rfl, -⟩ | ⟨v, rfl, hv⟩
      · exact .inl ⟨x, v, by simp⟩
      · cases v with
        | nil => exact .inl ⟨x, [], by simp⟩
        | cons d v =>
          obtain ⟨rfl, -⟩ := List.cons.inj hv
          exact absurd (by simp) hc
    · cases u with
      | nil =>
        cases t with
        | nil => exact .inl (List.nil_infix)
        | cons d t =>
          obtain ⟨rfl, -⟩ := List.cons.inj hu
          exact absurd (by simp) hc
      | cons d u =>
        obtain ⟨rfl, rfl⟩ := List.cons.inj hu
        exact .inr ⟨u, y, by simp⟩
  · rintro (h | h)
    · exact h.trans (List.prefix_append _ _).isInfix
    · exact h.trans ⟨a ++ [c], [], by simp⟩

/-- A text with a letter that is found at one place only is found around it. -/
theorem append_cons_infix_iff {c : α} {s t a b : List α} (ha : c ∉ a) (hb : c ∉ b) :
    s ++ c :: t <:+: a ++ c :: b ↔ s <:+ a ∧ t <+: b := by
  constructor
  · rintro ⟨x, y, h⟩
    have hplace : a ++ c :: b = (x ++ s) ++ c :: (t ++ y) := by simp [← h]
    obtain ⟨rfl, -, rfl⟩ := (List.append_cons_inj_of_notMem ha hb).mp hplace
    exact ⟨List.suffix_append _ _, List.prefix_append _ _⟩
  · rintro ⟨⟨x, rfl⟩, y, rfl⟩
    exact ⟨x, y, by simp⟩

end PapQuic.Lib.Substring
