import Mathlib.Data.List.Basic
import Mathlib.Data.List.Nodup
import Mathlib.Order.Basic
import Mathlib.Tactic.Common

/-! # First occurrences

A loop that keeps an element unless one with the same key has been seen before. What it keeps has
each key once (`nodup_map_firstsBy`), no key gets lost (`mem_map_firstsBy`), and in a sorted list
the least element of each key is kept (`le_of_mem_firstsBy`). -/

namespace PapQuic.Lib.Firsts

variable {α κ : Type*} [DecidableEq κ] (key : α → κ)

/-- The elements whose keys are not among those seen before. -/
def firstsBy : List κ → List α → List α
  | _, [] => []
  | seen, a :: l => if key a ∈ seen then firstsBy seen l else a :: firstsBy (key a :: seen) l

@[simp] theorem firstsBy_nil (seen : List κ) : firstsBy key seen [] = [] := rfl

variable {key}

theorem firstsBy_cons_pos {a : α} {seen : List κ} (h : key a ∈ seen) (l : List α) :
    firstsBy key seen (a :: l) = firstsBy key seen l :=
  if_pos h

theorem firstsBy_cons_neg {a : α} {seen : List κ} (h : key a ∉ seen) (l : List α) :
    firstsBy key seen (a :: l) = a :: firstsBy key (key a :: seen) l :=
  if_neg h

theorem sublist_firstsBy (seen : List κ) (l : List α) : (firstsBy key seen l).Sublist l := by
  induction l generalizing seen with
  | nil => exact .refl _
  | cons a l ih =>
    unfold firstsBy
    split_ifs
    · exact (ih seen).cons a
    · exact (ih _).cons_cons a

/-- **The keys that are kept.** -/
theorem mem_map_firstsBy {k : κ} {seen : List κ} {l : List α} :
    k ∈ (firstsBy key seen l).map key ↔ k ∉ seen ∧ k ∈ l.map key := by
  induction l generalizing seen with
  | nil => simp
  | cons a l ih =>
    by_cases ha : key a ∈ seen
    · rw [firstsBy_cons_pos ha, ih, List.map_cons, List.mem_cons]
      constructor
      · rintro ⟨hs, hm⟩
        exact ⟨hs, .inr hm⟩
      · rintro ⟨hs, rfl | hm⟩
        · exact absurd ha hs
        · exact ⟨hs, hm⟩
    · rw [firstsBy_cons_neg ha, List.map_cons, List.mem_cons, ih, List.map_cons, List.mem_cons,
        List.mem_cons]
      by_cases hk : k = key a
      · simp [hk, ha]
      · simp [hk]

theorem nodup_map_firstsBy (seen : List κ) (l : List α) :
    ((firstsBy key seen l).map key).Nodup := by
  induction l generalizing seen with
  | nil => simp
  | cons a l ih =>
    unfold firstsBy
    split_ifs
    · exact ih seen
    · rw [List.map_cons, List.nodup_cons, mem_map_firstsBy]
      exact ⟨fun h => h.1 (List.mem_cons_self ..), ih _⟩

/-- **In a sorted list the least element of each key is kept.** -/
theorem le_of_mem_firstsBy [Preorder α] {seen : List κ} {l : List α} (hl : l.Pairwise (· ≤ ·))
    {a b : α} (ha : a ∈ firstsBy key seen l) (hb : b ∈ l) (hk : key b = key a) : a ≤ b := by
  induction l generalizing seen with
  | nil => cases hb
  | cons c l ih =>
    obtain ⟨hc, hl⟩ := List.pairwise_cons.mp hl
    have hkeep : key a ∉ seen := (mem_map_firstsBy.mp (List.mem_map_of_mem ha)).1
    by_cases hs : key c ∈ seen
    · rw [firstsBy_cons_pos hs] at ha
      rcases List.mem_cons.mp hb with rfl | hb
      · exact absurd (hk ▸ hs) hkeep
      · exact ih hl ha hb
    · rw [firstsBy_cons_neg hs] at ha
      rcases List.mem_cons.mp ha with rfl | ha
      · rcases List.mem_cons.mp hb with rfl | hb
        · exact le_rfl
        · exact hc b hb
      · rcases List.mem_cons.mp hb with rfl | hb
        · have := (mem_map_firstsBy.mp (List.mem_map_of_mem ha)).1
          exact absurd (List.mem_cons.mpr (.inl hk.symm)) this
        · exact ih hl ha hb

end PapQuic.Lib.Firsts
