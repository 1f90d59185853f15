import Mathlib.Data.Set.Insert
import Mathlib.Order.Interval.Set.Basic
import Mathlib.Tactic.Common

/-! # Descending lists of ranges

A set of numbers as a list of ranges, each given by its first and its last number, the latest range
first. `Descending gap` says that more than `gap` numbers lie from the end of a range to the start
of the next one: with `0` the ranges are disjoint, with `1` they do not border on each other either.

The order is told by what the list covers (`descending_cons`), so that an operation whose effect on
the set is known needs little more for the order. Lists with gaps are determined by what they cover
(`Descending.ext`). -/

namespace PapQuic.Lib.Ranges

/-- A range of numbers, both ends in it. -/
structure Range where
  start : ℕ
  last : ℕ
  deriving Repr, DecidableEq

/-- The numbers of a range. -/
def Range.numbers (r : Range) : Set ℕ := {n | r.start ≤ n ∧ n ≤ r.last}

variable {r : Range}

@[simp] theorem Range.mem_numbers {n : ℕ} :
    n ∈ r.numbers ↔ r.start ≤ n ∧ n ≤ r.last := Iff.rfl

/-- The numbers that some range of a list has. -/
def cover (l : List Range) : Set ℕ := {n | ∃ r ∈ l, n ∈ r.numbers}

variable {l : List Range}

theorem mem_cover {n : ℕ} :
    n ∈ cover l ↔ ∃ r ∈ l, r.start ≤ n ∧ n ≤ r.last := Iff.rfl

@[simp] theorem cover_nil : cover [] = ∅ := by
  ext n
  simp [mem_cover]

@[simp] theorem mem_cover_cons {n : ℕ} :
    n ∈ cover (r :: l) ↔ (r.start ≤ n ∧ n ≤ r.last) ∨ n ∈ cover l := by
  simp [mem_cover]

@[simp] theorem mem_cover_append {l m : List Range} {n : ℕ} :
    n ∈ cover (l ++ m) ↔ n ∈ cover l ∨ n ∈ cover m := by
  simp only [mem_cover, List.mem_append, or_and_right, exists_or]

/-- The ranges have numbers, and more than `gap` numbers lie between the end of a range and the
start of each range before it in the list. -/
structure Descending (gap : ℕ) (l : List Range) : Prop where
  proper : ∀ r ∈ l, r.start ≤ r.last
  order : l.Pairwise fun later earlier => earlier.last + gap < later.start

theorem descending_nil (gap : ℕ) : Descending gap [] := ⟨by simp, List.Pairwise.nil⟩

variable {gap : ℕ}

/-- **The order is told by what the rest covers.** -/
theorem descending_cons :
    Descending gap (r :: l) ↔
      r.start ≤ r.last ∧ (∀ n ∈ cover l, n + gap < r.start) ∧ Descending gap l := by
  constructor
  · rintro ⟨hproper, horder⟩
    obtain ⟨hr, horder⟩ := List.pairwise_cons.mp horder
    refine ⟨hproper r List.mem_cons_self, ?_,
      fun p hp => hproper p (List.mem_cons_of_mem r hp), horder⟩
    rintro n ⟨p, hp, hn⟩
    have := hr p hp
    have := hn.2
    omega
  · rintro ⟨hr, hcover, hproper, horder⟩
    refine ⟨?_, List.pairwise_cons.mpr ⟨?_, horder⟩⟩
    · intro p hp
      rcases List.mem_cons.mp hp with rfl | hp
      · exact hr
      · exact hproper p hp
    · intro p hp
      exact hcover p.last ⟨p, hp, hproper p hp, Nat.le_refl _⟩

theorem descending_append {l m : List Range} :
    Descending gap (l ++ m) ↔ Descending gap l ∧ Descending gap m ∧
      ∀ a ∈ cover l, ∀ b ∈ cover m, b + gap < a := by
  induction l with
  | nil => simp [descending_nil]
  | cons r l ih =>
    rw [List.cons_append, descending_cons, descending_cons, ih]
    constructor
    · rintro ⟨hr, hcover, hl, hm, hlm⟩
      refine ⟨⟨hr, fun n hn => hcover n (mem_cover_append.mpr (Or.inl hn)), hl⟩, hm, ?_⟩
      intro a ha b hb
      rcases mem_cover_cons.mp ha with ha | ha
      · have := hcover b (mem_cover_append.mpr (Or.inr hb))
        omega
      · exact hlm a ha b hb
    · rintro ⟨⟨hr, hcover, hl⟩, hm, hlm⟩
      refine ⟨hr, ?_, hl, hm, fun a ha => hlm a (mem_cover_cons.mpr (Or.inr ha))⟩
      intro n hn
      rcases mem_cover_append.mp hn with hn | hn
      · exact hcover n hn
      · exact hlm r.start (mem_cover_cons.mpr (Or.inl ⟨Nat.le_refl _, hr⟩)) n hn

/-- A number inside a range that is not the list's latest one is below that one. -/
theorem Descending.lt_start (h : Descending gap (r :: l)) {n : ℕ} (hn : n ∈ cover l) :
    n + gap < r.start :=
  (descending_cons.mp h).2.1 n hn

theorem Descending.tail (h : Descending gap (r :: l)) :
    Descending gap l :=
  (descending_cons.mp h).2.2

theorem Descending.head_le (h : Descending gap (r :: l)) :
    r.start ≤ r.last :=
  (descending_cons.mp h).1

/-- Everything a list covers is at most the end of its latest range. -/
theorem Descending.le_last (h : Descending gap (r :: l)) {n : ℕ} (hn : n ∈ cover (r :: l)) :
    n ≤ r.last := by
  have := h.head_le
  rcases mem_cover_cons.mp hn with hn | hn
  · exact hn.2
  · have := h.lt_start hn
    omega

/-- Everything a list covers is at least the start of its earliest range. -/
theorem Descending.first_le (h : Descending gap (l ++ [r])) {n : ℕ} (hn : n ∈ cover (l ++ [r])) :
    r.start ≤ n := by
  obtain ⟨-, hr, hlt⟩ := descending_append.mp h
  have hstart : r.start ∈ cover [r] := mem_cover_cons.mpr (Or.inl ⟨Nat.le_refl _, hr.head_le⟩)
  rcases mem_cover_append.mp hn with hn | hn
  · have := hlt n hn r.start hstart
    omega
  · exact (mem_cover_cons.mp hn).elim And.left (by simp)

/-- The end of a range is covered, and with a gap the number after it is not. -/
theorem Descending.succ_last_notMem (h : Descending 1 l) (hr : r ∈ l) :
    r.last + 1 ∉ cover l := by
  induction l with
  | nil => simp at hr
  | cons q l ih =>
    rw [mem_cover_cons, not_or]
    rcases List.mem_cons.mp hr with rfl | hr
    · refine ⟨by omega, fun hmem => ?_⟩
      have := h.lt_start hmem
      have := h.head_le
      omega
    · have hlast : r.last ∈ cover l := ⟨r, hr, h.tail.proper r hr, Nat.le_refl _⟩
      have := h.lt_start hlast
      exact ⟨by omega, ih h.tail hr⟩

/-- A stretch of covered numbers lies in one range of a list with gaps. -/
theorem Descending.exists_range (h : Descending 1 l) {a b : ℕ} (hab : a ≤ b)
    (hcov : ∀ n, a ≤ n → n ≤ b → n ∈ cover l) : ∃ r ∈ l, r.start ≤ a ∧ b ≤ r.last := by
  obtain ⟨r, hr, hstart, hlast⟩ := hcov a (Nat.le_refl a) hab
  refine ⟨r, hr, hstart, ?_⟩
  by_contra hlt
  exact h.succ_last_notMem hr (hcov (r.last + 1) (by omega) (by omega))

/-- Of two lists with gaps that cover the same and have one end, the latest ranges have one start:
the covered stretch below the end begins with it. -/
theorem Descending.start_le {r q : Range} {l m : List Range} (hl : Descending 1 (r :: l))
    (hm : Descending 1 (q :: m)) (h : cover (r :: l) = cover (q :: m)) (hlast : r.last = q.last) :
    q.start ≤ r.start := by
  obtain ⟨p, hp, hstart, hend⟩ := hm.exists_range hl.head_le fun n h1 h2 =>
    h ▸ mem_cover_cons.mpr (Or.inl ⟨h1, h2⟩)
  rcases List.mem_cons.mp hp with rfl | hp
  · exact hstart
  · have := hm.lt_start ⟨p, hp, hm.tail.proper p hp, Nat.le_refl p.last⟩
    have := hm.head_le
    omega

/-- **A list with gaps is determined by what it covers.** -/
theorem Descending.ext {l m : List Range} (hl : Descending 1 l) (hm : Descending 1 m)
    (h : cover l = cover m) : l = m := by
  induction l generalizing m with
  | nil =>
    cases m with
    | nil => rfl
    | cons q m =>
      have : q.start ∈ cover (q :: m) := mem_cover_cons.mpr (Or.inl ⟨Nat.le_refl _, hm.head_le⟩)
      rw [← h, cover_nil] at this
      exact absurd this (Set.notMem_empty _)
  | cons r l ih =>
    cases m with
    | nil =>
      have : r.start ∈ cover (r :: l) := mem_cover_cons.mpr (Or.inl ⟨Nat.le_refl _, hl.head_le⟩)
      rw [h, cover_nil] at this
      exact absurd this (Set.notMem_empty _)
    | cons q m =>
      -- the ends agree, being the greatest covered numbers
      have hr : r.last ∈ cover (r :: l) := mem_cover_cons.mpr (Or.inl ⟨hl.head_le, Nat.le_refl _⟩)
      have hq : q.last ∈ cover (q :: m) := mem_cover_cons.mpr (Or.inl ⟨hm.head_le, Nat.le_refl _⟩)
      have hlast : r.last = q.last :=
        Nat.le_antisymm (hm.le_last (h ▸ hr)) (hl.le_last (h ▸ hq))
      have heq : r = q := by
        cases r
        cases q
        simp only at hlast
        simp only [Range.mk.injEq]
        exact ⟨Nat.le_antisymm (hm.start_le hl h.symm hlast.symm) (hl.start_le hm h hlast), hlast⟩
      subst heq
      refine congrArg (r :: ·) (ih hl.tail hm.tail ?_)
      ext n
      constructor
      · intro hn
        have hlt := hl.lt_start hn
        have : n ∈ cover (r :: m) := h ▸ mem_cover_cons.mpr (Or.inr hn)
        exact (mem_cover_cons.mp this).resolve_left (by omega)
      · intro hn
        have hlt := hm.lt_start hn
        have : n ∈ cover (r :: l) := h ▸ mem_cover_cons.mpr (Or.inr hn)
        exact (mem_cover_cons.mp this).resolve_left (by omega)

/-- Nothing is covered by an empty list only. -/
theorem Descending.eq_nil (h : Descending gap l) (hcov : cover l = ∅) :
    l = [] := by
  cases l with
  | nil => rfl
  | cons r l =>
    have : r.start ∈ cover (r :: l) := mem_cover_cons.mpr (Or.inl ⟨Nat.le_refl _, h.head_le⟩)
    rw [hcov] at this
    exact absurd this (Set.notMem_empty _)

end PapQuic.Lib.Ranges
