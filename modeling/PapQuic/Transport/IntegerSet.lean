import PapQuic.Lib.Ranges
import PapQuic.Lib.Run
import Mathlib.Algebra.Group.Nat.Defs

/-! # Sets of unsigned integers (`uint_set.c`)

`UINT_SET` is a doubly linked list of ranges in ascending order. All its functions walk from the
tail, so the model lists the ranges from the tail on: the ranges a walk still has to visit are the
rest of the list. An allocation that may fail is a `Bool` argument.

* `insert_spec`, `remove_spec`, `query_eq_true`: what the functions do to the set of numbers, and
  that the ranges stay ordered and disjoint;
* `insert_spec` at gap `1`: ranges that do not border on each other stay so when the new range does
  not overlap what is in the set. When it does, the code merges what overlaps but not what borders
  on the result, as the example after `insert_spec` shows;
* `callAll_refines`: every sequence of operations, with allocations that fail or not, computes the
  set that the operations denote, unless the allocation for a cut fails. -/

namespace PapQuic.Transport.IntegerSet

open Lib.Ranges

/-- `UINT_RANGE`. -/
abbrev UintRange := Range

/-- `UINT_SET`, from its tail on. -/
abbrev UintSet := List UintRange

/-- `x + 1` of a `uint64_t`. -/
def u64Succ (x : ℕ) : ℕ := (x + 1) % 2 ^ 64

/-- `x - 1` of a `uint64_t`. -/
def u64Pred (x : ℕ) : ℕ := (x + (2 ^ 64 - 1)) % 2 ^ 64

/-- `uint_set_merge_adjacent`: `x` and the ranges before it. -/
def uintSetMergeAdjacent (x : UintRange) : List UintRange → UintSet
  | [] => [x]
  | xprev :: rest =>
    if u64Pred x.start ≠ xprev.last then x :: xprev :: rest else ⟨xprev.start, x.last⟩ :: rest

/-- `uint_range_overlaps`. -/
def uintRangeOverlaps (a b : UintRange) : Bool := max a.start b.start ≤ min a.last b.last

/-- The loop that looks for the earliest overlapping range from `z` on: that range, and the ranges
before it. -/
def earliestOverlapping (range : UintRange) :
    UintRange → List UintRange → UintRange × List UintRange
  | z, [] => (z, [])
  | z, zprev :: rest =>
    if uintRangeOverlaps zprev range then earliestOverlapping range zprev rest
    else (z, zprev :: rest)

/-- A new item before `z`, if it can be allocated. -/
def insertBefore (alloc : Bool) (range z : UintRange) (before : List UintRange) : UintSet × Bool :=
  if alloc then (z :: range :: before, true) else (z :: before, false)

/-- The new range lies between `z` and the range before it. -/
def insertBetween (alloc : Bool) (range z : UintRange) : List UintRange → UintSet × Bool
  | [] =>
    if z.start = u64Succ range.last then (uintSetMergeAdjacent ⟨range.start, z.last⟩ [], true)
    else insertBefore alloc range z []
  | zprev :: rest =>
    if z.start = u64Succ range.last then
      (uintSetMergeAdjacent ⟨range.start, z.last⟩ (zprev :: rest), true)
    else if u64Succ zprev.last = range.start then
      (uintSetMergeAdjacent z (⟨zprev.start, range.last⟩ :: rest), true)
    else insertBefore alloc range z (zprev :: rest)

/-- The backwards walk of `ossl_uint_set_insert`. -/
def insertWalk (alloc : Bool) (range : UintRange) : UintSet → UintSet × Bool
  | [] => ([], true)
  | z :: before =>
    if z.start ≤ range.start ∧ range.last ≤ z.last then (z :: before, true)
    else if uintRangeOverlaps z range then
      let earliest := earliestOverlapping range z before
      (⟨min range.start earliest.1.start, max range.last z.last⟩ :: earliest.2, true)
    else if range.last < z.start ∧ ∀ zprev ∈ before.head?, zprev.last < range.start then
      insertBetween alloc range z before
    else
      let rest := insertWalk alloc range before
      (z :: rest.1, rest.2)

/-- `ossl_uint_set_insert`: the set afterwards and the value returned. -/
def uintSetInsert (alloc : Bool) (s : UintSet) (range : UintRange) : UintSet × Bool :=
  if ¬ range.start ≤ range.last then (s, false)
  else match s with
    | [] => if alloc then ([range], true) else ([], false)
    | z :: before =>
      if z.last < range.start then
        if u64Succ z.last = range.start then (⟨z.start, range.last⟩ :: before, true)
        else if alloc then (range :: z :: before, true) else (z :: before, false)
      else
        let f := before.getLastD z
        if range.start ≤ f.start ∧ z.last ≤ range.last then ([range], true)
        else if range.last < f.start then
          -- the walk begins at the head of the list
          let first := insertWalk alloc range [f]
          ((z :: before).dropLast ++ first.1, first.2)
        else insertWalk alloc range (z :: before)

/-- The walk of `ossl_uint_set_remove`. `none`: the item that the cut needs was not allocated, and
the list function is given a null pointer. -/
def removeWalk (alloc : Bool) (range : UintRange) : UintSet → Option UintSet
  | [] => some []
  | z :: before =>
    if z.last < range.start then some (z :: before)
    else if range.start ≤ z.start ∧ z.last ≤ range.last then removeWalk alloc range before
    else if range.start ≤ z.start ∧ z.start ≤ range.last then
      (removeWalk alloc range before).map (⟨u64Succ range.last, z.last⟩ :: ·)
    else if z.last ≤ range.last then some (⟨z.start, u64Pred range.start⟩ :: before)
    else if z.start < range.start ∧ range.last < z.last then
      if alloc then
        some (⟨u64Succ range.last, z.last⟩ :: ⟨z.start, u64Pred range.start⟩ :: before)
      else none
    else (removeWalk alloc range before).map (z :: ·)

/-- `ossl_uint_set_remove`: the set afterwards and the value returned. -/
def uintSetRemove (alloc : Bool) (s : UintSet) (range : UintRange) :
    Option (UintSet × Bool) :=
  if ¬ range.start ≤ range.last then some (s, false)
  else (removeWalk alloc range s).map (·, true)

/-- `ossl_uint_set_query`. -/
def uintSetQuery : UintSet → ℕ → Bool
  | [], _ => false
  | x :: before, v =>
    if x.start ≤ v ∧ v ≤ x.last then true
    else if x.last < v then false
    else uintSetQuery before v

/-! ### Arithmetic -/

theorem u64Succ_eq {x : ℕ} (h : x + 1 < 2 ^ 64) : u64Succ x = x + 1 := Nat.mod_eq_of_lt h

theorem u64Pred_eq {x : ℕ} (h0 : 0 < x) (h : x < 2 ^ 64) : u64Pred x = x - 1 := by
  unfold u64Pred
  omega

theorem uintRangeOverlaps_iff {a b : UintRange} (ha : a.start ≤ a.last) (hb : b.start ≤ b.last) :
    uintRangeOverlaps a b = true ↔ a.start ≤ b.last ∧ b.start ≤ a.last := by
  simp only [uintRangeOverlaps, decide_eq_true_eq]
  omega

/-- The numbers of a set are `uint64_t`. -/
def Bounded (s : UintSet) : Prop := ∀ n ∈ cover s, n < 2 ^ 64

variable {s : UintSet}

theorem Bounded.tail {z : UintRange} (h : Bounded (z :: s)) : Bounded s :=
  fun n hn => h n (mem_cover_cons.mpr (Or.inr hn))

variable {gap : ℕ}

theorem Bounded.last_lt {z : UintRange} (h : Bounded (z :: s)) (hs : Descending gap (z :: s)) :
    z.last < 2 ^ 64 :=
  h z.last (mem_cover_cons.mpr (Or.inl ⟨hs.head_le, Nat.le_refl _⟩))

/-! ### Insertion -/

/-- What an insertion leaves: on failure the set as it was, otherwise the set with the range in
it. -/
structure Inserted (gap : ℕ) (s : UintSet) (range : UintRange) (out : UintSet × Bool) : Prop where
  failed : out.2 = false → out.1 = s
  descending : out.2 = true → Descending gap out.1
  cover_iff : out.2 = true → ∀ n, n ∈ cover out.1 ↔ n ∈ cover s ∨ n ∈ range.numbers

theorem Inserted.done {s s' : UintSet} {range : UintRange} (hd : Descending gap s')
    (hc : ∀ n, n ∈ cover s' ↔ n ∈ cover s ∨ n ∈ range.numbers) : Inserted gap s range (s', true) :=
  ⟨by simp, fun _ => hd, fun _ => hc⟩

theorem Inserted.unchanged (s : UintSet) (range : UintRange) :
    Inserted gap s range (s, false) :=
  ⟨fun _ => rfl, by simp, by simp⟩

/-- An insertion into the earlier ranges is one into all, when the range is before the later
ones. -/
theorem Inserted.append {l s : UintSet} {range : UintRange} {out : UintSet × Bool}
    (h : Inserted gap s range out) (hs : Descending gap (l ++ s))
    (hlt : ∀ a ∈ cover l, range.last + gap < a) :
    Inserted gap (l ++ s) range (l ++ out.1, out.2) := by
  obtain ⟨hl, -, hls⟩ := descending_append.mp hs
  refine ⟨fun hf => by rw [h.failed hf], fun ht => ?_, fun ht n => ?_⟩
  · refine descending_append.mpr ⟨hl, h.descending ht, fun a ha b hb => ?_⟩
    rcases (h.cover_iff ht b).mp hb with hb | hb
    · exact hls a ha b hb
    · have := hlt a ha
      rw [Range.mem_numbers] at hb
      omega
  · rw [mem_cover_append, mem_cover_append, h.cover_iff ht, or_assoc]

theorem mergeAdjacent_spec (hgap : gap ≤ 1) {x : UintRange} {l : List UintRange}
    (hx : x.start ≤ x.last) (hx64 : x.start < 2 ^ 64) (hl : Descending gap l)
    (hlt : ∀ n ∈ cover l, n < x.start) :
    Descending gap (uintSetMergeAdjacent x l) ∧
      ∀ n, n ∈ cover (uintSetMergeAdjacent x l) ↔ n ∈ cover (x :: l) := by
  cases l with
  | nil => exact ⟨descending_cons.mpr ⟨hx, by simp, hl⟩, fun _ => Iff.rfl⟩
  | cons xprev rest =>
    have hlast : xprev.last < x.start :=
      hlt _ (mem_cover_cons.mpr (Or.inl ⟨hl.head_le, Nat.le_refl _⟩))
    have hpred : u64Pred x.start = x.start - 1 := u64Pred_eq (by omega) hx64
    have hhead := hl.head_le
    rw [uintSetMergeAdjacent, hpred]
    split_ifs with hne
    · refine ⟨descending_cons.mpr ⟨hx, fun n hn => ?_, hl⟩, fun _ => Iff.rfl⟩
      have := hl.le_last hn
      omega
    · refine ⟨descending_cons.mpr ⟨?_, fun n hn => hl.lt_start hn, hl.tail⟩, fun n => ?_⟩
      · show xprev.start ≤ x.last
        omega
      · simp only [mem_cover_cons, ← or_assoc]
        refine or_congr_left ?_
        omega

theorem insertBetween_spec (hgap : gap ≤ 1) (alloc : Bool) {range z : UintRange}
    {before : List UintRange} (h : Descending gap (z :: before)) (h64 : z.start < 2 ^ 64)
    (hr : range.start ≤ range.last) (hlt : range.last < z.start)
    (hbefore : ∀ n ∈ cover before, n < range.start) :
    Inserted gap (z :: before) range (insertBetween alloc range z before) := by
  have hsucc : u64Succ range.last = range.last + 1 := u64Succ_eq (by omega)
  have hz := h.head_le
  -- the following range extended backwards
  have hextend : z.start = range.last + 1 →
      Inserted gap (z :: before) range
        (uintSetMergeAdjacent ⟨range.start, z.last⟩ before, true) := by
    intro hborder
    obtain ⟨hd, hc⟩ := mergeAdjacent_spec hgap (x := ⟨range.start, z.last⟩)
      (by show range.start ≤ z.last; omega) (by show range.start < 2 ^ 64; omega) h.tail hbefore
    refine .done hd fun n => ?_
    rw [hc, mem_cover_cons, mem_cover_cons, or_right_comm, Range.mem_numbers]
    refine or_congr_left ?_
    simp only
    omega
  -- a new item
  have hnew : range.last + gap < z.start → (∀ n ∈ cover before, n + gap < range.start) →
      Inserted gap (z :: before) range (insertBefore alloc range z before) := by
    intro hz hb
    unfold insertBefore
    split_ifs
    · refine .done (descending_cons.mpr ⟨h.head_le, ?_, descending_cons.mpr ⟨hr, hb, h.tail⟩⟩)
        fun n => ?_
      · intro n hn
        rcases mem_cover_cons.mp hn with hn | hn
        · omega
        · exact h.lt_start hn
      · simp only [mem_cover_cons, Range.mem_numbers]
        tauto
    · exact .unchanged _ _
  cases before with
  | nil =>
    rw [insertBetween, hsucc]
    split_ifs with hborder
    · exact hextend hborder
    · exact hnew (by omega) (by simp)
  | cons zprev rest =>
    have hprev : zprev.last < range.start :=
      hbefore _ (mem_cover_cons.mpr (Or.inl ⟨h.tail.head_le, Nat.le_refl _⟩))
    have hprevSucc : u64Succ zprev.last = zprev.last + 1 := u64Succ_eq (by omega)
    have hprevHead := h.tail.head_le
    rw [insertBetween, hsucc, hprevSucc]
    split_ifs with hborder hborderPrev
    · exact hextend hborder
    · -- the preceding range extended forwards
      have htail : Descending gap (⟨zprev.start, range.last⟩ :: rest) :=
        descending_cons.mpr ⟨by show zprev.start ≤ range.last; omega,
          fun n hn => h.tail.lt_start hn, h.tail.tail⟩
      have hcov : ∀ n, n ∈ cover (⟨zprev.start, range.last⟩ :: rest) ↔
          n ∈ cover (zprev :: rest) ∨ n ∈ range.numbers := by
        intro n
        rw [mem_cover_cons, mem_cover_cons, or_right_comm, Range.mem_numbers]
        refine or_congr_left ?_
        simp only
        omega
      obtain ⟨hd, hc⟩ := mergeAdjacent_spec hgap h.head_le h64 htail fun n hn =>
        Nat.lt_of_le_of_lt (htail.le_last hn) hlt
      refine .done hd fun n => ?_
      rw [hc, mem_cover_cons, hcov, mem_cover_cons (r := z), or_assoc]
    · refine hnew (by omega) fun n hn => ?_
      have := h.tail.le_last hn
      omega

/-- The ranges from `z` down to the earliest overlapping one, together with the new range, cover one
stretch. -/
theorem earliestOverlapping_spec {gap : ℕ} {range : UintRange} (hr : range.start ≤ range.last) :
    ∀ {before : List UintRange} {z : UintRange}, Descending gap (z :: before) →
      uintRangeOverlaps z range = true →
      (earliestOverlapping range z before).1.start ≤ z.start ∧
      (earliestOverlapping range z before).1.start ≤ range.last ∧
      Descending gap (earliestOverlapping range z before).2 ∧
      (∀ n ∈ cover (earliestOverlapping range z before).2,
        n < range.start ∧ n < (earliestOverlapping range z before).1.start) ∧
      ∀ n, n ≤ range.last → (n ∈ cover (z :: before) ∨ n ∈ range.numbers ↔
        (min range.start (earliestOverlapping range z before).1.start ≤ n ∨
          n ∈ cover (earliestOverlapping range z before).2))
  | [], z, h, hov => by
    rw [uintRangeOverlaps_iff h.head_le hr] at hov
    refine ⟨Nat.le_refl _, hov.1, descending_nil gap, by simp [earliestOverlapping], ?_⟩
    intro n hn
    simp only [earliestOverlapping, mem_cover_cons, cover_nil, Set.mem_empty_iff_false, or_false,
      Range.mem_numbers]
    have := h.head_le
    omega
  | zprev :: rest, z, h, hov => by
    have hprev := (uintRangeOverlaps_iff h.tail.head_le hr (a := zprev))
    have hz := (uintRangeOverlaps_iff h.head_le hr).mp hov
    have hzhead := h.head_le
    have hlt : zprev.last + gap < z.start :=
      h.lt_start (mem_cover_cons.mpr (Or.inl ⟨h.tail.head_le, Nat.le_refl _⟩))
    unfold earliestOverlapping
    split_ifs with hov'
    · obtain ⟨h1, h2, h3, h4, h5⟩ := earliestOverlapping_spec hr h.tail hov'
      have hphead := h.tail.head_le
      refine ⟨by omega, h2, h3, h4, fun n hn => ?_⟩
      rw [← h5 n hn, mem_cover_cons, Range.mem_numbers]
      constructor
      · rintro ((hin | hin) | hin)
        · right
          have := hprev.mp hov'
          omega
        · exact Or.inl hin
        · exact Or.inr hin
      · rintro (hin | hin)
        · exact Or.inl (Or.inr hin)
        · exact Or.inr hin
    · have hbelow : ∀ n ∈ cover (zprev :: rest), n < range.start ∧ n < z.start := by
        intro n hn
        have hle := h.tail.le_last hn
        rw [hprev] at hov'
        have := h.tail.head_le
        omega
      refine ⟨Nat.le_refl _, hz.1, h.tail, hbelow, fun n hn => ?_⟩
      simp only [mem_cover_cons (r := z), Range.mem_numbers]
      constructor
      · rintro ((hin | hin) | hin)
        · left
          omega
        · exact Or.inr hin
        · left
          omega
      · rintro (hin | hin)
        · by_cases hrange : range.start ≤ n
          · exact Or.inr ⟨hrange, hn⟩
          · left
            left
            omega
        · exact Or.inl (Or.inr hin)

/-- **The walk inserts**, when it starts at a range that does not end before the new one. -/
theorem insertWalk_spec {gap : ℕ} (alloc : Bool) {range : UintRange}
    (hr : range.start ≤ range.last) :
    ∀ {s : UintSet} (_ : gap = 0 ∨ gap = 1 ∧ ∀ n ∈ cover s, n ∉ range.numbers),
      Descending gap s → Bounded s → (∀ z ∈ s.head?, range.start ≤ z.last) → s ≠ [] →
      Inserted gap s range (insertWalk alloc range s)
  | [], _, _, _, _, hne => absurd rfl hne
  | z :: before, hfree, h, h64, hstart, _ => by
    have hz := hstart z rfl
    have hhead := h.head_le
    have hz64 := h64.last_lt h
    have hov := uintRangeOverlaps_iff (a := z) hhead hr
    rw [insertWalk]
    split_ifs with hdwarf hoverlap hbetween
    · -- the range is in the set already
      refine .done h fun n => ?_
      refine ⟨Or.inl, fun hn => hn.elim id fun hn => mem_cover_cons.mpr (Or.inl ?_)⟩
      rw [Range.mem_numbers] at hn
      omega
    · rw [hov] at hoverlap
      have hgap : gap = 0 := by
        rcases hfree with hgap | ⟨-, hfree⟩
        · exact hgap
        · exfalso
          refine hfree (max z.start range.start) (mem_cover_cons.mpr (Or.inl ?_)) ?_
          · omega
          · rw [Range.mem_numbers]
            omega
      subst hgap
      obtain ⟨h1, h2, h3, h4, h5⟩ := earliestOverlapping_spec hr h (hov.mpr hoverlap)
      refine .done (descending_cons.mpr ⟨?_, ?_, h3⟩) fun n => ?_
      · show min range.start _ ≤ max range.last z.last
        omega
      · intro n hn
        have := h4 n hn
        show n + 0 < min range.start _
        omega
      · rw [mem_cover_cons]
        rcases Nat.lt_or_ge range.last n with hn | hn
        · -- above the new range only `z` covers
          constructor
          · rintro (hin | hin)
            · exact Or.inl (mem_cover_cons.mpr (Or.inl (by simp only at hin; omega)))
            · have := h4 n hin
              omega
          · rintro (hin | hin)
            · have := h.le_last hin
              left
              simp only
              omega
            · rw [Range.mem_numbers] at hin
              omega
        · rw [h5 n hn]
          refine or_congr_left ?_
          simp only
          omega
    · refine insertBetween_spec (by omega) alloc h (by omega) hr hbetween.1 fun n hn => ?_
      cases before with
      | nil => simp at hn
      | cons zprev rest => exact Nat.lt_of_le_of_lt (h.tail.le_last hn) (hbetween.2 zprev rfl)
    · -- the range lies before `z`, and the range before `z` does not end before it
      have hlast : range.last < z.start := by
        rw [hov] at hoverlap
        omega
      have hnone : ¬ ∀ zprev ∈ before.head?, zprev.last < range.start := fun hall =>
        hbetween ⟨hlast, hall⟩
      cases before with
      | nil => simp at hnone
      | cons zprev rest =>
        have hprev : range.start ≤ zprev.last := by
          simpa using hnone
        have hfree' : gap = 0 ∨ gap = 1 ∧ ∀ n ∈ cover (zprev :: rest), n ∉ range.numbers :=
          hfree.imp_right fun hf => ⟨hf.1, fun n hn => hf.2 n (mem_cover_cons.mpr (Or.inr hn))⟩
        have ih := insertWalk_spec alloc hr hfree' h.tail h64.tail
          (by simpa using hprev) (List.cons_ne_nil _ _)
        have hgapLast : range.last + gap < z.start := by
          rcases hfree with rfl | ⟨rfl, hfree⟩
          · omega
          · -- a free range is wholly before `zprev`
            have hzprev := h.lt_start (mem_cover_cons.mpr (Or.inl ⟨h.tail.head_le, Nat.le_refl _⟩))
            by_contra hge
            refine hfree zprev.last (mem_cover_cons.mpr (Or.inr (mem_cover_cons.mpr
              (Or.inl ⟨h.tail.head_le, Nat.le_refl _⟩)))) ?_
            rw [Range.mem_numbers]
            omega
        refine ih.append (l := [z]) h fun a ha => ?_
        have := (mem_cover_cons.mp ha).elim And.left (by simp)
        omega

theorem dropLast_append_getLastD (z : UintRange) (before : List UintRange) :
    (z :: before).dropLast ++ [before.getLastD z] = z :: before := by
  have h := List.dropLast_append_getLast (List.cons_ne_nil z before)
  rwa [List.getLast_eq_getLastD] at h

/-- **`ossl_uint_set_insert` inserts.** At gap `0` this holds for every range; ranges that do not
border on each other stay so when the new one overlaps none of them. -/
theorem insert_spec (alloc : Bool) {range : UintRange}
    (hfree : gap = 0 ∨ gap = 1 ∧ ∀ n ∈ cover s, n ∉ range.numbers) (h : Descending gap s)
    (h64 : Bounded s) (hr : range.start ≤ range.last) (hr64 : range.last < 2 ^ 64) :
    Inserted gap s range (uintSetInsert alloc s range) := by
  unfold uintSetInsert
  rw [if_neg (not_not.mpr hr)]
  cases s with
  | nil =>
    simp only
    split_ifs
    · refine .done (descending_cons.mpr ⟨hr, by simp, descending_nil gap⟩) fun n => ?_
      simp
    · exact .unchanged _ _
  | cons z before =>
    have hhead := h.head_le
    have hlast64 := h64.last_lt h
    have hgap : gap ≤ 1 := by omega
    simp only
    split_ifs with hafter hborder halloc hall hbeforeAll
    · -- the latest range is extended
      rw [u64Succ_eq (by omega)] at hborder
      refine .done (descending_cons.mpr ⟨?_, fun n hn => h.lt_start hn, h.tail⟩) fun n => ?_
      · show z.start ≤ range.last
        omega
      · rw [mem_cover_cons, mem_cover_cons, or_right_comm, Range.mem_numbers]
        refine or_congr_left ?_
        simp only
        omega
    · rw [u64Succ_eq (by omega)] at hborder
      refine .done (descending_cons.mpr ⟨hr, fun n hn => ?_, h⟩) fun n => ?_
      · have := h.le_last hn
        omega
      · rw [mem_cover_cons, or_comm, Range.mem_numbers]
    · exact .unchanged _ _
    · -- the new range has all the others in it
      refine .done (descending_cons.mpr ⟨hr, by simp, descending_nil gap⟩) fun n => ?_
      rw [mem_cover_cons, Range.mem_numbers]
      refine ⟨fun hn => hn.elim Or.inr (by simp), fun hn => Or.inl (hn.elim (fun hn => ?_) id)⟩
      have hle := h.le_last hn
      have hsplit := dropLast_append_getLastD z before
      rw [← hsplit] at h hn
      have hge := h.first_le hn
      omega
    · -- the range lies before the first one
      obtain ⟨l, hl⟩ : ∃ l, z :: before = l ++ [before.getLastD z] :=
        ⟨_, (dropLast_append_getLastD z before).symm⟩
      have hdrop : (z :: before).dropLast = l := by rw [hl, List.dropLast_concat]
      generalize before.getLastD z = f at hl hbeforeAll hall ⊢
      rw [hdrop]
      rw [hl] at h h64 hfree ⊢
      obtain ⟨-, hf, hlt⟩ := descending_append.mp h
      have hf64 : Bounded [f] := fun n hn => h64 n (mem_cover_append.mpr (Or.inr hn))
      have hffree : gap = 0 ∨ gap = 1 ∧ ∀ n ∈ cover [f], n ∉ range.numbers :=
        hfree.imp_right fun hf => ⟨hf.1, fun n hn => hf.2 n (mem_cover_append.mpr (Or.inr hn))⟩
      have hfhead := hf.head_le
      have hfirst := insertWalk_spec alloc hr hffree hf hf64
        (by simp only [List.head?_cons, Option.mem_some_iff, forall_eq']; omega)
        (List.cons_ne_nil _ _)
      refine hfirst.append h fun a ha => ?_
      have := hlt a ha f.last (mem_cover_cons.mpr (Or.inl ⟨hfhead, Nat.le_refl _⟩))
      omega
    · exact insertWalk_spec alloc hr hfree h h64
        (by simp only [List.head?_cons, Option.mem_some_iff, forall_eq']; omega)
        (List.cons_ne_nil _ _)

/-- What overlaps is merged, what borders on the result is not: here `[0, 4]` and `[5, 14]` stay two
ranges. -/
example : uintSetInsert true [⟨10, 14⟩, ⟨0, 4⟩] ⟨5, 12⟩ = ([⟨5, 14⟩, ⟨0, 4⟩], true) := by decide

theorem insertWalk_of_contained {gap : ℕ} (alloc : Bool) {range r : UintRange}
    (hr : range.start ≤ range.last) (hstart : r.start ≤ range.start) (hlast : range.last ≤ r.last) :
    ∀ {s : UintSet}, Descending gap s → r ∈ s → insertWalk alloc range s = (s, true)
  | [], _, hmem => absurd hmem List.not_mem_nil
  | z :: before, h, hmem => by
    unfold insertWalk
    split_ifs with hdwarf hoverlap hbetween
    · rfl
    all_goals
      -- the range that has the new one in it is an earlier one
      have hbefore : r ∈ before := by
        rcases List.mem_cons.mp hmem with rfl | hmem
        · exact absurd ⟨hstart, hlast⟩ hdwarf
        · exact hmem
      have hin : range.last ∈ cover before := ⟨r, hbefore, by omega, hlast⟩
      have hlt := h.lt_start hin
    · rw [uintRangeOverlaps_iff h.head_le hr] at hoverlap
      omega
    · cases before with
      | nil => simp at hbefore
      | cons zprev rest =>
        have := h.tail.le_last hin
        have := hbetween.2 zprev rfl
        omega
    · rw [insertWalk_of_contained alloc hr hstart hlast h.tail hbefore]

/-- A range that one range of the set has in it changes nothing. -/
theorem insert_of_contained (alloc : Bool) {range r : UintRange} (h : Descending gap s)
    (hr : range.start ≤ range.last) (hmem : r ∈ s) (hstart : r.start ≤ range.start)
    (hlast : range.last ≤ r.last) :
    uintSetInsert alloc s range = (s, true) := by
  have hin : ∀ n, range.start ≤ n → n ≤ range.last → n ∈ cover s :=
    fun n h1 h2 => ⟨r, hmem, by omega, by omega⟩
  unfold uintSetInsert
  rw [if_neg (not_not.mpr hr)]
  cases s with
  | nil => simp at hmem
  | cons z before =>
    have hle := h.le_last (hin range.last hr (Nat.le_refl _))
    have hsplit := dropLast_append_getLastD z before
    have hfirst : (before.getLastD z).start ≤ range.start := by
      have hin' := hin range.start (Nat.le_refl _) hr
      rw [← hsplit] at h hin'
      exact h.first_le hin'
    simp only
    rw [if_neg (by omega)]
    split_ifs with hall
    · -- the range is the whole set
      have hlist : z :: before = [range] := by
        have hz : r = z := by
          rcases List.mem_cons.mp hmem with rfl | hmem
          · rfl
          · have := h.lt_start ⟨r, hmem, by omega, hlast⟩
            have := h.head_le
            omega
        subst hz
        have hbefore : before = [] := by
          refine h.tail.eq_nil (Set.eq_empty_of_forall_notMem fun n hn => ?_)
          have hlt := h.lt_start hn
          have hge : (before.getLastD r).start ≤ n := by
            have hn' := mem_cover_cons.mpr (Or.inr hn : (r.start ≤ n ∧ n ≤ r.last) ∨ _)
            rw [← hsplit] at h hn'
            exact h.first_le hn'
          omega
        subst hbefore
        simp only [List.getLastD_nil] at hall
        have heq : r = range := by
          cases r
          cases range
          simp only at hall hstart hlast
          rw [Range.mk.injEq]
          omega
        rw [heq]
      rw [hlist]
    · exact absurd ‹_› (by omega)
    · exact insertWalk_of_contained alloc hr hstart hlast h hmem

/-- A range that does not overlap what is in the set, or is all in it. -/
def Polite (s : UintSet) (range : UintRange) : Prop :=
  (∀ n ∈ cover s, n ∉ range.numbers) ∨ ∀ n ∈ range.numbers, n ∈ cover s

/-- Such ranges keep the ranges of a set from bordering on each other. -/
theorem insert_polite_spec (alloc : Bool) (range : UintRange) (h : Descending 1 s)
    (h64 : Bounded s) (hr : range.start ≤ range.last) (hr64 : range.last < 2 ^ 64)
    (hpolite : Polite s range) : Inserted 1 s range (uintSetInsert alloc s range) := by
  rcases hpolite with hfree | hin
  · exact insert_spec alloc (Or.inr ⟨rfl, hfree⟩) h h64 hr hr64
  · obtain ⟨r, hmem, hstart, hlast⟩ := h.exists_range hr fun n h1 h2 => hin n ⟨h1, h2⟩
    rw [insert_of_contained alloc h hr hmem hstart hlast]
    exact .done h fun n => ⟨Or.inl, fun hn => hn.elim id (hin n)⟩

/-! ### Removal and query -/

theorem removeWalk_spec {gap : ℕ} (hgap : gap ≤ 1) (alloc : Bool) {range : UintRange}
    (hr : range.start ≤ range.last) : ∀ {s s' : UintSet}, Descending gap s → Bounded s →
      removeWalk alloc range s = some s' →
      Descending gap s' ∧ ∀ n, n ∈ cover s' ↔ n ∈ cover s ∧ n ∉ range.numbers
  | [], s', h, _, hs => by
    obtain rfl : [] = s' := by simpa [removeWalk] using hs
    exact ⟨h, by simp⟩
  | z :: before, s', h, h64, hs => by
    have hhead := h.head_le
    have hz64 := h64.last_lt h
    -- what is kept of `z` goes before what is kept of the rest
    have hcons : ∀ {z' : UintRange} {rest : UintSet}, z'.start ≤ z'.last → z.start ≤ z'.start →
        Descending gap rest → (∀ n ∈ cover rest, n ∈ cover before) →
        Descending gap (z' :: rest) := by
      intro z' rest hle hge hd hsub
      refine descending_cons.mpr ⟨hle, fun n hn => ?_, hd⟩
      have := h.lt_start (hsub n hn)
      omega
    -- the ranges before one that begins before the removed range are not touched
    have hfree : z.start < range.start → ∀ n ∈ cover before, n ∉ range.numbers := by
      intro hlt n hn
      have := h.lt_start hn
      rw [Range.mem_numbers]
      omega
    unfold removeWalk at hs
    split_ifs at hs with hstop hdwarf hhead' htail hinside halloc
    · obtain rfl := Option.some.inj hs
      refine ⟨h, fun n => ⟨fun hn => ⟨hn, ?_⟩, And.left⟩⟩
      have := h.le_last hn
      rw [Range.mem_numbers]
      omega
    · obtain ⟨hd, hc⟩ := removeWalk_spec hgap alloc hr h.tail h64.tail hs
      refine ⟨hd, fun n => ?_⟩
      rw [hc, mem_cover_cons, or_and_right, or_iff_right]
      rintro ⟨hin, hout⟩
      rw [Range.mem_numbers] at hout
      omega
    · obtain ⟨rest, hrest, rfl⟩ := Option.map_eq_some_iff.mp hs
      obtain ⟨hd, hc⟩ := removeWalk_spec hgap alloc hr h.tail h64.tail hrest
      rw [u64Succ_eq (by omega)]
      refine ⟨hcons (by simp only; omega) (by simp only; omega) hd fun n hn => ((hc n).mp hn).1, ?_⟩
      intro n
      rw [mem_cover_cons, mem_cover_cons, hc, or_and_right]
      refine or_congr_left ?_
      rw [Range.mem_numbers]
      simp only
      omega
    · obtain rfl := Option.some.inj hs
      rw [u64Pred_eq (by omega) (by omega)]
      refine ⟨hcons (by simp only; omega) (Nat.le_refl _) h.tail fun n hn => hn, fun n => ?_⟩
      rw [mem_cover_cons, mem_cover_cons, or_and_right]
      refine or_congr ?_ ⟨fun hn => ⟨hn, hfree (by omega) n hn⟩, And.left⟩
      rw [Range.mem_numbers]
      simp only
      omega
    · obtain rfl := Option.some.inj hs
      rw [u64Pred_eq (by omega) (by omega), u64Succ_eq (by omega)]
      have hd : Descending gap (⟨z.start, range.start - 1⟩ :: before) :=
        hcons (by simp only; omega) (Nat.le_refl _) h.tail fun n hn => hn
      refine ⟨descending_cons.mpr ⟨by simp only; omega, fun n hn => ?_, hd⟩, fun n => ?_⟩
      · have := hd.le_last hn
        simp only at this ⊢
        omega
      · rw [mem_cover_cons, mem_cover_cons, mem_cover_cons, ← or_assoc, or_and_right]
        refine or_congr ?_ ⟨fun hn => ⟨hn, hfree (by omega) n hn⟩, And.left⟩
        rw [Range.mem_numbers]
        simp only
        omega
    · obtain ⟨rest, hrest, rfl⟩ := Option.map_eq_some_iff.mp hs
      obtain ⟨hd, hc⟩ := removeWalk_spec hgap alloc hr h.tail h64.tail hrest
      refine ⟨hcons hhead (Nat.le_refl _) hd fun n hn => ((hc n).mp hn).1, fun n => ?_⟩
      rw [mem_cover_cons, mem_cover_cons, hc, or_and_right]
      refine or_congr_left ⟨fun hn => ⟨hn, ?_⟩, And.left⟩
      rw [Range.mem_numbers]
      omega

/-- **`ossl_uint_set_remove` removes**, unless the allocation for a cut fails. -/
theorem remove_spec (hgap : gap ≤ 1) (alloc : Bool) {s s' : UintSet} {range : UintRange}
    {ok : Bool} (h : Descending gap s) (h64 : Bounded s) (hr : range.start ≤ range.last)
    (hs : uintSetRemove alloc s range = some (s', ok)) :
    ok = true ∧ Descending gap s' ∧ ∀ n, n ∈ cover s' ↔ n ∈ cover s ∧ n ∉ range.numbers := by
  rw [uintSetRemove, if_neg (not_not.mpr hr), Option.map_eq_some_iff] at hs
  obtain ⟨a, ha, heq⟩ := hs
  obtain ⟨rfl, rfl⟩ := Prod.mk.inj heq
  exact ⟨rfl, removeWalk_spec hgap alloc hr h h64 ha⟩

theorem removeWalk_isSome (range : UintRange) : ∀ s :
    UintSet, (removeWalk true range s).isSome = true
  | [] => rfl
  | z :: before => by
    have ih := removeWalk_isSome range before
    unfold removeWalk
    simp only [↓reduceIte]
    split_ifs <;> simp [ih]

/-- The range is cut in two by the removal of another. -/
def Cut (range z : UintRange) : Prop := z.start < range.start ∧ range.last < z.last

/-- A removal goes wrong exactly where it cuts a range and has no item for the second half. -/
theorem removeWalk_eq_none_iff {range : UintRange} (hr : range.start ≤ range.last) {alloc : Bool} :
    ∀ {s : UintSet}, Descending 0 s →
      (removeWalk alloc range s = none ↔ alloc = false ∧ ∃ z ∈ s, Cut range z)
  | [], _ => by simp [removeWalk]
  | z :: before, h => by
    have ih := @removeWalk_eq_none_iff range hr alloc before h.tail
    have hhead := h.head_le
    -- where `z` begins before the removed range, no range before `z` is cut
    have hbefore : z.start < range.start → ¬ ∃ y ∈ before, Cut range y := by
      rintro hlt ⟨y, hy, hstart, hlast⟩
      have := h.lt_start (mem_cover.mpr ⟨y, hy, by omega, Nat.le_refl _⟩)
      omega
    simp only [List.exists_mem_cons_iff]
    unfold removeWalk
    split_ifs with hstop hdwarf hhead' htail hinside halloc
    · have := hbefore (by omega)
      have hcut : ¬ Cut range z := fun hc => by
        have := hc.2
        omega
      simp [hcut, this]
    · have hcut : ¬ Cut range z := fun hc => by
        have := hc.1
        omega
      rw [ih, or_iff_right hcut]
    · have hcut : ¬ Cut range z := fun hc => by
        have := hc.1
        omega
      rw [Option.map_eq_none_iff, ih, or_iff_right hcut]
    · have := hbefore (by omega)
      have hcut : ¬ Cut range z := fun hc => by
        have := hc.2
        omega
      simp [hcut, this]
    · simp [halloc]
    · exact iff_of_true rfl ⟨by simpa using halloc, Or.inl hinside⟩
    · have hcut : ¬ Cut range z := hinside
      rw [Option.map_eq_none_iff, ih, or_iff_right hcut]

/-- **`ossl_uint_set_query` decides membership.** -/
theorem query_eq_true {gap : ℕ} : ∀ {s : UintSet}, Descending gap s → ∀ v : ℕ,
    uintSetQuery s v = true ↔ v ∈ cover s
  | [], _, v => by simp [uintSetQuery]
  | x :: before, h, v => by
    have hhead := h.head_le
    rw [uintSetQuery, mem_cover_cons]
    split_ifs with hin hafter
    · exact iff_of_true rfl (Or.inl hin)
    · refine iff_of_false id ?_
      rintro (hv | hv)
      · exact hin hv
      · have := h.lt_start hv
        omega
    · rw [query_eq_true h.tail, or_iff_right hin]

/-! ### Runs -/

/-- An operation that changes a set, and whether its allocation succeeds. -/
inductive Op where
  | insert (alloc : Bool) (range : UintRange)
  | remove (alloc : Bool) (range : UintRange)

/-- The range an operation is given. -/
def Op.range : Op → UintRange
  | .insert _ range => range
  | .remove _ range => range

def Op.alloc : Op → Bool
  | .insert alloc _ => alloc
  | .remove alloc _ => alloc

/-- The function that the operation calls. -/
def Op.call (s : UintSet) : Op → Option (UintSet × Bool)
  | .insert alloc range => some (uintSetInsert alloc s range)
  | .remove alloc range => uintSetRemove alloc s range

/-- What an operation that returned `ok` does to a set of numbers. -/
def Op.denote (a : Set ℕ) (ok : Bool) : Op → Set ℕ
  | .insert _ range => if ok then a ∪ range.numbers else a
  | .remove _ range => if ok then a \ range.numbers else a

/-- The operations one after the other: the set and the values returned, unless one of them is given
a null pointer. -/
def callAll : UintSet → List Op → Option (UintSet × List Bool)
  | s, [] => some (s, [])
  | s, op :: ops => (op.call s).bind fun out =>
      (callAll out.1 ops).map fun outs => (outs.1, out.2 :: outs.2)

/-- The set of numbers that the operations make of `a`, by the values they returned. -/
def denoteAll : Set ℕ → List Op → List Bool → Set ℕ
  | a, op :: ops, ok :: oks => denoteAll (op.denote a ok) ops oks
  | a, _, _ => a

theorem Op.call_spec {s s' : UintSet} {op : Op} {ok : Bool} (h : Descending 0 s) (h64 : Bounded s)
    (hop : op.range.last < 2 ^ 64) (hs : op.call s = some (s', ok)) :
    Descending 0 s' ∧ Bounded s' ∧ cover s' = op.denote (cover s) ok := by
  cases op with
  | insert alloc range =>
    have hs := Option.some.inj hs
    by_cases hr : range.start ≤ range.last
    · have hspec := insert_spec alloc (Or.inl rfl) h h64 hr hop
      rw [hs] at hspec
      cases ok with
      | false =>
        obtain rfl := hspec.failed rfl
        exact ⟨h, h64, by simp [Op.denote]⟩
      | true =>
        have hc := hspec.cover_iff rfl
        refine ⟨hspec.descending rfl, fun n hn => ?_, ?_⟩
        · rcases (hc n).mp hn with hn | hn
          · exact h64 n hn
          · exact Nat.lt_of_le_of_lt hn.2 hop
        · ext n
          exact hc n
    · have : (s, false) = (s', ok) := by
        rw [← hs]
        exact (if_pos hr).symm
      obtain ⟨rfl, rfl⟩ := Prod.mk.inj this
      exact ⟨h, h64, by simp [Op.denote]⟩
  | remove alloc range =>
    by_cases hr : range.start ≤ range.last
    · obtain ⟨rfl, hd, hc⟩ := remove_spec (by omega) alloc h h64 hr hs
      refine ⟨hd, fun n hn => h64 n ((hc n).mp hn).1, ?_⟩
      ext n
      exact hc n
    · have : some (s, false) = some (s', ok) := by
        rw [← hs, Op.call, uintSetRemove, if_pos hr]
      obtain ⟨rfl, rfl⟩ := Prod.mk.inj (Option.some.inj this)
      exact ⟨h, h64, by simp [Op.denote]⟩

theorem callAll_spec : ∀ {ops : List Op} {s s' : UintSet} {oks : List Bool}, Descending 0 s →
    Bounded s → (∀ op ∈ ops, op.range.last < 2 ^ 64) → callAll s ops = some (s', oks) →
    Descending 0 s' ∧ cover s' = denoteAll (cover s) ops oks
  | [], s, s', oks, h, _, _, hs => by
    obtain ⟨rfl, rfl⟩ := Prod.mk.inj (Option.some.inj hs)
    exact ⟨h, rfl⟩
  | op :: ops, s, s', oks, h, h64, hops, hs => by
    obtain ⟨⟨s₁, ok⟩, hcall, hs⟩ := Option.bind_eq_some_iff.mp hs
    obtain ⟨⟨s₂, oks₂⟩, hrest, heq⟩ := Option.map_eq_some_iff.mp hs
    obtain ⟨rfl, rfl⟩ := Prod.mk.inj heq
    obtain ⟨hd, hb, hc⟩ := Op.call_spec h h64 (hops op List.mem_cons_self) hcall
    have ih := callAll_spec hd hb (fun o ho => hops o (List.mem_cons_of_mem op ho)) hrest
    rw [denoteAll, ← hc]
    exact ih

theorem insert_returns (s : UintSet) (range : UintRange) (hr : range.start ≤ range.last) :
    (uintSetInsert true s range).2 = true := by
  have hbetween : ∀ (z : UintRange) (before : List UintRange),
      (insertBetween true range z before).2 = true := by
    intro z before
    cases before with
    | nil =>
      rw [insertBetween]
      split_ifs <;> rfl
    | cons zprev rest =>
      rw [insertBetween]
      split_ifs <;> rfl
  have hwalk : ∀ s, (insertWalk true range s).2 = true := by
    intro s
    induction s with
    | nil => rfl
    | cons z before ih =>
      rw [insertWalk]
      split_ifs
      · rfl
      · rfl
      · exact hbetween z before
      · exact ih
  unfold uintSetInsert
  rw [if_neg (not_not.mpr hr)]
  cases s with
  | nil => rfl
  | cons z before =>
    simp only
    split_ifs
    · rfl
    · rfl
    · rfl
    · exact hwalk _
    · exact hwalk _

theorem callAll_returns : ∀ {ops : List Op}, (∀ op ∈ ops, op.alloc = true ∧
    op.range.start ≤ op.range.last) → ∀ s : UintSet,
    ∃ s', callAll s ops = some (s', List.replicate ops.length true)
  | [], _, s => ⟨s, rfl⟩
  | op :: ops, h, s => by
    obtain ⟨halloc, hr⟩ := h op List.mem_cons_self
    have hcall : ∃ s₁, op.call s = some (s₁, true) := by
      cases op with
      | insert alloc range =>
        obtain rfl : alloc = true := halloc
        exact ⟨_, congrArg some (Prod.ext rfl (insert_returns _ _ hr))⟩
      | remove alloc range =>
        obtain rfl : alloc = true := halloc
        obtain ⟨s₁, hs⟩ := Option.isSome_iff_exists.mp (removeWalk_isSome range s)
        refine ⟨s₁, ?_⟩
        rw [Op.call, uintSetRemove, hs]
        exact if_neg (not_not.mpr hr)
    obtain ⟨s₁, hcall⟩ := hcall
    obtain ⟨s₂, hrest⟩ := callAll_returns (fun o ho => h o (List.mem_cons_of_mem op ho)) s₁
    refine ⟨s₂, ?_⟩
    rw [callAll, hcall, Option.bind_some, hrest]
    rfl

/-- The operation is a removal that cuts a range of the set, and the item for that is not
allocated. -/
def Op.CutFails (s : UintSet) : Op → Prop
  | .insert .. => False
  | .remove alloc range => range.start ≤ range.last ∧ alloc = false ∧ ∃ z ∈ s, Cut range z

theorem Op.call_eq_none_iff (h : Descending 0 s) (op : Op) :
    op.call s = none ↔ op.CutFails s := by
  cases op with
  | insert alloc range => simp [Op.call, Op.CutFails]
  | remove alloc range =>
    rw [Op.call, uintSetRemove, Op.CutFails]
    split_ifs with hr
    · rw [Option.map_eq_none_iff, removeWalk_eq_none_iff hr h, and_iff_right hr]
    · simp [hr]

theorem callAll_eq_none_iff : ∀ {ops : List Op} {s : UintSet}, Descending 0 s → Bounded s →
    (∀ op ∈ ops, op.range.last < 2 ^ 64) →
    (callAll s ops = none ↔ ∃ pre op post s' oks, ops = pre ++ op :: post ∧
      callAll s pre = some (s', oks) ∧ op.CutFails s')
  | [], s, _, _, _ => by simp [callAll]
  | op :: ops, s, h, h64, hops => by
    have hhead := Op.call_eq_none_iff h op
    rw [callAll]
    rcases hcall : op.call s with _ | ⟨s₁, ok⟩
    · exact iff_of_true rfl ⟨[], op, ops, s, [], rfl, rfl, hhead.mp hcall⟩
    · obtain ⟨hd, hb, -⟩ := Op.call_spec h h64 (hops op List.mem_cons_self) hcall
      rw [Option.bind_some, Option.map_eq_none_iff,
        callAll_eq_none_iff hd hb fun o ho => hops o (List.mem_cons_of_mem op ho)]
      constructor
      · rintro ⟨pre, o, post, s', oks, rfl, hpre, hcut⟩
        refine ⟨op :: pre, o, post, s', ok :: oks, rfl, ?_, hcut⟩
        rw [callAll, hcall, Option.bind_some, hpre]
        rfl
      · rintro ⟨pre, o, post, s', oks, heq, hpre, hcut⟩
        rcases pre with _ | ⟨p, pre⟩
        · obtain ⟨rfl, rfl⟩ := List.cons.inj heq
          obtain ⟨rfl, -⟩ := Prod.mk.inj (Option.some.inj hpre)
          rw [hhead.mpr hcut] at hcall
          cases hcall
        · obtain ⟨rfl, rfl⟩ := List.cons.inj heq
          rw [callAll, hcall, Option.bind_some] at hpre
          obtain ⟨⟨s₂, oks₂⟩, hrest, heq⟩ := Option.map_eq_some_iff.mp hpre
          obtain ⟨rfl, -⟩ := Prod.mk.inj heq
          exact ⟨pre, o, post, _, oks₂, rfl, hrest, hcut⟩

/-- **Every sequence of operations computes the set that the operations denote**: the ranges stay
ordered and disjoint, and the query answers by that set. A null pointer is put into the list exactly
where a removal cuts a range and its allocation fails; where no allocation fails no operation
does. -/
theorem callAll_refines (ops : List Op) (h64 : ∀ op ∈ ops, op.range.last < 2 ^ 64) :
    (∀ s oks, callAll [] ops = some (s, oks) → Descending 0 s ∧
      ∀ v, uintSetQuery s v = true ↔ v ∈ denoteAll ∅ ops oks) ∧
    (callAll [] ops = none ↔ ∃ pre op post s oks, ops = pre ++ op :: post ∧
      callAll [] pre = some (s, oks) ∧ op.CutFails s) ∧
    ((∀ op ∈ ops, op.alloc = true ∧ op.range.start ≤ op.range.last) →
      ∃ s, callAll [] ops = some (s, List.replicate ops.length true)) := by
  have hempty : Bounded [] := by simp [Bounded]
  refine ⟨fun s oks hs => ?_, callAll_eq_none_iff (descending_nil 0) hempty h64,
    fun h => callAll_returns h []⟩
  obtain ⟨hd, hc⟩ := callAll_spec (descending_nil 0) hempty h64 hs
  refine ⟨hd, fun v => ?_⟩
  rw [query_eq_true hd, hc, cover_nil]

/-- An insertion that merges and a removal that cuts, with its allocation and without it. -/
theorem callAll_refines_cut :
    (∃ s, callAll [] [.insert true ⟨3, 9⟩, .insert true ⟨7, 12⟩, .remove true ⟨5, 6⟩] =
      some (s, [true, true, true])) ∧
    callAll [] [.insert true ⟨3, 9⟩, .remove false ⟨5, 6⟩] = none :=
  ⟨(callAll_refines [.insert true ⟨3, 9⟩, .insert true ⟨7, 12⟩, .remove true ⟨5, 6⟩]
      (by simp [Op.range])).2.2 (by simp [Op.range, Op.alloc]),
    (callAll_refines [.insert true ⟨3, 9⟩, .remove false ⟨5, 6⟩] (by simp [Op.range])).2.1.mpr
      ⟨[.insert true ⟨3, 9⟩], _, [], [⟨3, 9⟩], [true], rfl, rfl, by decide, rfl, ⟨3, 9⟩, by simp,
        by decide, by decide⟩⟩

end PapQuic.Transport.IntegerSet
