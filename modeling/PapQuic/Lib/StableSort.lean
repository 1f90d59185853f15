import Mathlib.Data.List.Sort
import Mathlib.Data.Prod.Lex
import Mathlib.Order.Lattice

/-! # Sorting by a key

Python's `sorted` with a key, which keeps the order of elements with equal keys. The result is
sorted by the key and has the same elements; a list in which the keys never fall stays as it is; and
of two blocks of constant keys the one with the larger key goes to the end, each in its own
order. -/

namespace PapQuic.Lib.StableSort

variable {α κ : Type*} [LinearOrder κ] (key : α → κ)

def sortBy (l : List α) : List α := l.insertionSort fun a b => key a ≤ key b

theorem perm_sortBy (l : List α) : (sortBy key l).Perm l := List.perm_insertionSort _ l

theorem pairwise_sortBy (l : List α) : (sortBy key l).Pairwise fun a b => key a ≤ key b := by
  have : Std.Total fun a b : α => key a ≤ key b := ⟨fun a b => le_total (key a) (key b)⟩
  have : IsTrans α fun a b => key a ≤ key b := ⟨fun _ _ _ => le_trans⟩
  exact List.pairwise_insertionSort _ l

variable {key}

theorem sortBy_of_pairwise {l : List α} (h : l.Pairwise fun a b => key a ≤ key b) :
    sortBy key l = l :=
  h.insertionSort_eq

/-- **Stability**: a part of the list that is in order stays as it is. -/
theorem filter_sortBy {p : α → Bool} {l : List α}
    (h : (l.filter p).Pairwise fun a b => key a ≤ key b) :
    (sortBy key l).filter p = l.filter p := by
  have : Std.Total fun a b : α => key a ≤ key b := ⟨fun a b => le_total (key a) (key b)⟩
  have : IsTrans α fun a b => key a ≤ key b := ⟨fun _ _ _ => le_trans⟩
  have hsub : (l.filter p).Sublist (sortBy key l) :=
    List.sublist_insertionSort h List.filter_sublist
  have hfilter := hsub.filter p
  rw [List.filter_filter] at hfilter
  simp only [Bool.and_self] at hfilter
  exact (hfilter.eq_of_length ((perm_sortBy key l).filter p).length_eq.symm).symm

/-- Equal keys leave a list as it is. -/
theorem sortBy_const {k : κ} {l : List α} (h : ∀ a ∈ l, key a = k) : sortBy key l = l :=
  sortBy_of_pairwise (List.pairwise_of_forall_mem_list fun a ha b hb => by rw [h a ha, h b hb])

theorem orderedInsert_append {r : α → α → Prop} [DecidableRel r] {x : α} (t : List α) :
    ∀ {l : List α}, (∀ y ∈ l, ¬ r x y) → (l ++ t).orderedInsert r x = l ++ t.orderedInsert r x
  | [], _ => rfl
  | y :: l, h => by
    obtain ⟨hy, hl⟩ := List.forall_mem_cons.mp h
    rw [List.cons_append, List.orderedInsert, if_neg hy, orderedInsert_append t hl,
      List.cons_append]

/-- **Two blocks** change places when the first has the larger key. -/
theorem sortBy_append_swap {k k' : κ} (hk : k < k') {l t : List α} (hl : ∀ a ∈ l, key a = k')
    (ht : ∀ a ∈ t, key a = k) : sortBy key (l ++ t) = t ++ l := by
  induction l with
  | nil => rw [List.nil_append, sortBy_const ht, List.append_nil]
  | cons x l ih =>
    obtain ⟨hx, hl⟩ := List.forall_mem_cons.mp hl
    have hcons : sortBy key (x :: (l ++ t)) =
        (sortBy key (l ++ t)).orderedInsert (fun a b => key a ≤ key b) x := rfl
    rw [List.cons_append, hcons, ih hl,
      orderedInsert_append l fun y hy => by rw [hx, ht y hy]; exact not_le.mpr hk]
    congr 1
    rcases l with _ | ⟨y, l⟩
    · rfl
    · rw [List.orderedInsert, if_pos (by rw [hx, hl y (by simp)])]

/-- Two complementary parts of a list. -/
theorem perm_filter_append {α : Type*} (p q : α → Bool) (hpq : ∀ a, q a = !p a) (l : List α) :
    (l.filter p ++ l.filter q).Perm l := by
  have hq : q = fun a => !p a := funext hpq
  rw [hq]
  exact List.filter_append_perm p l

/-- Two orders of one list: the smaller of two members by one cannot be the larger by the other. -/
theorem le_of_pairwise {α κ κ' : Type*} [LinearOrder κ] [LinearOrder κ'] {l : List α} {f : α → κ}
    {g : α → κ'} (hf : l.Pairwise fun a b => f a ≤ f b) (hg : l.Pairwise fun a b => g a ≤ g b)
    {a b : α} (ha : a ∈ l) (hb : b ∈ l) (hlt : f a < f b) : g a ≤ g b := by
  induction l with
  | nil => cases ha
  | cons x l ih =>
    rw [List.pairwise_cons] at hf hg
    rcases List.mem_cons.mp ha with rfl | hal
    · rcases List.mem_cons.mp hb with rfl | hbl
      · exact le_rfl
      · exact hg.1 b hbl
    · rcases List.mem_cons.mp hb with rfl | hbl
      · exact absurd (hf.1 a hal) (not_le.mpr hlt)
      · exact ih hf.2 hg.2 hal hbl

/-! ### Sorted lists -/

/-- **A stable partition** of a sorted list is sorted by the part and then by the key. -/
theorem pairwise_lex_filter {b : α → Bool} {l : List α} (h : l.Pairwise fun x y => key x < key y) :
    (l.filter (!b ·) ++ l.filter b).Pairwise fun x y =>
      toLex (b x, key x) < toLex (b y, key y) := by
  rw [List.pairwise_append]
  refine ⟨(h.filter _).imp_of_mem fun {x y} hx hy hk => ?_,
    (h.filter _).imp_of_mem fun {x y} hx hy hk => ?_, fun x hx y hy => ?_⟩
  · have hbx := (List.mem_filter.mp hx).2
    have hby := (List.mem_filter.mp hy).2
    simp only [Bool.not_eq_eq_eq_not, Bool.not_true] at hbx hby
    exact Prod.Lex.toLex_lt_toLex.mpr (.inr ⟨by rw [hbx, hby], hk⟩)
  · rw [(List.mem_filter.mp hx).2, (List.mem_filter.mp hy).2]
    exact Prod.Lex.toLex_lt_toLex.mpr (.inr ⟨rfl, hk⟩)
  · have hbx := (List.mem_filter.mp hx).2
    simp only [Bool.not_eq_eq_eq_not, Bool.not_true] at hbx
    rw [hbx, (List.mem_filter.mp hy).2]
    exact Prod.Lex.toLex_lt_toLex.mpr (.inl Bool.false_lt_true)

/-- The first elements of a sorted list are less than all others. -/
theorem lt_of_mem_take {l : List α} (h : l.Pairwise fun x y => key x < key y) {n : ℕ} {x y : α}
    (hx : x ∈ l.take n) (hy : y ∈ l) (hn : y ∉ l.take n) : key x < key y := by
  rw [← List.take_append_drop n l, List.pairwise_append] at h
  rw [← List.take_append_drop n l, List.mem_append] at hy
  exact h.2.2 x hx y (hy.resolve_left hn)

/-- **How many elements are less than a bound**, told by the first ones. -/
theorem forall_take_lt_iff {l : List α} (h : l.Pairwise fun x y => key x < key y) {n : ℕ}
    (hn : n ≤ l.length) (k : κ) :
    (∀ x ∈ l.take n, key x < k) ↔ n ≤ l.countP fun x => key x < k := by
  induction l generalizing n with
  | nil => simpa using hn
  | cons a l ih =>
    obtain ⟨ha, hl⟩ := List.pairwise_cons.mp h
    cases n with
    | zero => simp
    | succ n =>
      rw [List.take_succ_cons, List.forall_mem_cons, ih hl (by simpa using hn), List.countP_cons]
      by_cases hk : key a < k
      · simp [hk]
      · have hnone : l.countP (fun x => key x < k) = 0 := by
          rw [List.countP_eq_zero]
          intro x hx hlt
          exact hk ((ha x hx).trans (by simpa using hlt))
        simp [hk, hnone]

/-- **The first element of a sorted list**: the first one with the least key. -/
theorem head?_sortBy (l : List α) {a : α} (h : (sortBy key l).head? = some a) :
    ∃ before after, l = before ++ a :: after ∧ (∀ x ∈ before, key a < key x) ∧
      ∀ x ∈ after, key a ≤ key x := by
  induction l generalizing a with
  | nil => cases h
  | cons b l ih =>
    have hcons : sortBy key (b :: l) =
        (sortBy key l).orderedInsert (fun x y => key x ≤ key y) b := rfl
    rw [hcons] at h
    rcases hs : sortBy key l with _ | ⟨c, t⟩
    · rw [hs] at h
      cases h
      have hnil : l = [] := by
        have hperm := perm_sortBy key l
        rw [hs] at hperm
        exact hperm.nil_eq.symm
      exact ⟨[], l, rfl, by simp, by simp [hnil]⟩
    · obtain ⟨before, after, rfl, hb, ha⟩ := ih (a := c) (by rw [hs]; rfl)
      rw [hs, List.orderedInsert] at h
      split_ifs at h with hle
      · cases h
        refine ⟨[], _, rfl, by simp, fun x hx => hle.trans ?_⟩
        rcases List.mem_append.mp hx with hx | hx
        · exact (hb x hx).le
        · rcases List.mem_cons.mp hx with rfl | hx
          · exact le_rfl
          · exact ha x hx
      · cases h
        refine ⟨b :: before, after, rfl, fun x hx => ?_, ha⟩
        rcases List.mem_cons.mp hx with rfl | hx
        · exact not_le.mp hle
        · exact hb x hx

/-- The last element of a sorted list is the greatest one. -/
theorem getLast?_sortBy {l : List α} {a : α} (h : (sortBy key l).getLast? = some a) :
    a ∈ l ∧ ∀ x ∈ l, key x ≤ key a := by
  obtain ⟨init, he⟩ := List.getLast?_eq_some_iff.mp h
  have hperm := perm_sortBy key l
  have hpw := pairwise_sortBy key l
  rw [he] at hperm hpw
  refine ⟨hperm.subset (by simp), fun x hx => ?_⟩
  rcases List.mem_append.mp (hperm.symm.subset hx) with hx | hx
  · exact (List.pairwise_append.mp hpw).2.2 x hx a (by simp)
  · rw [List.mem_singleton.mp hx]

/-- Lists with the same elements are sorted to the same list. -/
theorem sortBy_perm {l l' : List κ} (h : l.Perm l') : sortBy id l = sortBy id l' :=
  ((perm_sortBy id l).trans (h.trans (perm_sortBy id l').symm)).eq_of_pairwise
    (fun _ _ _ _ hab hba => le_antisymm hab hba) (pairwise_sortBy id l) (pairwise_sortBy id l')

theorem sortBy_map_monotone {f : κ → κ} (hf : Monotone f) (l : List κ) :
    sortBy id (l.map f) = (sortBy id l).map f := by
  rw [← sortBy_perm ((perm_sortBy id l).map f)]
  exact sortBy_of_pairwise (List.pairwise_map.mpr ((pairwise_sortBy id l).imp fun h => hf h))

theorem sortBy_map_antitone {f : κ → κ} (hf : Antitone f) (l : List κ) :
    sortBy id (l.map f) = ((sortBy id l).map f).reverse := by
  rw [← sortBy_perm (((List.reverse_perm _).trans ((perm_sortBy id l).map f)))]
  refine sortBy_of_pairwise (List.pairwise_reverse.mpr (List.pairwise_map.mpr ?_))
  exact (pairwise_sortBy id l).imp fun h => hf h

end PapQuic.Lib.StableSort
