import Mathlib.Data.List.Perm.Subperm
import Mathlib.Data.List.Basic
import Mathlib.Tactic.Common

/-! # Greedy choice from a list with marks

Each of a list of clients takes one candidate that nobody has taken: the first one it likes, or the
first one of all when it likes none that is left. A program keeps the candidates in an array and
marks those that are taken (`pick`, `mark`); what happens depends only on the list of those that are
left (`pick_eq_none`, `pick_eq_some`), so the run is `assign`.

* `subperm_assign`, `length_taken_assign`: nothing is taken twice, and nobody goes without while
  something is left;
* `assign_split`: what a client gets, from what the clients before it got;
* `assign_sound_iff`: everyone gets only what is meant for them if and only if it was there, and
  what they like and comes before it was meant for clients before them. -/

namespace PapQuic.Lib.Greedy

variable {α β : Type*}

/-! ### Marks -/

/-- The candidates without a mark. -/
def free (l : List (β × Bool)) : List β := (l.filter fun r => !r.2).map Prod.fst

/-- The place of the first free candidate that `p` holds of. -/
def firstFree (p : β → Bool) (l : List (β × Bool)) : Option ℕ :=
  l.findIdx? fun r => !r.2 && p r.1

def mark (l : List (β × Bool)) (i : ℕ) : List (β × Bool) := l.modify i fun r => (r.1, true)

/-- The first candidate that is liked, or else the first one. -/
def choose (likes : β → Bool) (l : List β) : Option β := (l.find? likes).or l.head?

/-- The place of that candidate among the marked ones. -/
def pick (likes : β → Bool) (l : List (β × Bool)) : Option ℕ :=
  (firstFree likes l).or (firstFree (fun _ => true) l)

@[simp] theorem free_map (l : List β) : free (l.map fun b => (b, false)) = l := by
  induction l with
  | nil => rfl
  | cons b l ih => simpa [free] using ih

theorem firstFree_cons (p : β → Bool) (r : β × Bool) (l : List (β × Bool)) :
    firstFree p (r :: l) = if !r.2 && p r.1 then some 0 else (firstFree p l).map (· + 1) :=
  List.findIdx?_cons

theorem firstFree_eq_none {p : β → Bool} : ∀ {l : List (β × Bool)},
    firstFree p l = none ↔ (free l).find? p = none
  | [] => by simp [firstFree, free]
  | (b, marked) :: l => by
    have ih := firstFree_eq_none (p := p) (l := l)
    rw [firstFree_cons]
    cases marked <;> rcases hp : p b <;> simp_all [free]

theorem find?_true (l : List β) : l.find? (fun _ => true) = l.head? := by
  cases l <;> rfl

variable {likes : β → Bool}

theorem pick_eq_none {l : List (β × Bool)} (h : pick likes l = none) :
    choose likes (free l) = none := by
  obtain ⟨h1, h2⟩ := Option.or_eq_none_iff.mp h
  rw [choose, firstFree_eq_none.mp h1, ← find?_true, firstFree_eq_none.mp h2]
  rfl

section Marks

variable [DecidableEq β]

/-- A place that is found has the first free candidate with the property, and marking it takes that
candidate away. -/
theorem firstFree_eq_some {p : β → Bool} : ∀ {l : List (β × Bool)} {i : ℕ}, firstFree p l = some i →
    ∃ b, l[i]? = some (b, false) ∧ (free l).find? p = some b ∧ free (mark l i) = (free l).erase b
  | [], _, h => by cases h
  | (b, marked) :: l, i, h => by
    rw [firstFree_cons] at h
    split_ifs at h with hb
    · cases h
      obtain ⟨rfl, hp⟩ : marked = false ∧ p b = true := by simpa using hb
      exact ⟨b, rfl, by simp [free, hp], by simp [free, mark]⟩
    · obtain ⟨j, hj, rfl⟩ := Option.map_eq_some_iff.mp h
      obtain ⟨c, hc, hfind, hfree⟩ := firstFree_eq_some hj
      have hmark : mark ((b, marked) :: l) (j + 1) = (b, marked) :: mark l j := rfl
      refine ⟨c, by simpa using hc, ?_, ?_⟩
      · cases marked <;> simp_all [free]
      · rw [hmark]
        cases marked with
        | true => simpa [free] using hfree
        | false =>
          -- The candidate before is not liked, so it is another one.
          have hne : b ≠ c := by
            rintro rfl
            simp [List.find?_some hfind] at hb
          have hcons (m : List (β × Bool)) : free ((b, false) :: m) = b :: free m := by simp [free]
          rw [hcons, hcons, hfree, List.erase_cons_tail (by simpa using hne)]

theorem pick_eq_some {l : List (β × Bool)} {i : ℕ} (h : pick likes l = some i) :
    ∃ b, l[i]? = some (b, false) ∧ choose likes (free l) = some b ∧
      free (mark l i) = (free l).erase b := by
  rcases Option.or_eq_some_iff.mp h with h | ⟨hnone, h⟩
  · obtain ⟨b, hb, hfind, hfree⟩ := firstFree_eq_some h
    exact ⟨b, hb, by rw [choose, hfind]; rfl, hfree⟩
  · obtain ⟨b, hb, hfind, hfree⟩ := firstFree_eq_some h
    rw [find?_true] at hfind
    exact ⟨b, hb, by rw [choose, firstFree_eq_none.mp hnone, hfind]; rfl, hfree⟩

end Marks

/-! ### The run -/

/-- The candidates that are taken. -/
def taken (run : List (α × Option β)) : List β := run.filterMap Prod.snd

theorem taken_cons (a : α) (o : Option β) (run : List (α × Option β)) :
    taken ((a, o) :: run) = o.toList ++ taken run := by
  cases o <;> rfl

theorem choose_eq_none {l : List β} : choose likes l = none ↔ l = [] := by
  rw [choose, Option.or_eq_none_iff, List.head?_eq_none_iff]
  exact ⟨And.right, fun h => ⟨by rw [h]; rfl, h⟩⟩

theorem mem_of_choose {l : List β} {b : β} (h : choose likes l = some b) :
    b ∈ l := by
  rcases Option.or_eq_some_iff.mp h with h | ⟨-, h⟩
  · exact List.mem_of_find?_eq_some h
  · exact List.mem_of_head? h

variable [DecidableEq β]

/-- What each client gets. -/
def assign (likes : α → β → Bool) : List α → List β → List (α × Option β)
  | [], _ => []
  | a :: as, l => (a, choose (likes a) l) :: assign likes as (l.diff (choose (likes a) l).toList)

variable (likes : α → β → Bool)

/-- Nothing is taken twice. -/
theorem subperm_assign : ∀ (as : List α) (l : List β), (taken (assign likes as l)).Subperm l
  | [], l => List.nil_subperm
  | a :: as, l => by
    have ih := subperm_assign as (l.diff (choose (likes a) l).toList)
    rw [assign, taken_cons]
    rcases hc : choose (likes a) l with _ | b
    · rwa [hc] at ih
    · simp only [hc, Option.toList_some, List.diff_cons, List.diff_nil] at ih ⊢
      exact ((List.subperm_cons b).mpr ih).trans
        (List.perm_cons_erase (mem_of_choose hc)).symm.subperm

/-- Nobody goes without while something is left. -/
theorem length_taken_assign : ∀ (as : List α) (l : List β),
    (taken (assign likes as l)).length = min as.length l.length
  | [], l => by simp [assign, taken]
  | a :: as, l => by
    have ih := length_taken_assign as (l.diff (choose (likes a) l).toList)
    rw [assign, taken_cons, List.length_append, ih]
    rcases hc : choose (likes a) l with _ | b
    · obtain rfl := choose_eq_none.mp hc
      simp
    · have hlen := List.length_erase_of_mem (mem_of_choose hc)
      have hpos := List.length_pos_of_mem (mem_of_choose hc)
      simp only [Option.toList_some, List.diff_cons, List.diff_nil, List.length_cons,
        List.length_nil, hlen]
      omega

/-- What a client gets is its choice from what those before it have left. -/
theorem assign_split {a : α} {o : Option β} {rest : List (α × Option β)} :
    ∀ {as : List α} {l : List β} {done : List (α × Option β)},
      assign likes as l = done ++ (a, o) :: rest → o = choose (likes a) (l.diff (taken done))
  | [], _, done, h => by cases done <;> cases h
  | a' :: as, l, [], h => by
    rw [assign] at h
    cases h
    rfl
  | a' :: as, l, d :: done, h => by
    rw [assign] at h
    obtain ⟨rfl, htail⟩ := List.cons.inj h
    rw [assign_split htail, taken_cons, List.diff_append]

/-! ### Choices as they are meant -/

section Meant

variable {likes : α → β → Bool} {meant : α → β → Prop}

omit [DecidableEq β] in
/-- What is meant for a client is its choice if and only if nothing that it would rather take comes
before it. -/
theorem choose_meant_iff {a : α} {l : List β}
    (hlike : ∀ b b', meant a b → likes a b' = true → likes a b = true) (hl : l ≠ []) :
    (∀ b, choose (likes a) l = some b → meant a b) ↔ ∃ bs b bs', l = bs ++ b :: bs' ∧ meant a b ∧
      ∀ b' ∈ bs, ¬ (likes a b = true → likes a b' = true) := by
  constructor
  · intro h
    obtain ⟨b, hb⟩ : ∃ b, choose (likes a) l = some b :=
      Option.ne_none_iff_exists'.mp fun hn => hl (choose_eq_none.mp hn)
    have hm := h b hb
    rcases Option.or_eq_some_iff.mp hb with hfind | ⟨hnone, hhead⟩
    · obtain ⟨hp, bs, bs', rfl, hbs⟩ := List.find?_eq_some_iff_append.mp hfind
      refine ⟨bs, b, bs', rfl, hm, fun b' hb' himp => ?_⟩
      have hnot := hbs b' hb'
      rw [himp hp] at hnot
      cases hnot
    · obtain ⟨bs', rfl⟩ := List.head?_eq_some_iff.mp hhead
      exact ⟨[], b, bs', rfl, hm, by simp⟩
  · rintro ⟨bs, b, bs', rfl, hm, hbs⟩ c hc
    have hchoose : choose (likes a) (bs ++ b :: bs') = some b := by
      rcases hb : likes a b with _ | _
      · -- Nothing is liked, so the first one is taken.
        obtain rfl : bs = [] :=
          List.eq_nil_iff_forall_not_mem.mpr fun b' hb' => hbs b' hb' (by simp [hb])
        have hnone : (b :: bs').find? (likes a) = none := by
          refine List.find?_eq_none.mpr fun b' _ hb' => ?_
          rw [hlike b b' hm hb'] at hb
          cases hb
        rw [List.nil_append, choose, hnone]
        rfl
      · have hfind : (bs ++ b :: bs').find? (likes a) = some b := by
          refine List.find?_eq_some_iff_append.mpr ⟨hb, bs, bs', rfl, fun b' hb' => ?_⟩
          have hnot := hbs b' hb'
          rcases hl' : likes a b' with _ | _
          · rfl
          · exact absurd (fun _ => hl') hnot
        rw [choose, hfind]
        rfl
    rw [hchoose] at hc
    cases hc
    exact hm

/-- What is meant for the clients is there when their turn comes, and what they would rather take
and comes before it is meant for clients before them. -/
def InTurn (likes : α → β → Bool) (meant : α → β → Prop) (as : List α) (l : List β) : Prop :=
  ∀ before a after, as = before ++ a :: after → before.length < l.length →
    ∃ bs b bs', l = bs ++ b :: bs' ∧ meant a b ∧
      ∀ b' ∈ bs, (likes a b = true → likes a b' = true) → ∃ a' ∈ before, meant a' b'

/-- A place in what is left is one in the whole list, with the taken one before it or not. -/
theorem split_of_erase {l cs cs' : List β} {b c : β} (hb : b ∈ l)
    (h : l.erase b = cs ++ c :: cs') :
    ∃ ds ds', l = ds ++ c :: ds' ∧ ∀ x ∈ ds, x ∈ cs ∨ x = b := by
  obtain ⟨l₁, l₂, -, rfl, herase⟩ := List.exists_erase_eq hb
  rw [herase] at h
  rcases List.append_eq_append_iff.mp h with ⟨t, rfl, rfl⟩ | ⟨t, rfl, ht⟩
  · exact ⟨l₁ ++ b :: t, cs', by simp, fun x hx => by simp at hx ⊢; tauto⟩
  · rcases t with _ | ⟨c', t⟩
    · obtain rfl : c :: cs' = l₂ := ht
      exact ⟨cs ++ [b], cs', by simp, fun x hx => by simpa using hx⟩
    · obtain ⟨rfl, rfl⟩ := List.cons.inj ht
      exact ⟨cs, t ++ b :: l₂, by simp, fun x hx => .inl hx⟩

theorem erase_split {ds ds' : List β} {b c : β} (hne : c ≠ b) :
    ∃ cs', (ds ++ c :: ds').erase b = ds.erase b ++ c :: cs' := by
  by_cases hb : b ∈ ds
  · exact ⟨ds', List.erase_append_left _ hb⟩
  · refine ⟨ds'.erase b, ?_⟩
    rw [List.erase_append_right _ hb, List.erase_cons_tail (by simpa using hne),
      List.erase_of_not_mem hb]

/-- No two clients have a candidate meant for both. -/
def Apart (meant : α → β → Prop) (as : List α) : Prop :=
  as.Pairwise fun a a' => ∀ b, meant a b → ¬ meant a' b

/-- One round: the first client has got what is meant for it. -/
theorem inTurn_cons_iff {a : α} {as : List α} {l : List β} {b : β} (ha : Apart meant (a :: as))
    (hb : Apart (fun b a => meant a b) l) (hmem : b ∈ l) (hm : meant a b) :
    InTurn likes meant as (l.erase b) ↔ ∀ before c after, as = before ++ c :: after →
      (a :: before).length < l.length → ∃ bs d bs', l = bs ++ d :: bs' ∧ meant c d ∧
        ∀ b' ∈ bs, (likes c d = true → likes c b' = true) → ∃ a' ∈ a :: before, meant a' b' := by
  have hlen : (l.erase b).length + 1 = l.length := by
    have hpos := List.length_pos_of_mem hmem
    rw [List.length_erase_of_mem hmem]
    omega
  constructor
  · intro h before c after has hlt
    obtain ⟨cs, d, cs', hl, hd, hcs⟩ := h before c after has (by simp at hlt; omega)
    obtain ⟨ds, ds', hl', hds⟩ := split_of_erase hmem hl
    refine ⟨ds, d, ds', hl', hd, fun x hx himp => ?_⟩
    rcases hds x hx with hx | rfl
    · obtain ⟨a', ha', hm'⟩ := hcs x hx himp
      exact ⟨a', List.mem_cons_of_mem _ ha', hm'⟩
    · exact ⟨a, List.mem_cons_self, hm⟩
  · intro h before c after has hlt
    obtain ⟨ds, d, ds', hl, hd, hds⟩ := h before c after has (by simp; omega)
    have hne : d ≠ b := by
      rintro rfl
      exact (List.pairwise_cons.mp ha).1 c (by simp [has]) d hm hd
    obtain ⟨cs', herase⟩ := @erase_split β _ ds ds' b d hne
    refine ⟨ds.erase b, d, cs', by rw [hl, herase], hd, fun x hx himp => ?_⟩
    obtain ⟨a', ha', hm'⟩ := hds x (List.mem_of_mem_erase hx) himp
    rcases List.mem_cons.mp ha' with rfl | ha'
    · -- Two candidates meant for one client.
      have hperm : Apart (fun b a => meant a b) (b :: l.erase b) :=
        (List.perm_cons_erase hmem).pairwise hb fun {x y} hxy a hy hx => hxy a hx hy
      have hx' : x ∈ l.erase b := by
        rw [hl, herase]
        exact List.mem_append_left _ hx
      exact absurd hm' ((List.pairwise_cons.mp hperm).1 x hx' a' hm)
    · exact ⟨a', ha', hm'⟩

/-- **Everyone gets only what is meant for them** if and only if it was there in turn. -/
theorem assign_sound_iff
    (hlike : ∀ a b b', meant a b → likes a b' = true → likes a b = true) :
    ∀ {as : List α} {l : List β}, Apart meant as → Apart (fun b a => meant a b) l →
      ((∀ r ∈ assign likes as l, ∀ b, r.2 = some b → meant r.1 b) ↔ InTurn likes meant as l)
  | [], l, _, _ => by
    refine ⟨fun _ before a after h => ?_, fun _ r hr => by cases hr⟩
    cases before <;> cases h
  | a :: as, l, ha, hb => by
    by_cases hl : l = []
    · subst hl
      refine ⟨fun _ before _ _ _ h => by simp at h, fun _ r hr b hrb => ?_⟩
      have hmem : b ∈ taken (assign likes (a :: as) []) := List.mem_filterMap.mpr ⟨r, hr, hrb⟩
      exact absurd ((subperm_assign likes (a :: as) []).subset hmem) (by simp)
    obtain ⟨b, hc⟩ : ∃ b, choose (likes a) l = some b :=
      Option.ne_none_iff_exists'.mp fun hn => hl (choose_eq_none.mp hn)
    have hhead := choose_meant_iff (hlike a) hl
    have hmem := mem_of_choose hc
    rw [assign, hc, Option.toList_some, List.diff_cons, List.diff_nil, List.forall_mem_cons,
      assign_sound_iff hlike (List.pairwise_cons.mp ha).2 (hb.sublist List.erase_sublist)]
    constructor
    · rintro ⟨h1, h2⟩ before c after has hlt
      have hm : meant a b := h1 b rfl
      rcases before with _ | ⟨a', before⟩
      · obtain ⟨rfl, -⟩ := List.cons.inj has
        obtain ⟨bs, d, bs', hs, hd, hbs⟩ := hhead.mp fun b' hb' => by
          rw [hc] at hb'
          cases hb'
          exact hm
        exact ⟨bs, d, bs', hs, hd, fun x hx himp => absurd himp (hbs x hx)⟩
      · obtain ⟨rfl, has'⟩ := List.cons.inj has
        exact (inTurn_cons_iff ha hb hmem hm).mp h2 before c after has' hlt
    · intro h
      have hm : meant a b := by
        obtain ⟨bs, d, bs', hs, hd, hbs⟩ := h [] a as rfl (List.length_pos_of_mem hmem)
        refine hhead.mpr ⟨bs, d, bs', hs, hd, fun x hx himp => ?_⟩ b hc
        obtain ⟨a', ha', -⟩ := hbs x hx himp
        cases ha'
      refine ⟨fun b' hb' => by cases hb'; exact hm, (inTurn_cons_iff ha hb hmem hm).mpr ?_⟩
      intro before c after has hlt
      exact h (a :: before) c after (by rw [has, List.cons_append]) hlt

end Meant

end PapQuic.Lib.Greedy
