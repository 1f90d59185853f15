import PapQuic.Lib.Re

/-! # Scanning a text piece by piece

What `re.search` and `re.findall` find in a text, put together from what they find in its pieces. A
piece is passed over (`Skips`) or read (`Reads`) whatever comes after it, so both judgments are
closed under `append`.

* A pattern that starts with a fixed word passes over a piece when the word is not in it and cannot
  start in it (`apart`): because its first letter is missing, or because another letter is missing
  and the piece ends with a character that is not in the word.
* A pattern `[p]+o…` finds nothing in a text in which its rest does not match after any `o`
  (`Unled`); `Quiet` pieces leave it so. -/

namespace PapQuic.Lib.Scan

open Lib.Printf Lib.Re

variable {r : Regex} {s t w : Text}

/-! ### What a match consists of -/

theorem exists_of_seq {a b : Regex} (h : results (.seq a b) s ≠ []) :
    ∃ x ∈ results a s, results b x.2 ≠ [] := by
  by_contra hnone
  simp only [not_exists, not_and, not_not] at hnone
  refine h ?_
  rw [results_seq, List.flatMap_eq_nil_iff]
  intro x hx
  rw [hnone x hx, List.map_nil]

theorem eq_of_mem_lit {x : List Text × Text} (h : x ∈ results (.lit w) s) : s = w ++ x.2 := by
  rw [results_lit] at h
  split_ifs at h with hw
  · obtain ⟨t, rfl⟩ := hw
    rw [List.mem_singleton.mp h, List.drop_left]
  · cases h

theorem prefix_of_results (b : Regex) (h : results (.seq (.lit w) b) s ≠ []) : w <+: s := by
  obtain ⟨x, hx, -⟩ := exists_of_seq h
  exact ⟨x.2, (eq_of_mem_lit hx).symm⟩

theorem forall_mem_take {p : Char → Bool} {k : ℕ} (hk : k < (s.takeWhile p).length + 1) :
    ∀ c ∈ s.take k, p c = true := by
  have htake : s.take k <+: s.takeWhile p := by
    refine List.prefix_of_prefix_length_le (List.take_prefix k s) (List.takeWhile_prefix p) ?_
    rw [List.length_take]
    omega
  exact fun c hc => List.mem_takeWhile_imp (htake.subset hc)

theorem exists_of_mem_rep {p : Char → Bool} {min : ℕ} {x : List Text × Text}
    (h : x ∈ results (.rep p min) s) :
    ∃ d, s = d ++ x.2 ∧ min ≤ d.length ∧ ∀ c ∈ d, p c = true := by
  simp only [results_rep, List.mem_map, List.mem_filter, List.mem_reverse, List.mem_range,
    decide_eq_true_eq] at h
  obtain ⟨k, ⟨hk, hmin⟩, rfl⟩ := h
  have hle := (List.takeWhile_prefix (l := s) p).length_le
  refine ⟨s.take k, (List.take_append_drop k s).symm, ?_, forall_mem_take hk⟩
  rw [List.length_take]
  omega

theorem exists_of_mem_group {a : Regex} {x : List Text × Text} (h : x ∈ results (.group a) s) :
    ∃ y ∈ results a s, y.2 = x.2 := by
  rw [results_group, List.mem_map] at h
  obtain ⟨y, hy, rfl⟩ := h
  exact ⟨y, hy, rfl⟩

/-! ### Pieces that are passed over, and pieces that are read -/

/-- No match starts in the piece. -/
def Skips (r : Regex) (s : Text) : Prop := ∀ rest, search r (s ++ rest) = search r rest

theorem skips_nil : Skips r [] := fun _ => rfl

theorem skips_cons {c : Char} (hc : ∀ rest, results r (c :: (s ++ rest)) = []) (hs : Skips r s) :
    Skips r (c :: s) := by
  intro rest
  rw [List.cons_append, search_cons (hc rest), hs]

/-- The matches that start in the piece also end in it, and these are what they capture. -/
structure Reads (r : Regex) (s : Text) (found : List (List Text)) : Prop where
  find : ∀ k rest, findallN r (found.length + k) (s ++ rest) = found ++ findallN r k rest
  length : found.length ≤ s.length

theorem findallN_congr (h : search r s = search r t) (n : ℕ) : findallN r n s = findallN r n t := by
  cases n with
  | zero => rfl
  | succ n => rw [findallN, findallN, h]

theorem Skips.reads (h : Skips r s) : Reads r s [] := by
  refine ⟨fun k rest => ?_, Nat.zero_le _⟩
  rw [List.length_nil, Nat.zero_add, List.nil_append, findallN_congr (h rest)]

theorem reads_of_matchStart {groups : List Text} (hne : s ≠ [])
    (h : ∀ rest, matchStart r (s ++ rest) = some (groups, rest)) : Reads r s [groups] := by
  refine ⟨fun k rest => ?_, List.length_pos_iff.mpr hne⟩
  rw [List.length_singleton, Nat.add_comm, findallN, search_of_matchStart (h rest)]
  rfl

theorem Reads.append {f g : List (List Text)} (hs : Reads r s f) (ht : Reads r t g) :
    Reads r (s ++ t) (f ++ g) := by
  refine ⟨fun k rest => ?_, ?_⟩
  · rw [List.length_append, Nat.add_assoc, List.append_assoc, hs.find, ht.find, List.append_assoc]
  · rw [List.length_append, List.length_append]
    exact Nat.add_le_add hs.length ht.length

theorem reads_intercalate {α : Type*} {text : α → Text} {found : α → List (List Text)}
    (ht : Skips r t) : ∀ {l : List α}, (∀ a ∈ l, Reads r (text a) (found a)) →
      Reads r (t.intercalate (l.map text)) (l.flatMap found)
  | [], _ => skips_nil.reads
  | [a], h => by simpa using h a (by simp)
  | a :: b :: l, h => by
    have hrest := reads_intercalate ht (l := b :: l) fun c hc => h c (by simp [hc])
    have hall := ((h a (by simp)).append ht.reads).append hrest
    simpa using hall

/-- A text that is read is read by `re.findall`. -/
theorem Reads.findall {found : List (List Text)} (h : Reads r s found) (hnil : search r [] = none) :
    findall r s = found := by
  have hs := h.find (s.length - found.length) []
  rw [Nat.add_sub_cancel' h.length, List.append_nil, findallN_nil hnil, List.append_nil] at hs
  exact hs

/-! ### Patterns that start with a word -/

/-- The word neither is in the piece nor starts in it. -/
def apart (w : Text) : Text → Bool
  | [] => true
  | c :: s => (!decide (w <+: c :: s) && !decide (c :: s <+: w)) && apart w s

theorem apart_cons {c : Char} : apart w (c :: s) = true ↔
    (¬ w <+: c :: s ∧ ¬ c :: s <+: w) ∧ apart w s = true := by
  simp [apart]

theorem not_prefix_append (h : ¬ w <+: s ∧ ¬ s <+: w) (rest : Text) : ¬ w <+: s ++ rest := by
  intro hw
  rcases List.prefix_or_prefix_of_prefix hw (List.prefix_append s rest) with hs | hs
  · exact h.1 hs
  · exact h.2 hs

theorem apart_append (ht : apart w t = true) : ∀ {s : Text}, apart w s = true →
    apart w (s ++ t) = true
  | [], _ => ht
  | c :: s, h => by
    obtain ⟨hc, hs⟩ := apart_cons.mp h
    refine apart_cons.mpr ⟨⟨not_prefix_append hc t, fun hp => ?_⟩, apart_append ht hs⟩
    exact hc.2 ((List.prefix_append (c :: s) t).trans hp)

/-- The first letter of the word is not in the piece. -/
theorem apart_of_head {o : Char} : ∀ {s : Text}, o ∉ s → apart (o :: w) s = true
  | [], _ => rfl
  | c :: s, h => by
    have hne : o ≠ c := fun he => h (by simp [he])
    refine apart_cons.mpr ⟨⟨fun hp => ?_, fun hp => ?_⟩, apart_of_head fun hm => h (by simp [hm])⟩
    · exact hne (List.cons_prefix_cons.mp hp).1
    · exact hne (List.cons_prefix_cons.mp hp).1.symm

/-- A letter of the word is not in the piece, and the piece ends outside of the word. -/
theorem apart_closed {y x : Char} (hy : y ∈ w) (hx : x ∉ w) (hxy : x ≠ y) : ∀ {s : Text}, y ∉ s →
    apart w (s ++ [x]) = true
  | [], _ => by
    refine apart_cons.mpr ⟨⟨fun hp => ?_, fun hp => hx (hp.subset (by simp))⟩, rfl⟩
    exact hxy (List.mem_singleton.mp (hp.subset hy)).symm
  | c :: s, h => by
    refine apart_cons.mpr ⟨⟨fun hp => ?_, fun hp => hx (hp.subset (by simp))⟩,
      apart_closed hy hx hxy fun hm => h (by simp [hm])⟩
    have hm : y ∈ c :: s ++ [x] := hp.subset hy
    rcases List.mem_append.mp hm with hm | hm
    · exact h hm
    · exact hxy (List.mem_singleton.mp hm).symm

/-- The second letter of the word does not come after the first one. -/
theorem apart_cons_cons {o e d : Char} (hd : e ≠ d) (hs : apart (o :: e :: w) (d :: s) = true) :
    apart (o :: e :: w) (o :: d :: s) = true := by
  refine apart_cons.mpr ⟨⟨fun hp => ?_, fun hp => ?_⟩, hs⟩
  · exact hd (List.cons_prefix_cons.mp (List.cons_prefix_cons.mp hp).2).1
  · exact hd (List.cons_prefix_cons.mp (List.cons_prefix_cons.mp hp).2).1.symm

/-- A pattern that only matches where one of the words is passes over what is apart from all of
them. -/
theorem skips_of_forall_apart {l : List Text} (hr : ∀ s, results r s ≠ [] → ∃ w ∈ l, w <+: s) :
    ∀ {s : Text}, (∀ w ∈ l, apart w s = true) → Skips r s
  | [], _ => skips_nil
  | c :: s, h => by
    refine skips_cons (fun rest => ?_)
      (skips_of_forall_apart hr fun w hw => (apart_cons.mp (h w hw)).2)
    by_contra hne
    obtain ⟨w, hw, hpre⟩ := hr _ hne
    exact not_prefix_append (apart_cons.mp (h w hw)).1 rest hpre

theorem skips_of_apart {b : Regex} (h : apart w s = true) : Skips (.seq (.lit w) b) s :=
  skips_of_forall_apart (l := [w]) (fun _ hs => ⟨w, by simp, prefix_of_results b hs⟩)
    (by simpa using h)

/-- A lazy repetition goes over a piece that is apart from the word after it. -/
theorem results_lazy_apart {p : Char → Bool} {b : Regex} (rest : Text) : ∀ {s : Text},
    (∀ c ∈ s, p c = true) → apart w s = true →
    results (.seq (.lazy p) (.seq (.lit w) b)) (s ++ rest) =
      results (.seq (.lazy p) (.seq (.lit w) b)) rest
  | [], _, _ => rfl
  | c :: s, hp, h => by
    obtain ⟨hc, hs⟩ := apart_cons.mp h
    have hnil : results (.seq (.lit w) b) (c :: (s ++ rest)) = [] := by
      by_contra hne
      exact not_prefix_append hc rest (prefix_of_results b hne)
    rw [List.cons_append, results_lazy_cons (hp c (by simp)) hnil]
    exact results_lazy_apart rest (fun d hd => hp d (by simp [hd])) hs

/-! ### Patterns with a mark in the middle -/

/-- What comes before the first mark of a text and is not cut off by another text. -/
theorem prefix_of_append_eq {o : Char} {u e a b : Text} (hu : o ∉ u) (h : u ++ a = e ++ o :: b) :
    u <+: e := by
  rcases List.append_eq_append_iff.mp h with ⟨d, rfl, -⟩ | ⟨d, rfl, hd⟩
  · exact List.prefix_append u d
  · rcases d with _ | ⟨c, d⟩
    · simp
    · obtain ⟨rfl, -⟩ := List.cons.inj hd
      simp at hu

/-- A pattern whose matches have a mark, and only characters of a class before it, passes over a
text without the mark that ends outside of the class. -/
theorem skips_of_mark {o x : Char} {q : Char → Prop}
    (hr : ∀ s, results r s ≠ [] → ∃ e t, s = e ++ o :: t ∧ ∀ c ∈ e, q c) (hx : ¬ q x)
    (hxo : x ≠ o) : ∀ {s : Text}, o ∉ s → Skips r (s ++ [x])
  | [], _ => by
    refine skips_cons (fun rest => ?_) skips_nil
    by_contra hne
    obtain ⟨e, t, he, hq⟩ := hr _ hne
    rcases e with _ | ⟨c, e⟩
    · exact hxo (List.cons.inj he).1
    · exact hx (by rw [(List.cons.inj he).1]; exact hq c (by simp))
  | c :: s, ho => by
    refine skips_cons (fun rest => ?_) (skips_of_mark hr hx hxo fun hm => ho (by simp [hm]))
    by_contra hne
    obtain ⟨e, t, he, hq⟩ := hr _ hne
    have hmem : o ∉ c :: s ++ [x] := by
      rw [List.mem_append, not_or]
      exact ⟨ho, fun hm => hxo (List.mem_singleton.mp hm).symm⟩
    have hpre := prefix_of_append_eq (u := c :: s ++ [x]) hmem (by simpa using he)
    exact hx (hq x (hpre.subset (by simp)))

/-- `[p]+o` and then the rest of the pattern. -/
def led (p : Char → Bool) (o : Char) (r : Regex) : Regex :=
  .seq (.group (.rep p 1)) (.seq (.lit [o]) r)

variable {p : Char → Bool} {o : Char}

theorem exists_of_led (h : results (led p o r) s ≠ []) :
    ∃ a b, s = a ++ o :: b ∧ (∀ c ∈ a, p c = true) ∧ results r b ≠ [] := by
  obtain ⟨x, hx, hx'⟩ := exists_of_seq h
  obtain ⟨y, hy, hxy⟩ := exists_of_mem_group hx
  obtain ⟨a, ha, -, hp⟩ := exists_of_mem_rep hy
  obtain ⟨z, hz, hz'⟩ := exists_of_seq hx'
  exact ⟨a, z.2, by rw [ha, hxy, eq_of_mem_lit hz, List.singleton_append], hp, hz'⟩

/-- The rest of the pattern does not match after any mark of the text. -/
def Unled (o : Char) (r : Regex) (s : Text) : Prop := ∀ a b, s = a ++ o :: b → results r b = []

theorem search_led_eq_none : ∀ {s : Text}, Unled o r s → search (led p o r) s = none
  | [], _ => by
    rw [search, matchStart, List.head?_eq_none_iff]
    by_contra h
    obtain ⟨a, b, he, -⟩ := exists_of_led h
    simp at he
  | c :: s, hs => by
    have hnil : results (led p o r) (c :: s) = [] := by
      by_contra h
      obtain ⟨a, b, he, -, hb⟩ := exists_of_led h
      exact hb (hs a b he)
    rw [search_cons hnil]
    exact search_led_eq_none fun a b he => hs (c :: a) b (by rw [he, List.cons_append])

/-- Up to a character that can neither belong to the match nor be its mark, only marks in the piece
count. -/
theorem search_led_append {rest : Text} (hrest : ∀ c ∈ rest.head?, p c = false ∧ c ≠ o) :
    ∀ {s : Text}, (∀ a b, s = a ++ o :: b → results r (b ++ rest) = []) →
      search (led p o r) (s ++ rest) = search (led p o r) rest
  | [], _ => rfl
  | c :: s, hs => by
    have hnil : results (led p o r) (c :: (s ++ rest)) = [] := by
      by_contra h
      obtain ⟨a, b, he, ha, hb⟩ := exists_of_led h
      rw [← List.cons_append] at he
      rcases List.append_eq_append_iff.mp he with ⟨d, rfl, hd⟩ | ⟨d, hcs, hd⟩
      · -- the mark is after the piece, so the match goes over its end
        rcases d with _ | ⟨e, d⟩
        · exact (hrest o (by simp [hd])).2 rfl
        · have he : p e = true := ha e (by simp)
          rw [(hrest e (by simp [hd])).1] at he
          cases he
      · rcases d with _ | ⟨e, d⟩
        · exact (hrest o (by rw [← List.nil_append rest, ← hd]; rfl)).2 rfl
        · obtain ⟨rfl, rfl⟩ := List.cons.inj hd
          exact hb (hs a d hcs)
    rw [List.cons_append, search_cons hnil]
    exact search_led_append hrest fun a b he => hs (c :: a) b (by rw [he, List.cons_append])

/-- A piece before which the rest of the pattern does not match after a mark if it does not do so
behind it. -/
def Quiet (o : Char) (r : Regex) (s : Text) : Prop := ∀ rest, Unled o r rest → Unled o r (s ++ rest)

theorem Quiet.append (hs : Quiet o r s) (ht : Quiet o r t) : Quiet o r (s ++ t) := by
  intro rest h
  rw [List.append_assoc]
  exact hs _ (ht _ h)

theorem Quiet.unled (hs : Quiet o r s) : Unled o r s := by
  have h := hs [] fun a b he => by simp at he
  rwa [List.append_nil] at h

theorem quiet_cons {c : Char} (hc : c = o → ∀ rest, results r (s ++ rest) = []) (hs : Quiet o r s) :
    Quiet o r (c :: s) := by
  intro rest h a b he
  rcases a with _ | ⟨d, a⟩
  · obtain ⟨rfl, rfl⟩ := List.cons.inj he
    exact hc rfl rest
  · exact hs rest h a b (List.cons.inj he).2

theorem quiet_nil : Quiet o r [] := fun _ h => h

theorem quiet_of_not_mem : ∀ {s : Text}, o ∉ s → Quiet o r s
  | [], _ => quiet_nil
  | c :: s, h => quiet_cons (fun he => absurd (by simp [he]) h)
      (quiet_of_not_mem fun hm => h (by simp [hm]))

theorem quiet_intercalate (ht : Quiet o r t) : ∀ {l : List Text}, (∀ s ∈ l, Quiet o r s) →
    Quiet o r (t.intercalate l)
  | [], _ => quiet_nil
  | [s], h => by simpa using h s (by simp)
  | s :: u :: l, h => by
    rw [List.intercalate_cons_cons]
    exact ((h s (by simp)).append ht).append
      (quiet_intercalate ht fun v hv => h v (by simp [hv]))

/-- A name, a mark and a value after which the rest of the pattern does not match. -/
theorem quiet_value {v : Text} (hs : o ∉ s) (hv : o ∉ v) (hr : ∀ rest, results r (v ++ rest) = []) :
    Quiet o r (s ++ o :: v) :=
  (quiet_of_not_mem hs).append (quiet_cons (fun _ => hr) (quiet_of_not_mem hv))

/-! ### Characters of a class and a word -/

/-- `[p]+` and then a word. -/
theorem results_rep_lit_eq_nil : results (.seq (.group (.rep p 1)) (.lit w)) s = [] ↔
    ∀ d, d ≠ [] → (∀ c ∈ d, p c = true) → ¬ d ++ w <+: s := by
  constructor
  · intro h d hd hp hpre
    obtain ⟨u, rfl⟩ := hpre
    have hlen : d.length < (((d ++ w ++ u).takeWhile p).length + 1) := by
      rw [List.append_assoc, List.takeWhile_append_of_pos hp, List.length_append]
      omega
    have hmem : ([d], u) ∈ results (.seq (.group (.rep p 1)) (.lit w)) (d ++ w ++ u) := by
      simp only [results_seq, results_group, results_rep, List.mem_flatMap, List.mem_map,
        List.mem_filter, List.mem_reverse, List.mem_range]
      refine ⟨([d], w ++ u), ⟨([], w ++ u), ⟨d.length, ⟨hlen, ?_⟩, ?_⟩, ?_⟩, ([], u), ?_, ?_⟩
      · exact decide_eq_true (List.length_pos_iff.mpr hd)
      · simp [List.append_assoc]
      · simp [List.append_assoc]
      · simp
      · simp
    rw [h] at hmem
    cases hmem
  · intro h
    by_contra hne
    obtain ⟨x, hx, hl⟩ := exists_of_seq hne
    obtain ⟨x', hx, hxx⟩ := exists_of_mem_group hx
    obtain ⟨d, rfl, hmin, hd⟩ := exists_of_mem_rep hx
    obtain ⟨y, hy⟩ := List.exists_mem_of_ne_nil _ hl
    refine h d (List.length_pos_iff.mp hmin) hd ⟨y.2, ?_⟩
    rw [List.append_assoc, hxx, eq_of_mem_lit hy]

end PapQuic.Lib.Scan
