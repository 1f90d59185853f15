import PapQuic.Lib.Printf
import Mathlib.Data.List.DropRight

/-! # Regular expressions that backtrack

The part of Python's `re` that log parsers use: literals, character classes, greedy and lazy
repetition of a class, greedy options, alternatives and capturing groups. `results` lists all ways
to match at the start of a text in the order in which a backtracking matcher tries them, each with
what the groups captured and what is left; so `re.match` is its head. `search` looks for the first
place where there is a match, `findall` for all of them, and `sub` replaces them.

A pattern is matched with a text piece by piece (`matchStart_seq`): where the first way of a piece
lets the rest go on, it is the way of the whole. `search_calm` passes over a text in which no match
can start.

Many patterns have a fixed word, blanks and an opening bracket first (`opened`). Where brackets are
rare, a search for such a pattern goes from one bracket to the next: what comes before a bracket
either is the word or can be left out (`Opens.search_opened`, `Opens.search_without`,
`Opens.search_closed`). -/

namespace PapQuic.Lib.Re

open Lib.Printf

inductive Regex
  | eps
  | lit (w : Text)
  | cls (p : Char → Bool)
  /-- At least `min` characters of a class, as many as possible. -/
  | rep (p : Char → Bool) (min : ℕ)
  /-- Characters of a class, as few as possible. -/
  | lazy (p : Char → Bool)
  | seq (a b : Regex)
  | alt (a b : Regex)
  | group (r : Regex)
  /-- `$`: the end, or the line break at the end. -/
  | atEnd

/-- `r?`. -/
def Regex.opt (r : Regex) : Regex := .alt r .eps

/-- The ways to match at the start of a text, in the order of preference: what the groups captured,
and what is left. -/
def results : Regex → Text → List (List Text × Text)
  | .eps, s => [([], s)]
  | .lit w, s => if w <+: s then [([], s.drop w.length)] else []
  | .cls _, [] => []
  | .cls p, c :: s => if p c then [([], s)] else []
  | .rep p min, s =>
    ((List.range ((s.takeWhile p).length + 1)).reverse.filter (min ≤ ·)).map fun k => ([], s.drop k)
  | .lazy p, s => (List.range ((s.takeWhile p).length + 1)).map fun k => ([], s.drop k)
  | .seq a b, s =>
    (results a s).flatMap fun o => (results b o.2).map fun o' => (o.1 ++ o'.1, o'.2)
  | .alt a b, s => results a s ++ results b s
  | .group r, s => (results r s).map fun o => (s.take (s.length - o.2.length) :: o.1, o.2)
  | .atEnd, s => if s = [] ∨ s = ['\n'] then [([], s)] else []

@[simp] theorem results_eps (s : Text) : results .eps s = [([], s)] := rfl

@[simp] theorem results_lit (w s : Text) :
    results (.lit w) s = if w <+: s then [([], s.drop w.length)] else [] := rfl

@[simp] theorem results_cls (p : Char → Bool) (c : Char) (s : Text) :
    results (.cls p) (c :: s) = if p c then [([], s)] else [] := rfl

@[simp] theorem results_rep (p : Char → Bool) (min : ℕ) (s : Text) : results (.rep p min) s =
    ((List.range ((s.takeWhile p).length + 1)).reverse.filter (min ≤ ·)).map
      fun k => ([], s.drop k) := rfl

@[simp] theorem results_lazy (p : Char → Bool) (s : Text) : results (.lazy p) s =
    (List.range ((s.takeWhile p).length + 1)).map fun k => ([], s.drop k) := rfl

@[simp] theorem results_seq (a b : Regex) (s : Text) : results (.seq a b) s =
    (results a s).flatMap fun o => (results b o.2).map fun o' => (o.1 ++ o'.1, o'.2) := rfl

@[simp] theorem results_alt (a b : Regex) (s : Text) :
    results (.alt a b) s = results a s ++ results b s := rfl

@[simp] theorem results_group (r : Regex) (s : Text) : results (.group r) s =
    (results r s).map fun o => (s.take (s.length - o.2.length) :: o.1, o.2) := rfl

/-- `re.match`. -/
def matchStart (r : Regex) (s : Text) : Option (List Text × Text) := (results r s).head?

/-- `re.search`. -/
def search (r : Regex) : Text → Option (List Text × Text)
  | [] => matchStart r []
  | c :: s => (matchStart r (c :: s)).or (search r s)

/-- `re.findall` with at most `n` matches, for patterns that match no empty text. -/
def findallN (r : Regex) : ℕ → Text → List (List Text)
  | 0, _ => []
  | n + 1, s =>
    match search r s with
    | none => []
    | some (groups, rest) => groups :: findallN r n rest

/-- `re.findall`: there are no more matches than characters. -/
def findall (r : Regex) (s : Text) : List (List Text) := findallN r s.length s

/-- `re.sub` with at most `n` steps, for patterns that match no empty text. -/
def subN (r : Regex) (repl : Text) : ℕ → Text → Text
  | 0, s => s
  | _ + 1, [] => []
  | n + 1, c :: s =>
    match matchStart r (c :: s) with
    | some (_, rest) => repl ++ subN r repl n rest
    | none => c :: subN r repl n s

/-- `re.sub` with a fixed replacement. -/
def sub (r : Regex) (repl s : Text) : Text := subN r repl s.length s

/-- A literal with `re.IGNORECASE`. -/
def litIgnoreCase (w : Text) : Regex :=
  w.foldr (fun k r => .seq (.cls fun c => c.toUpper = k.toUpper) r) .eps

/-! ### Matching piece by piece -/

@[simp] theorem matchStart_eps (s : Text) : matchStart .eps s = some ([], s) := rfl

@[simp] theorem matchStart_lit (w rest : Text) :
    matchStart (.lit w) (w ++ rest) = some ([], rest) := by
  simp [matchStart]

variable {p : Char → Bool} {c : Char}

theorem matchStart_cls (hc : p c = true) (rest : Text) :
    matchStart (.cls p) (c :: rest) = some ([], rest) := by
  simp [matchStart, hc]

theorem takeWhile_append {w rest : Text} (hw : ∀ c ∈ w, p c = true)
    (hrest : ∀ c ∈ rest.head?, p c = false) : (w ++ rest).takeWhile p = w := by
  rw [List.takeWhile_append_of_pos hw]
  rcases rest with _ | ⟨c, rest⟩
  · simp
  · have hc : p c = false := hrest c rfl
    simp [hc]

variable {s : Text}

theorem forall_head_append {p : Char → Prop} (hne : s ≠ []) (hs : ∀ c ∈ s, p c) (t : Text) :
    ∀ c ∈ (s ++ t).head?, p c := by
  obtain ⟨d, s, rfl⟩ := List.exists_cons_of_ne_nil hne
  simpa using hs d (by simp)

/-- A repetition takes the whole run of its characters first. -/
theorem matchStart_rep {min : ℕ} {w rest : Text} (hw : ∀ c ∈ w, p c = true)
    (hmin : min ≤ w.length) (hrest : ∀ c ∈ rest.head?, p c = false) :
    matchStart (.rep p min) (w ++ rest) = some ([], rest) := by
  simp only [matchStart, results_rep, takeWhile_append hw hrest, List.range_succ,
    List.reverse_append, List.reverse_singleton, List.singleton_append]
  rw [List.filter_cons_of_pos (by simpa using hmin), List.map_cons, List.drop_left, List.head?_cons]

/-- The first way of the first piece is taken when the second piece can go on from there. -/
theorem matchStart_seq {a b : Regex} {s t rest : Text} {groups groups' : List Text}
    (ha : matchStart a s = some (groups, t)) (hb : matchStart b t = some (groups', rest)) :
    matchStart (.seq a b) s = some (groups ++ groups', rest) := by
  obtain ⟨others, ha⟩ := List.head?_eq_some_iff.mp ha
  obtain ⟨others', hb⟩ := List.head?_eq_some_iff.mp hb
  simp [matchStart, ha, hb]

/-- A piece without groups in front. -/
theorem matchStart_seq_nil {a b : Regex} {s t : Text} {x : List Text × Text}
    (ha : matchStart a s = some ([], t)) (hb : matchStart b t = some x) :
    matchStart (.seq a b) s = some x := matchStart_seq ha hb

variable {r : Regex}

/-- A group captures what its pattern took. -/
theorem matchStart_group {w rest : Text} {groups : List Text}
    (h : matchStart r (w ++ rest) = some (groups, rest)) :
    matchStart (.group r) (w ++ rest) = some (w :: groups, rest) := by
  obtain ⟨others, h⟩ := List.head?_eq_some_iff.mp h
  simp [matchStart, h]

theorem matchStart_alt_left {a : Regex} {s rest : Text} {groups : List Text}
    (h : matchStart a s = some (groups, rest)) (b : Regex) :
    matchStart (.alt a b) s = some (groups, rest) := by
  obtain ⟨others, h⟩ := List.head?_eq_some_iff.mp h
  simp [matchStart, h]

theorem matchStart_alt_right {a : Regex} (h : results a s = []) (b : Regex) :
    matchStart (.alt a b) s = matchStart b s := by
  simp [matchStart, h]

theorem matchStart_litIgnoreCase (rest : Text) : ∀ w : Text,
    matchStart (litIgnoreCase w) (w ++ rest) = some ([], rest)
  | [] => rfl
  | c :: w => matchStart_seq_nil (matchStart_cls (by simp) _) (matchStart_litIgnoreCase rest w)

/-- A group that takes everything gives the last character back when it has to come after the
group. -/
theorem matchStart_group_last {w : Text} (hw : ∀ d ∈ w, p d = true) (hc : p c = true) :
    matchStart (.seq (.group (.rep p 0)) (.seq (.lit [c]) .atEnd)) (w ++ [c]) = some ([w], []) := by
  have htake : (w ++ [c]).takeWhile p = w ++ [c] := by
    rw [List.takeWhile_append_of_pos hw]
    simp [hc]
  simp [matchStart, htake, List.range_succ, results]

/-! ### What does not match -/

/-- No match starts with a character of the class. -/
def Rejects (r : Regex) (p : Char → Bool) : Prop := ∀ c s, p c = true → results r (c :: s) = []

theorem rejects_lit (w : Text) (hc : p c = false) :
    Rejects (.lit (c :: w)) p := by
  intro d s hd
  have hne : c ≠ d := by rintro rfl; rw [hc] at hd; cases hd
  simp [List.cons_prefix_cons, hne]

theorem rejects_rep {p q : Char → Bool} (h : ∀ c, p c = true → q c = false) (min : ℕ) :
    Rejects (.rep q (min + 1)) p := by
  intro c s hc
  simp [h c hc]

theorem Rejects.seq {a : Regex} (h : Rejects a p) (b : Regex) :
    Rejects (.seq a b) p := by
  intro c s hc
  simp [h c s hc]

theorem Rejects.group {a : Regex} (h : Rejects a p) : Rejects (.group a) p := by
  intro c s hc
  simp [h c s hc]

theorem Rejects.alt {a b : Regex} (ha : Rejects a p) (hb : Rejects b p) :
    Rejects (.alt a b) p := by
  intro c s hc
  simp [ha c s hc, hb c s hc]

variable {b : Regex}

theorem results_cls_seq_nil (h : results b s = []) (c : Char) :
    results (.seq (.cls p) b) (c :: s) = [] := by
  by_cases hc : p c = true <;> simp [hc, h]

/-- A literal that differs from what the text starts with does not match. -/
theorem results_lit_nil {w v : Text} (h : ¬ w <+: v) (hlen : w.length ≤ v.length) (s : Text) :
    results (.lit w) (v ++ s) = [] := by
  have hnot : ¬ w <+: v ++ s := fun hw =>
    h (List.prefix_of_prefix_length_le hw (List.prefix_append v s) hlen)
  simp [hnot]

theorem results_seq_nil {a : Regex} (h : results a s = []) (b : Regex) :
    results (.seq a b) s = [] := by
  simp [h]

theorem results_lit_append_nil (h : results b s = []) (w : Text) :
    results (.seq (.lit w) b) (w ++ s) = [] := by
  simp [h]

theorem results_lit_seq_nil {w v : Text} (h : ¬ w <+: v) (hlen : w.length ≤ v.length) (b : Regex)
    (s : Text) : results (.seq (.lit w) b) (v ++ s) = [] :=
  results_seq_nil (results_lit_nil h hlen s) b

/-! ### Searching -/

theorem search_of_matchStart {x : List Text × Text} (h : matchStart r s = some x) :
    search r s = some x := by
  rcases s with _ | ⟨c, s⟩
  · exact h
  · rw [search, h]; rfl

theorem search_cons (h : results r (c :: s) = []) :
    search r (c :: s) = search r s := by
  rw [search, matchStart, h]; rfl

/-- A text over which no match can start is passed over. -/
theorem search_skip {r : Regex} {p : Char → Bool} (hr : Rejects r p) (rest : Text) :
    ∀ {s : Text}, (∀ c ∈ s, p c = true) → search r (s ++ rest) = search r rest
  | [], _ => rfl
  | c :: s, h => by
    rw [List.cons_append, search_cons (hr c _ (h c (by simp))),
      search_skip hr rest fun d hd => h d (by simp [hd])]

/-- A match starts with the character `o` and one of the class after it. -/
def StartsWith (r : Regex) (o : Char) (p : Char → Bool) : Prop :=
  ∀ s, results r s ≠ [] → ∃ c t, s = o :: c :: t ∧ p c = true

theorem startsWith_lit {o c : Char} (hc : p c = true) (w : Text) (b : Regex) :
    StartsWith (.seq (.lit (o :: c :: w)) b) o p := by
  intro s hs
  by_cases hw : (o :: c :: w) <+: s
  · obtain ⟨t, rfl⟩ := hw
    exact ⟨c, w ++ t, rfl, hc⟩
  · simp [hw] at hs

theorem Rejects.startsWith {o : Char} (hb : Rejects b fun c => !p c) (hnil : results b [] = []) :
    StartsWith (.seq (.lit [o]) b) o p := by
  intro s hs
  by_cases hw : [o] <+: s
  · obtain ⟨t, rfl⟩ := hw
    have ht : results b t ≠ [] := by
      intro h
      simp [h] at hs
    rcases t with _ | ⟨c, t⟩
    · exact absurd hnil ht
    · refine ⟨c, t, rfl, ?_⟩
      by_contra hc
      exact ht (hb c t (by simpa using hc))
  · simp [hw] at hs

/-- In the text every `o` has a character after it that is not in the class. -/
def calm (o : Char) (p : Char → Bool) : Text → Bool
  | [] => true
  | [c] => c ≠ o
  | c :: d :: s => (c ≠ o || !p d) && calm o p (d :: s)

theorem calm_cons {o c : Char} (hc : c ≠ o) :
    calm o p (c :: s) = calm o p s := by
  cases s <;> simp [calm, hc]

theorem calm_of_not_mem {o : Char} {p : Char → Bool} : ∀ {s : Text}, (∀ c ∈ s, c ≠ o) →
    calm o p s = true
  | [], _ => rfl
  | c :: s, h => by
    rw [calm_cons (h c (by simp))]
    exact calm_of_not_mem fun d hd => h d (by simp [hd])

theorem calm_append {o : Char} {p : Char → Bool} : ∀ {s t : Text}, calm o p s = true →
    calm o p t = true → calm o p (s ++ t) = true
  | [], _, _, ht => ht
  | [c], t, hs, ht => by
    rw [List.singleton_append, calm_cons (by simpa [calm] using hs)]
    exact ht
  | c :: d :: s, t, hs, ht => by
    rw [calm, Bool.and_eq_true] at hs
    rw [List.cons_append, List.cons_append, calm, Bool.and_eq_true]
    exact ⟨hs.1, calm_append hs.2 ht⟩

theorem calm_mono {o : Char} {p q : Char → Bool} (hpq : ∀ c, p c = true → q c = true) :
    ∀ {s : Text}, calm o q s = true → calm o p s = true
  | [], _ => rfl
  | [c], h => h
  | c :: d :: s, h => by
    rw [calm, Bool.and_eq_true, Bool.or_eq_true] at h ⊢
    refine ⟨h.1.imp_right fun hq => ?_, calm_mono hpq h.2⟩
    have := hpq d
    revert this hq
    cases p d <;> cases q d <;> decide

theorem calm_dec {o : Char} (ho : isDec o = false) (n : ℕ) :
    calm o p (dec n) = true :=
  calm_of_not_mem fun c hc => by rintro rfl; exact not_mem_dec ho hc

/-- `o` and then a text that starts with something else than the class. -/
theorem calm_open {o c : Char} (hc : p c = false) (hs : calm o p (c :: s) = true) :
    calm o p (o :: c :: s) = true := by
  simp [calm, hc, hs]

theorem calm_bracket {o : Char} (hne : s ≠ []) (hs : ∀ c ∈ s, c ≠ o ∧ p c = false) :
    calm o p (o :: s) = true := by
  obtain ⟨c, s, rfl⟩ := List.exists_cons_of_ne_nil hne
  exact calm_open (hs c (by simp)).2 (calm_of_not_mem fun d hd => (hs d hd).1)

/-- No match starts in a calm text. -/
theorem search_calm {r : Regex} {o : Char} {p : Char → Bool} (hr : StartsWith r o p) :
    ∀ {s : Text} (rest : Text), calm o p s = true → search r (s ++ rest) = search r rest
  | [], _, _ => rfl
  | [c], rest, hs => by
    refine search_cons ?_
    by_contra h
    obtain ⟨d, t, he, -⟩ := hr _ h
    cases he
    simp [calm] at hs
  | c :: d :: s, rest, hs => by
    rw [calm, Bool.and_eq_true] at hs
    have hnil : results r (c :: (d :: s ++ rest)) = [] := by
      by_contra h
      obtain ⟨e, t, he, hp⟩ := hr _ h
      cases he
      simp [hp] at hs
    rw [List.cons_append, search_cons hnil]
    exact search_calm hr rest hs.2

theorem search_eq_none {o : Char} (hr : StartsWith r o p) (hs : calm o p s = true) :
    search r s = none := by
  have hnil : results r [] = [] := by
    by_contra h
    obtain ⟨c, t, he, -⟩ := hr [] h
    cases he
  have h := search_calm hr [] hs
  rw [List.append_nil] at h
  rw [h, search, matchStart, hnil, List.head?_nil]

/-- A match after a calm text. -/
theorem findallN_append {o : Char} (hr : StartsWith r o p) {s m rest : Text}
    (hs : calm o p s = true) {groups : List Text}
    (hm : matchStart r (m ++ rest) = some (groups, rest)) (n : ℕ) :
    findallN r (n + 1) (s ++ (m ++ rest)) = groups :: findallN r n rest := by
  rw [findallN, search_calm hr _ hs, search_of_matchStart hm]

theorem findallN_nil (h : search r s = none) (n : ℕ) :
    findallN r n s = [] := by
  cases n with
  | zero => rfl
  | succ n => rw [findallN, h]

theorem findall_of_findallN {n : ℕ} {found : List (List Text)}
    (h : ∀ k, findallN r (k + n) s = found) (hn : n ≤ s.length) : findall r s = found := by
  rw [findall, ← Nat.sub_add_cancel hn, h]

/-! ### Spaces -/

/-- `\s`, the characters that `str.strip` removes. -/
def isSpace (c : Char) : Bool :=
  c = ' ' || ('\t' ≤ c && c ≤ '\r') || ('\x1c' ≤ c && c ≤ '\x1f') || c = '\u0085' ||
    c = '\u00a0' || c = '\u1680' || ('\u2000' ≤ c && c ≤ '\u200a') || c = '\u2028' ||
    c = '\u2029' || c = '\u202f' || c = '\u205f' || c = '\u3000'

theorem isSpace_of_isDec (h : isDec c = true) : isSpace c = false :=
  (by decide : ∀ c ∈ "0123456789".toList, isSpace c = false) c (mem_digits h)

/-- `str.rstrip`. -/
def rstrip (s : Text) : Text := s.rdropWhile isSpace

/-- `str.strip`. -/
def strip (s : Text) : Text := rstrip (s.dropWhile isSpace)

/-- A text that neither starts nor ends with a space. -/
structure Trimmed (s : Text) : Prop where
  start : ∃ c t, s = c :: t ∧ isSpace c = false
  stop : ∃ t c, s = t ++ [c] ∧ isSpace c = false

theorem trimmed_of_forall (hne : s ≠ []) (h : ∀ c ∈ s, isSpace c = false) :
    Trimmed s := by
  refine ⟨?_, ?_⟩
  · obtain ⟨c, t, rfl⟩ := List.exists_cons_of_ne_nil hne
    exact ⟨c, t, rfl, h c (by simp)⟩
  · exact ⟨s.dropLast, s.getLast hne, (List.dropLast_append_getLast hne).symm,
      h _ (List.getLast_mem hne)⟩

/-- What is between two trimmed texts does not matter. -/
theorem Trimmed.append {s t : Text} (hs : Trimmed s) (w : Text) (ht : Trimmed t) :
    Trimmed (s ++ (w ++ t)) := by
  obtain ⟨c, s, rfl, hc⟩ := hs.start
  obtain ⟨t, d, rfl, hd⟩ := ht.stop
  exact ⟨⟨c, _, rfl, hc⟩, ⟨c :: s ++ (w ++ t), d, by simp, hd⟩⟩

theorem trimmed_intercalate (sep : Text) : ∀ {l : List Text}, l ≠ [] → (∀ s ∈ l, Trimmed s) →
    Trimmed (sep.intercalate l)
  | [s], _, h => by simpa using h s (by simp)
  | s :: t :: l, _, h => by
    rw [List.intercalate_cons_cons, List.append_assoc]
    exact (h s (by simp)).append sep
      (trimmed_intercalate sep (by simp) fun u hu => h u (by simp [hu]))

theorem rstrip_append {s w : Text} (hs : Trimmed s) (hw : ∀ c ∈ w, isSpace c = true) :
    rstrip (s ++ w) = s := by
  obtain ⟨t, c, rfl, hc⟩ := hs.stop
  rw [rstrip, List.rdropWhile, List.reverse_append,
    List.dropWhile_append_of_pos (by simpa using hw)]
  simp [hc]

/-- The spaces around a text are removed. -/
theorem strip_append {s w v : Text} (hs : Trimmed s) (hw : ∀ c ∈ w, isSpace c = true)
    (hv : ∀ c ∈ v, isSpace c = true) : strip (w ++ s ++ v) = s := by
  have hstart : (s ++ v).dropWhile isSpace = s ++ v := by
    obtain ⟨c, t, rfl, hc⟩ := hs.start
    simp [hc]
  rw [strip, List.append_assoc, List.dropWhile_append_of_pos hw, hstart, rstrip_append hs hv]

theorem strip_of_trimmed (hs : Trimmed s) : strip s = s := by
  simpa using strip_append (w := []) (v := []) hs (by simp) (by simp)

/-! ### Repetitions in front -/

/-- A greedy repetition gives nothing back when the rest cannot start with what it took. -/
theorem results_rep_seq (hb : Rejects b p) {w v : Text} (hw : ∀ c ∈ w, p c = true)
    (hv : ∀ c ∈ v.head?, p c = false) :
    results (.seq (.rep p 0) b) (w ++ v) = results b v := by
  have hback : ∀ k ∈ (List.range w.length).reverse, results b ((w ++ v).drop k) = [] := by
    intro k hk
    have hlt : k < w.length := by simpa using hk
    rw [List.drop_append_of_le_length hlt.le, List.drop_eq_getElem_cons hlt]
    exact hb _ _ (hw _ (List.getElem_mem hlt))
  have hnone : ((List.range w.length).reverse.map
      fun k => (([] : List Text), (w ++ v).drop k)).flatMap
        (fun o => (results b o.2).map fun o' => (o.1 ++ o'.1, o'.2)) = [] := by
    rw [List.flatMap_map, List.flatMap_eq_nil_iff]
    intro k hk
    rw [hback k hk, List.map_nil]
  simp only [results_seq, results_rep, takeWhile_append hw hv, Nat.zero_le, decide_true,
    List.filter_true, List.range_succ, List.reverse_append, List.reverse_singleton,
    List.singleton_append, List.map_cons, List.flatMap_cons, hnone, List.append_nil,
    List.drop_left, List.nil_append, Prod.mk.eta, List.map_id']

theorem results_rep_seq_eq (hb : Rejects b p) (s : Text) :
    results (.seq (.rep p 0) b) s = results b (s.dropWhile p) := by
  have hv : ∀ c ∈ (s.dropWhile p).head?, p c = false := by
    intro c hc
    have := List.head?_dropWhile_not p s
    rw [Option.mem_def.mp hc] at this
    simpa using this
  have hw : ∀ c ∈ s.takeWhile p, p c = true := fun c hc => List.mem_takeWhile_imp hc
  have h := results_rep_seq hb hw hv
  rwa [List.takeWhile_append_dropWhile] at h

/-- A lazy repetition goes on while the rest does not match. -/
theorem results_lazy_cons (hc : p c = true) (hb : results b (c :: s) = []) :
    results (.seq (.lazy p) b) (c :: s) = results (.seq (.lazy p) b) s := by
  simp [hc, hb, List.range_succ_eq_map, List.flatMap_map]

theorem results_lazy_seq {p : Char → Bool} {b : Regex} : ∀ {w : Text} (v : Text),
    (∀ c ∈ w, p c = true ∧ ∀ s, results b (c :: s) = []) →
    results (.seq (.lazy p) b) (w ++ v) = results (.seq (.lazy p) b) v
  | [], _, _ => rfl
  | c :: w, v, h => by
    obtain ⟨hc, hb⟩ := h c (by simp)
    rw [List.cons_append, results_lazy_cons hc (hb _)]
    exact results_lazy_seq v fun d hd => h d (by simp [hd])

theorem matchStart_lazy_seq {v rest : Text} {groups : List Text}
    (h : matchStart b v = some (groups, rest)) :
    matchStart (.seq (.lazy p) b) v = some (groups, rest) := by
  refine matchStart_seq_nil ?_ h
  simp [matchStart, List.range_succ_eq_map]

/-! ### A word and an opening bracket -/

/-- A word, blanks and a bracket, and then the rest of the pattern. -/
def opened (word : Text) (o : Char) (r : Regex) : Regex :=
  .seq (.lit word) (.seq (.rep isSpace 0) (.seq (.lit [o]) r))

/-- The word and the bracket can be told apart. -/
structure Opens (word : Text) (o : Char) : Prop where
  ne_nil : word ≠ []
  not_mem : o ∉ word
  space : isSpace o = false

section Opened

variable {word : Text} {o : Char} {r : Regex}

theorem Opens.results_append (h : Opens word o) {w : Text} (hw : ∀ c ∈ w, isSpace c = true)
    (t : Text) : results (opened word o r) (word ++ (w ++ o :: t)) = results r t := by
  have hrep : results (.seq (.rep isSpace 0) (.seq (.lit [o]) r)) (w ++ o :: t) = results r t := by
    rw [results_rep_seq ((rejects_lit [] h.space).seq r) hw (by simpa using h.space)]
    simp
  rw [opened, results_seq, results_lit, if_pos (List.prefix_append _ _), List.drop_left]
  simp only [List.flatMap_cons, List.flatMap_nil, List.append_nil, hrep, List.nil_append,
    Prod.mk.eta, List.map_id']

theorem Opens.exists_of_results (h : Opens word o) (hs : results (opened word o r) s ≠ []) :
    ∃ w t, s = word ++ (w ++ o :: t) ∧ ∀ c ∈ w, isSpace c = true := by
  by_cases hword : word <+: s
  · obtain ⟨u, rfl⟩ := hword
    refine ⟨u.takeWhile isSpace, ?_⟩
    have hw : ∀ c ∈ u.takeWhile isSpace, isSpace c = true := fun c hc => List.mem_takeWhile_imp hc
    have hrep := results_rep_seq_eq ((rejects_lit [] h.space).seq r) u
    have hne : results (.seq (.lit [o]) r) (u.dropWhile isSpace) ≠ [] := by
      intro hnil
      rw [hnil] at hrep
      rw [opened, results_lit_append_nil hrep] at hs
      exact hs rfl
    by_cases ho : [o] <+: u.dropWhile isSpace
    · obtain ⟨t, ht⟩ := ho
      refine ⟨t, ?_, hw⟩
      rw [← List.singleton_append, ht, List.takeWhile_append_dropWhile]
    · simp [ho] at hne
  · simp [opened, hword] at hs

theorem Opens.search_cons (h : Opens word o) (hc : c ∉ word) (s : Text) :
    search (opened word o r) (c :: s) = search (opened word o r) s := by
  refine Re.search_cons ?_
  by_contra hne
  obtain ⟨w, t, he, -⟩ := h.exists_of_results hne
  obtain ⟨d, word', rfl⟩ := List.exists_cons_of_ne_nil h.ne_nil
  cases he
  simp at hc

theorem Opens.not_mem_append (h : Opens word o) {w : Text} (hw : ∀ c ∈ w, isSpace c = true) :
    o ∉ word ++ w := by
  intro hm
  rcases List.mem_append.mp hm with hm | hm
  · exact h.not_mem hm
  · exact absurd (hw o hm) (by simp [h.space])

/-- Before a bracket there is no match, or one that goes on after it. -/
theorem Opens.results_cases (h : Opens word o) {a : Text} (ha : o ∉ a) (t : Text) :
    results (opened word o r) (a ++ o :: t) = [] ∨
      results (opened word o r) (a ++ o :: t) = results r t := by
  by_cases hne : results (opened word o r) (a ++ o :: t) = []
  · exact .inl hne
  · obtain ⟨w, u, he, hw⟩ := h.exists_of_results hne
    obtain rfl : t = u := (cut_eq ha (h.not_mem_append hw) (by rw [he, List.append_assoc])).2
    rw [he]
    exact .inr (h.results_append hw t)

theorem Opens.search_append_none (h : Opens word o) {t : Text} (hr : matchStart r t = none) :
    ∀ {a : Text}, o ∉ a →
      search (opened word o r) (a ++ o :: t) = search (opened word o r) t
  | [], _ => h.search_cons h.not_mem t
  | c :: a, ha => by
    have hnil : results (opened word o r) (c :: (a ++ o :: t)) = [] := by
      rcases h.results_cases (r := r) ha t with he | he
      · exact he
      · exact he.trans (List.head?_eq_none_iff.mp hr)
    rw [List.cons_append, Re.search_cons hnil]
    exact h.search_append_none hr fun hm => ha (by simp [hm])

theorem Opens.search_append_some (h : Opens word o) {t w : Text} {x : List Text × Text}
    (hr : matchStart r t = some x) (hw : ∀ c ∈ w, isSpace c = true) :
    ∀ {b : Text}, o ∉ b → search (opened word o r) (b ++ (word ++ (w ++ o :: t))) = some x
  | [], _ => by
    refine search_of_matchStart ?_
    rw [List.nil_append, matchStart, h.results_append hw]
    exact hr
  | c :: b, hb => by
    have ih := h.search_append_some hr hw (b := b) fun hm => hb (by simp [hm])
    have hmem : o ∉ c :: b ++ (word ++ w) := by
      rw [List.mem_append, not_or]
      exact ⟨hb, h.not_mem_append hw⟩
    have he : c :: b ++ (word ++ (w ++ o :: t)) = c :: b ++ (word ++ w) ++ o :: t := by simp
    rcases h.results_cases (r := r) hmem t with hnil | hsome
    · rw [← he, List.cons_append] at hnil
      rw [List.cons_append, Re.search_cons hnil, ih]
    · refine search_of_matchStart ?_
      rw [he, matchStart, hsome]
      exact hr

/-- **At the word and the bracket** the rest of the pattern is tried. -/
theorem Opens.search_opened (h : Opens word o) {b w : Text} (hb : o ∉ b)
    (hw : ∀ c ∈ w, isSpace c = true) (t : Text) :
    search (opened word o r) (b ++ (word ++ (w ++ o :: t))) =
      (matchStart r t).or (search (opened word o r) t) := by
  rcases hr : matchStart r t with _ | x
  · have hmem : o ∉ b ++ (word ++ w) := by
      rw [List.mem_append, not_or]
      exact ⟨hb, h.not_mem_append hw⟩
    have he : b ++ (word ++ (w ++ o :: t)) = b ++ (word ++ w) ++ o :: t := by simp
    rw [he, h.search_append_none hr hmem, Option.none_or]
  · rw [h.search_append_some hr hw hb, Option.some_or]

/-- A text without a certain letter of the word can be left out, if the word does not go on after
it. -/
theorem Opens.search_without (h : Opens word o) {y : Char} (hy : y ∈ word) {rest : Text}
    (hrest : ∀ c ∈ rest.head?, c ∉ word) : ∀ {a : Text}, y ∉ a →
      search (opened word o r) (a ++ rest) = search (opened word o r) rest
  | [], _ => rfl
  | c :: a, ha => by
    have hnil : results (opened word o r) (c :: (a ++ rest)) = [] := by
      by_contra hne
      obtain ⟨w, t, he, -⟩ := h.exists_of_results hne
      rw [← List.cons_append] at he
      rcases List.append_eq_append_iff.mp he with ⟨d, hd, hd'⟩ | ⟨d, hd, -⟩
      · rcases d with _ | ⟨e, d⟩
        · rw [List.append_nil] at hd
          exact ha (hd ▸ hy)
        · exact hrest e (by simp [hd']) (by simp [hd])
      · exact ha (hd ▸ List.mem_append_left _ hy)
    rw [List.cons_append, Re.search_cons hnil]
    exact h.search_without hy hrest fun hm => ha (by simp [hm])

/-- A text without brackets can be left out, if its last character is neither in the word nor a
space. -/
theorem Opens.search_closed (h : Opens word o) {x : Char} (hx : x ∉ word) (hs : isSpace x = false)
    (rest : Text) : ∀ {a : Text}, o ∉ a ++ [x] →
      search (opened word o r) (a ++ ([x] ++ rest)) = search (opened word o r) rest
  | [], _ => h.search_cons hx rest
  | c :: a, ha => by
    have hnil : results (opened word o r) (c :: (a ++ ([x] ++ rest))) = [] := by
      by_contra hne
      obtain ⟨w, t, he, hw⟩ := h.exists_of_results hne
      have hmem : x ∉ word ++ w := by
        simp only [List.mem_append, not_or]
        exact ⟨hx, fun hm => by simpa [hs] using hw x hm⟩
      have he' : (c :: a ++ [x]) ++ rest = (word ++ w) ++ o :: t := by
        simpa using he
      rcases List.append_eq_append_iff.mp he' with ⟨d, hd, -⟩ | ⟨d, hd, hd'⟩
      · exact hmem (hd ▸ by simp)
      · rcases d with _ | ⟨e, d⟩
        · rw [List.append_nil] at hd
          exact hmem (hd ▸ by simp)
        · obtain rfl : o = e := (List.cons.inj hd').1
          exact ha (hd ▸ by simp)
    rw [List.cons_append, Re.search_cons hnil]
    exact h.search_closed hx hs rest fun hm => ha (by simp [hm])

/-- A text without brackets has no match. -/
theorem Opens.search_eq_none (h : Opens word o) : ∀ {a : Text}, o ∉ a →
    search (opened word o r) a = none
  | [], _ => by
    have hnil : results (opened word o r) [] = [] := by
      by_contra hne
      obtain ⟨w, t, he, -⟩ := h.exists_of_results hne
      simp at he
    rw [search, matchStart, hnil, List.head?_nil]
  | c :: a, ha => by
    have hnil : results (opened word o r) (c :: a) = [] := by
      by_contra hne
      obtain ⟨w, t, he, -⟩ := h.exists_of_results hne
      exact ha (he ▸ by simp)
    rw [Re.search_cons hnil]
    exact h.search_eq_none fun hm => ha (by simp [hm])

end Opened

end PapQuic.Lib.Re
