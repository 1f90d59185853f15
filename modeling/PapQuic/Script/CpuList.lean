import PapQuic.Lib.DecimalOrder
import PapQuic.Lib.Firsts
import PapQuic.Lib.Intervals
import PapQuic.Script.CpuTopology

/-! # CPU lists in the shell

`expand_cpu_list` and `collapse_cpu_list` of `scripts/with_host_tuning.sh`. The first one makes a
CPU of each number and the CPUs of each range; at a part that is neither it stops, after what it has
printed already. The second one sorts CPUs and joins neighbours into ranges.

What it prints is expanded to the sorted CPUs again, by the shell and by `_expand_cpu_list` of
`scripts/select_physical_cpus.py`, and has as few parts as can be (`collapse_roundtrip`). The parts
that the shell sees are separated by blanks as well as by commas. -/

namespace PapQuic.Script.CpuList

open Lib.Printf Lib.Re Lib.DecimalOrder Lib.StableSort Lib.Firsts Lib.Intervals Script.Cpus
open Script.CpuTopology

/-! ### Arithmetic -/

/-- A result of shell arithmetic: an `intmax_t`. -/
def wrap64 (z : ℤ) : ℤ := Int.bmod z (2 ^ 64)

/-- A number in a shell expression. It is octal when it starts with a 0, and then an error if it has
another digit. -/
def arithNumber : Text → Option ℤ
  | '0' :: s =>
    if s.all fun c => '0' ≤ c && c ≤ '7' then some (wrap64 (Nat.ofDigitChars 8 s 0)) else none
  | s => some (wrap64 (ofDec s))

/-- `(( start > end ))`, false when there is an error. -/
def arithGreater (start last : Text) : Bool :=
  match arithNumber start, arithNumber last with
  | some a, some b => a > b
  | _, _ => false

/-- `(( cpu == range_end + 1 ))`. -/
def arithNext (cpu rangeEnd : Text) : Bool :=
  match arithNumber cpu, arithNumber rangeEnd with
  | some a, some b => a = wrap64 (b + 1)
  | _, _ => false

/-! ### Expanding -/

/-- What a command or a function printed, on both streams, and its status. -/
structure Process where
  stdout : List Text
  stderr : List Text
  status : ℕ
  deriving DecidableEq, Repr

/-- `log`. -/
def logLine (message : Text) : Text := "[host-tuning] ".toList ++ message

/-- `^[0-9]+$`. -/
def isNumber (s : Text) : Bool := s ≠ [] && s.all isDec

/-- `^([0-9]+)-([0-9]+)$`. -/
def rangeOf (part : Text) : Option (Text × Text) :=
  match part.splitOn '-' with
  | [start, last] => if isNumber start && isNumber last then some (start, last) else none
  | _ => none

/-- `seq`. -/
def seq (start last : Text) : List Text := (numbers (ofDec start, ofDec last)).map dec

/-- The body of the loop: the lines for a part, or the message about it. -/
def expandEntry (part : Text) : Except Text (List Text) :=
  match rangeOf part with
  | some (start, last) =>
    if arithGreater start last then .error ("Invalid CPU range '".toList ++ part ++ "'.".toList)
    else .ok (seq start last)
  | none =>
    if isNumber part then .ok [part]
    else .error ("Invalid CPU entry '".toList ++ part ++ "'.".toList)

/-- The loop. -/
def expandEntries : List Text → Process
  | [] => ⟨[], [], 0⟩
  | part :: parts =>
    if part = [] then expandEntries parts
    else
      match expandEntry part with
      | .error message => ⟨[], [logLine message], 1⟩
      | .ok lines => { expandEntries parts with stdout := lines ++ (expandEntries parts).stdout }

/-- The characters of `IFS`. -/
def isIfs (c : Char) : Bool := c = ' ' || c = '\t' || c = '\n'

/-- The words of an unquoted expansion. -/
def words (s : Text) : List Text :=
  ((s.map fun c => if isIfs c then ' ' else c).splitOn ' ').filter (· ≠ [])

/-- What the loop goes over: the words, after pathname expansion. -/
def entries (glob : Text → List Text) (list : Text) : List Text :=
  (words (list.map fun c => if c = ',' then ' ' else c)).flatMap glob

/-- `expand_cpu_list`. -/
def expandCpuList (glob : Text → List Text) (list : Text) : Process :=
  expandEntries (entries glob list)

/-! ### Collapsing -/

/-- `sort -n -u` of lines of digits: of lines with the same number the first one is kept. -/
def sortNumbers (lines : List Text) : List Text := firstsBy ofDec [] (sortBy ofDec lines)

/-- The variables of the loop. -/
structure Ranges where
  ranges : List Text
  rangeStart : Text
  rangeEnd : Text

/-- `range_start` or `range_start-range_end`. -/
def Ranges.current (s : Ranges) : Text :=
  if s.rangeStart = s.rangeEnd then s.rangeStart else s.rangeStart ++ "-".toList ++ s.rangeEnd

/-- A round of the loop. -/
def Ranges.add (s : Ranges) (cpu : Text) : Ranges :=
  if s.rangeStart = [] then ⟨s.ranges, cpu, cpu⟩
  else if arithNext cpu s.rangeEnd then { s with rangeEnd := cpu }
  else ⟨s.ranges ++ [s.current], cpu, cpu⟩

/-- The ranges when the loop is over. -/
def Ranges.all (s : Ranges) : List Text :=
  if s.rangeStart = [] then s.ranges else s.ranges ++ [s.current]

/-- `collapse_cpu_list`. -/
def collapseCpuList (cpus : List Text) : Text :=
  if cpus = [] then []
  else ",".toList.intercalate ((sortNumbers cpus).foldl Ranges.add ⟨[], [], []⟩).all

/-! ### Numbers -/

theorem dec_injective : Function.Injective dec :=
  Function.LeftInverse.injective ofDec_dec

theorem wrap64_of_lt {n : ℕ} (h : n < 2 ^ 63) : wrap64 n = n :=
  Int.bmod_eq_of_le (by omega) (by omega)

/-- A number without leading zeros is read as it is. -/
theorem arithNumber_dec {n : ℕ} (h : n < 2 ^ 63) : arithNumber (dec n) = some (n : ℤ) := by
  rcases Nat.eq_zero_or_pos n with rfl | hpos
  · rfl
  have hhead := head?_dec_ne hpos
  have hvalue : wrap64 (ofDec (dec n)) = n := by rw [ofDec_dec, wrap64_of_lt h]
  generalize dec n = s at hhead hvalue
  unfold arithNumber
  split
  · exact absurd rfl hhead
  · rw [hvalue]

theorem arithGreater_dec {a b : ℕ} (ha : a < 2 ^ 63) (hb : b < 2 ^ 63) :
    arithGreater (dec a) (dec b) = decide (b < a) := by
  unfold arithGreater
  rw [arithNumber_dec ha, arithNumber_dec hb]
  simp

theorem arithNext_dec {n b : ℕ} (hn : n < 2 ^ 63) (hb : b + 1 < 2 ^ 63) :
    arithNext (dec n) (dec b) = decide (n = b + 1) := by
  have hnext : wrap64 ((b : ℤ) + 1) = ((b + 1 : ℕ) : ℤ) := by
    rw [← wrap64_of_lt hb]
    rfl
  unfold arithNext
  rw [arithNumber_dec hn, arithNumber_dec (by omega)]
  change decide ((n : ℤ) = wrap64 ((b : ℤ) + 1)) = _
  rw [hnext]
  simp only [Nat.cast_inj]

theorem isNumber_iff {s : Text} : isNumber s = true ↔ s ≠ [] ∧ ∀ c ∈ s, isDec c = true := by
  simp only [isNumber, Bool.and_eq_true, decide_eq_true_eq, List.all_eq_true]

theorem isNumber_dec (n : ℕ) : isNumber (dec n) = true :=
  isNumber_iff.mpr ⟨dec_ne_nil n, fun _ hc => isDec_of_mem_dec hc⟩

theorem map_ofDec_seq (start last : Text) :
    (seq start last).map ofDec = numbers (ofDec start, ofDec last) := by
  rw [seq, List.map_map]
  exact (List.map_congr_left fun n _ => ofDec_dec n).trans (List.map_id _)

/-! ### What is printed -/

/-- The text of a range. -/
def rangeText (r : ℕ × ℕ) : Text :=
  if r.1 = r.2 then dec r.1 else dec r.1 ++ "-".toList ++ dec r.2

/-- The characters of a range. -/
theorem mem_rangeText {r : ℕ × ℕ} {c : Char} (h : c ∈ rangeText r) : isDec c = true ∨ c = '-' := by
  unfold rangeText at h
  split_ifs at h
  · exact .inl (isDec_of_mem_dec h)
  · rcases List.mem_append.mp h with h | h
    · rcases List.mem_append.mp h with h | h
      · exact .inl (isDec_of_mem_dec h)
      · exact .inr (List.mem_singleton.mp h)
    · exact .inl (isDec_of_mem_dec h)

theorem rangeText_ne_nil (r : ℕ × ℕ) : rangeText r ≠ [] := by
  unfold rangeText
  split_ifs
  · exact dec_ne_nil _
  · simp

theorem current_eq (ranges : List Text) (a b : ℕ) :
    (⟨ranges, dec a, dec b⟩ : Ranges).current = rangeText (a, b) := by
  unfold Ranges.current rangeText
  simp only [dec_injective.eq_iff]

/-- **The loop**: what it has printed, and the intervals of what is left. -/
theorem all_foldl : ∀ (ns : List ℕ) (ranges : List Text) {a b : ℕ}, b + 1 < 2 ^ 63 →
    (∀ n ∈ ns, n + 1 < 2 ^ 63) →
    ((ns.map dec).foldl Ranges.add ⟨ranges, dec a, dec b⟩).all =
      ranges ++ (runs a b ns).map rangeText
  | [], ranges, a, b, _, _ => by
    rw [List.map_nil, List.foldl_nil, Ranges.all, if_neg (dec_ne_nil a), current_eq]
    rfl
  | n :: ns, ranges, a, b, hb, hns => by
    obtain ⟨hn, hns⟩ := List.forall_mem_cons.mp hns
    rw [List.map_cons, List.foldl_cons, Ranges.add, if_neg (dec_ne_nil a),
      arithNext_dec (by omega) hb]
    by_cases hnext : n = b + 1
    · rw [if_pos (decide_eq_true hnext), runs, if_pos hnext]
      exact all_foldl ns ranges hn hns
    · rw [if_neg (by simpa using hnext), runs, if_neg hnext, current_eq,
        all_foldl ns _ hn hns, List.append_assoc]
      rfl

/-- A list in increasing order is what it has. -/
theorem sortedSet_congr {l l' : List ℕ} (h : ∀ n, n ∈ l ↔ n ∈ l') : sortedSet l = sortedSet l' := by
  refine sortBy_perm ((List.perm_ext_iff_of_nodup (List.nodup_dedup l)
    (List.nodup_dedup l')).mpr ?_)
  intro n
  rw [List.mem_dedup, List.mem_dedup, h]

theorem sortNumbers_map_dec (ns : List ℕ) : sortNumbers (ns.map dec) = (sortedSet ns).map dec := by
  set lines := sortNumbers (ns.map dec) with hlines
  have hdec : ∀ line ∈ lines, dec (ofDec line) = line := by
    intro line hline
    have hmem := (perm_sortBy ofDec (ns.map dec)).mem_iff.mp
      ((sublist_firstsBy [] _).subset hline)
    obtain ⟨n, -, rfl⟩ := List.mem_map.mp hmem
    rw [ofDec_dec]
  have hmem : ∀ n, n ∈ lines.map ofDec ↔ n ∈ ns := by
    intro n
    rw [hlines, sortNumbers, mem_map_firstsBy, and_iff_right (List.not_mem_nil),
      ((perm_sortBy ofDec (ns.map dec)).map ofDec).mem_iff, List.map_map]
    simp
  have hsorted : (lines.map ofDec).Pairwise (· < ·) := by
    have hle : (lines.map ofDec).Pairwise (· ≤ ·) :=
      List.pairwise_map.mpr ((pairwise_sortBy ofDec (ns.map dec)).sublist (sublist_firstsBy [] _))
    exact hle.imp₂ (fun a b hab hne => lt_of_le_of_ne hab hne) (nodup_map_firstsBy [] _)
  have hback : (lines.map ofDec).map dec = lines := by
    rw [List.map_map]
    exact (List.map_congr_left hdec).trans (List.map_id lines)
  rw [← hback, ← sortedSet_of_pairwise hsorted, sortedSet_congr hmem]

/-- **What `collapse_cpu_list` prints**: the intervals of the sorted CPUs. -/
theorem collapse_eq {ns : List ℕ} (hlt : ∀ n ∈ ns, n + 1 < 2 ^ 63) {n : ℕ} {rest : List ℕ}
    (hsorted : sortedSet ns = n :: rest) :
    collapseCpuList (ns.map dec) = ",".toList.intercalate ((runs n n rest).map rangeText) := by
  have hmem : ∀ m ∈ n :: rest, m + 1 < 2 ^ 63 := by
    intro m hm
    rw [← hsorted, mem_sortedSet] at hm
    exact hlt m hm
  obtain ⟨hn, hrest⟩ := List.forall_mem_cons.mp hmem
  have hne : ns.map dec ≠ [] := by
    rintro h
    rw [List.map_eq_nil_iff.mp h] at hsorted
    cases hsorted
  rw [collapseCpuList, if_neg hne, sortNumbers_map_dec, hsorted, List.map_cons, List.foldl_cons]
  change ",".toList.intercalate ((rest.map dec).foldl Ranges.add ⟨[], dec n, dec n⟩).all = _
  rw [all_foldl rest [] hn hrest, List.nil_append]

/-! ### Expanding what was printed -/

/-- A replacement of other characters. -/
theorem map_eq_of_forall {f : Char → Char} {parts : List Text}
    (h : ∀ part ∈ parts, ∀ c ∈ part, f c = c) : parts.map (List.map f) = parts :=
  (List.map_congr_left fun part hp => (List.map_congr_left (h part hp)).trans
    (List.map_id part)).trans (List.map_id parts)

/-- The words of parts without blanks: those that are not empty. -/
theorem words_intercalate {parts : List Text} (hne : parts ≠ [])
    (h : ∀ part ∈ parts, ∀ c ∈ part, isIfs c = false) :
    words (" ".toList.intercalate parts) = parts.filter (· ≠ []) := by
  have hblank : ∀ part ∈ parts, ' ' ∉ part := by
    intro part hp hc
    cases h part hp _ hc
  have hsame : parts.map (List.map fun c => if isIfs c = true then ' ' else c) = parts := by
    refine map_eq_of_forall fun part hp c hc => ?_
    rw [h part hp c hc, if_neg Bool.false_ne_true]
  rw [words, map_intercalate, hsame]
  change (List.splitOn ' ' (([' '] : Text).intercalate parts)).filter _ = _
  rw [List.splitOn_intercalate _ hblank hne]

/-- **The parts of a text without blanks and patterns**: those between the commas, the empty ones
left out. -/
theorem entries_eq {glob : Text → List Text} {t : Text} (hblank : ∀ c ∈ t, isIfs c = false)
    (hglob : ∀ part ∈ t.splitOn ',', glob part = [part]) :
    entries glob t = (t.splitOn ',').filter (· ≠ []) := by
  have hjoin : ",".toList.intercalate (t.splitOn ',') = t := List.intercalate_splitOn ','
  have hsame : (t.splitOn ',').map (List.map fun c => if c = ',' then ' ' else c) = t.splitOn ',' :=
    map_eq_of_forall fun part hp c hc => if_neg (mem_of_mem_splitOn hp hc).2
  have hwords : words (t.map fun c => if c = ',' then ' ' else c) =
      (t.splitOn ',').filter (· ≠ []) := by
    conv_lhs => rw [← hjoin, map_intercalate, hsame]
    exact words_intercalate (List.splitOn_ne_nil ',' t) fun part hp c hc =>
      hblank c (mem_of_mem_splitOn hp hc).1
  rw [entries, hwords]
  exact (List.flatMap_congr fun part hp => hglob part (List.mem_filter.mp hp).1).trans
    ((List.flatMap_pure_eq_map id _).trans (List.map_id _))

theorem isIfs_eq_false {c : Char} (h : isDec c = true ∨ c = '-') : isIfs c = false := by
  by_contra hifs
  rw [Bool.not_eq_false, isIfs, Bool.or_eq_true, Bool.or_eq_true, decide_eq_true_eq,
    decide_eq_true_eq, decide_eq_true_eq] at hifs
  rcases hifs with (rfl | rfl) | rfl <;> exact absurd h (by decide)

section Printed

variable {rs : List (ℕ × ℕ)}

/-- The characters of a range are kept by what replaces commas and blanks. -/
theorem plain_rangeText {r : ℕ × ℕ} {c : Char} (h : c ∈ rangeText r) :
    c ≠ ',' ∧ isIfs c = false := by
  refine ⟨?_, isIfs_eq_false (mem_rangeText h)⟩
  rintro rfl
  exact absurd (mem_rangeText h) (by decide)

theorem splitOn_printed (hrs : rs ≠ []) :
    (",".toList.intercalate (rs.map rangeText)).splitOn ',' = rs.map rangeText := by
  refine List.splitOn_intercalate _ (fun part hp hc => ?_) (by simpa using hrs)
  obtain ⟨r, -, rfl⟩ := List.mem_map.mp hp
  exact (plain_rangeText hc).1 rfl

/-- What the loop of `expand_cpu_list` goes over. -/
theorem entries_printed {glob : Text → List Text}
    (hglob : ∀ w : Text, (∀ c ∈ w, isDec c = true ∨ c = '-') → glob w = [w]) (hrs : rs ≠ []) :
    entries glob (",".toList.intercalate (rs.map rangeText)) = rs.map rangeText := by
  have hparts : ∀ part ∈ rs.map rangeText, glob part = [part] ∧ part ≠ [] := by
    intro part hp
    obtain ⟨r, -, rfl⟩ := List.mem_map.mp hp
    exact ⟨hglob _ fun c hc => mem_rangeText hc, rangeText_ne_nil r⟩
  have hblank : ∀ c ∈ ",".toList.intercalate (rs.map rangeText), isIfs c = false := by
    intro c hc
    rcases mem_intercalate hc with hc | ⟨part, hp, hc⟩
    · rw [List.mem_singleton.mp hc]
      rfl
    · obtain ⟨r, -, rfl⟩ := List.mem_map.mp hp
      exact (plain_rangeText hc).2
  rw [entries_eq hblank, splitOn_printed hrs, List.filter_eq_self]
  · exact fun part hp => decide_eq_true (hparts part hp).2
  · rw [splitOn_printed hrs]
    exact fun part hp => (hparts part hp).1

end Printed

/-! ### A part, by the shell and by Python -/

theorem ne_of_mem_dec {n : ℕ} {c d : Char} (hc : c ∈ dec n) (hd : isDec d = false) : c ≠ d := by
  rintro rfl
  rw [isDec_of_mem_dec hc] at hd
  cases hd

theorem rangeText_cases (r : ℕ × ℕ) : (r.1 = r.2 ∧ rangeText r = dec r.1) ∨
    (r.1 ≠ r.2 ∧ rangeText r = dec r.1 ++ '-' :: dec r.2) := by
  unfold rangeText
  split_ifs with heq
  · exact .inl ⟨heq, rfl⟩
  · exact .inr ⟨heq, List.append_assoc ..⟩

theorem splitOn_dec (n : ℕ) : (dec n).splitOn '-' = [dec n] :=
  List.splitOnP_eq_singleton fun c hc => beq_false_of_ne (ne_of_mem_dec hc (by decide))

theorem rangeOf_dec (n : ℕ) : rangeOf (dec n) = none := by
  rw [rangeOf, splitOn_dec]

theorem rangeOf_range (a b : ℕ) : rangeOf (dec a ++ '-' :: dec b) = some (dec a, dec b) := by
  have hsplit : (dec a ++ '-' :: dec b).splitOn '-' = [dec a, dec b] := by
    rw [List.splitOn, List.splitOnP_append_cons _ _ (by decide)]
    exact congrArg₂ (· ++ ·) (splitOn_dec a) (splitOn_dec b)
  rw [rangeOf, hsplit]
  simp only [isNumber_dec, Bool.and_self, if_true]

theorem expandEntry_rangeText {r : ℕ × ℕ} (hle : r.1 ≤ r.2) (hlt : r.2 < 2 ^ 63) :
    expandEntry (rangeText r) = .ok ((numbers r).map dec) := by
  obtain ⟨a, b⟩ := r
  rcases rangeText_cases (a, b) with ⟨heq, htext⟩ | ⟨-, htext⟩
  · obtain rfl : a = b := heq
    rw [htext, expandEntry, rangeOf_dec, numbers_self]
    exact if_pos (isNumber_dec a)
  · have hgreater : arithGreater (dec a) (dec b) = false := by
      rw [arithGreater_dec (lt_of_le_of_lt hle hlt) hlt]
      exact decide_eq_false (Nat.not_lt.mpr hle)
    rw [htext, expandEntry, rangeOf_range]
    simp only [hgreater, Bool.false_eq_true, if_false, seq, ofDec_dec]

theorem expandEntries_map {rs : List (ℕ × ℕ)} (h : ∀ r ∈ rs, r.1 ≤ r.2 ∧ r.2 < 2 ^ 63) :
    expandEntries (rs.map rangeText) = ⟨(rs.flatMap numbers).map dec, [], 0⟩ := by
  induction rs with
  | nil => rfl
  | cons r rs ih =>
    obtain ⟨⟨hle, hlt⟩, hrs⟩ := List.forall_mem_cons.mp h
    rw [List.map_cons, expandEntries, if_neg (rangeText_ne_nil r),
      expandEntry_rangeText hle hlt, ih hrs, List.flatMap_cons, List.map_append]

theorem strip_of_plain {s : Text} (hne : s ≠ []) (h : ∀ c ∈ s, isDec c = true ∨ c = '-') :
    strip s = s := by
  refine strip_of_trimmed (trimmed_of_forall hne fun c hc => ?_)
  rcases h c hc with hdigit | rfl
  · exact isSpace_of_isDec hdigit
  · rfl

theorem pyInt_dec (n : ℕ) : pyInt (dec n) = some (n : ℤ) := by
  have hstrip : strip (dec n) = dec n :=
    strip_of_plain (dec_ne_nil n) fun c hc => .inl (isDec_of_mem_dec hc)
  have hdigits : pyDigits (dec n) = some n := by
    have hsplit : (dec n).splitOn '_' = [dec n] :=
      List.splitOnP_eq_singleton fun c hc => beq_false_of_ne (ne_of_mem_dec hc (by decide))
    have hfilter : (dec n).filter (· ≠ '_') = dec n :=
      List.filter_eq_self.mpr fun c hc => decide_eq_true (ne_of_mem_dec hc (by decide))
    have hall : (!(dec n).isEmpty && (dec n).all isDec) = true := by
      simp only [Bool.and_eq_true, Bool.not_eq_true', List.isEmpty_eq_false_iff, List.all_eq_true]
      exact ⟨dec_ne_nil n, fun c hc => isDec_of_mem_dec hc⟩
    rw [pyDigits, hsplit, hfilter, ofDec_dec, List.all_cons, hall]
    rfl
  unfold pyInt
  rw [hstrip]
  split
  · next heq => exact absurd rfl (ne_of_mem_dec (heq ▸ List.mem_cons_self) (by decide))
  · next heq => exact absurd rfl (ne_of_mem_dec (heq ▸ List.mem_cons_self) (by decide))
  · rw [hdigits]
    rfl

theorem expandPart_rangeText {r : ℕ × ℕ} (hle : r.1 ≤ r.2) :
    expandPart (rangeText r) = .ok (numbers r) := by
  obtain ⟨a, b⟩ := r
  have hno : ∀ n, '-' ∉ dec n := fun n hc => ne_of_mem_dec hc (by decide) rfl
  rcases rangeText_cases (a, b) with ⟨heq, htext⟩ | ⟨-, htext⟩
  · obtain rfl : a = b := heq
    rw [htext, expandPart, if_neg (hno a), pyInt_dec, numbers_self]
    rfl
  · have hdigits : ∀ c ∈ dec a, decide (c ≠ '-') = true :=
      fun c hc => decide_eq_true (ne_of_mem_dec hc (by decide))
    have htake : (dec a ++ '-' :: dec b).takeWhile (· ≠ '-') = dec a := by
      rw [List.takeWhile_append_of_pos hdigits, List.takeWhile_cons_of_neg (by decide),
        List.append_nil]
    have hdrop : (dec a ++ '-' :: dec b).dropWhile (· ≠ '-') = '-' :: dec b := by
      rw [List.dropWhile_append_of_pos hdigits, List.dropWhile_cons_of_neg (by decide)]
    rw [htext, expandPart, if_pos (by simp), htake, hdrop, List.drop_one, List.tail_cons, pyInt_dec,
      pyInt_dec]
    change (if (a : ℤ) > b then _ else Except.ok (numbers (a, b))) = _
    rw [if_neg (by exact_mod_cast Nat.not_lt.mpr hle)]

/-- The loop of `_expand_cpu_list`, when no part fails. -/
theorem foldlM_expandPart {rs : List (ℕ × ℕ)} (h : ∀ r ∈ rs, r.1 ≤ r.2) (acc : List ℕ) :
    (rs.map rangeText).foldlM (fun cpus part => (cpus ++ ·) <$> expandPart part) acc =
      .ok (acc ++ rs.flatMap numbers) := by
  induction rs generalizing acc with
  | nil => exact congrArg Except.ok (List.append_nil acc).symm
  | cons r rs ih =>
    obtain ⟨hle, hrs⟩ := List.forall_mem_cons.mp h
    rw [List.map_cons, List.foldlM_cons, expandPart_rangeText hle]
    change (rs.map rangeText).foldlM _ (acc ++ numbers r) = _
    rw [ih hrs, List.flatMap_cons, List.append_assoc]

theorem pyExpand_printed {rs : List (ℕ × ℕ)} (hrs : rs ≠ []) (h : ∀ r ∈ rs, r.1 ≤ r.2) :
    Cpus.expandCpuList (",".toList.intercalate (rs.map rangeText)) = .ok (rs.flatMap numbers) := by
  have hne : ",".toList.intercalate (rs.map rangeText) ≠ [] := by
    intro hnil
    have hsplit := splitOn_printed hrs
    rw [hnil, List.splitOn_nil] at hsplit
    obtain ⟨r, -, hr⟩ := List.mem_map.mp (hsplit ▸ List.mem_singleton_self ([] : Text))
    exact rangeText_ne_nil r hr
  have hstrip : ((rs.map rangeText).map strip).filter (· ≠ []) = rs.map rangeText := by
    have hsame : (rs.map rangeText).map strip = rs.map rangeText := by
      rw [List.map_map]
      exact List.map_congr_left fun r _ => strip_of_plain (rangeText_ne_nil r) fun c =>
        mem_rangeText
    rw [hsame, List.filter_eq_self]
    intro part hp
    obtain ⟨r, -, rfl⟩ := List.mem_map.mp hp
    exact decide_eq_true (rangeText_ne_nil r)
  rw [Cpus.expandCpuList, if_neg hne, splitOn_printed hrs, hstrip]
  exact foldlM_expandPart h []

/-! ### How many parts a text needs -/

/-- A part adds an interval. -/
theorem expandEntry_ok {part : Text} {lines : List Text} (h : expandEntry part = .ok lines) :
    ∃ r, lines.map ofDec = numbers r := by
  unfold expandEntry at h
  split at h
  · next start last _ =>
    split_ifs at h
    cases h
    exact ⟨(ofDec start, ofDec last), map_ofDec_seq start last⟩
  · split_ifs at h
    cases h
    exact ⟨(ofDec part, ofDec part), (numbers_self _).symm⟩

theorem exists_intervals_expandEntries (parts : List Text) :
    ∃ rs : List (ℕ × ℕ), rs.length ≤ parts.length ∧
      (expandEntries parts).stdout.map ofDec = rs.flatMap numbers := by
  induction parts with
  | nil => exact ⟨[], Nat.le_refl 0, rfl⟩
  | cons part parts ih =>
    obtain ⟨rs, hlen, hrs⟩ := ih
    rw [expandEntries]
    split_ifs with hnil
    · exact ⟨rs, Nat.le_succ_of_le hlen, hrs⟩
    · rcases he : expandEntry part with message | lines
      · exact ⟨[], Nat.zero_le _, rfl⟩
      · obtain ⟨r, hr⟩ := expandEntry_ok he
        refine ⟨r :: rs, Nat.succ_le_succ hlen, ?_⟩
        rw [List.map_append, hr, hrs, List.flatMap_cons]

theorem expandPart_ok {part : Text} {l : List ℕ} (h : expandPart part = .ok l) :
    ∃ r, l = numbers r := by
  unfold expandPart at h
  split_ifs at h with hdash
  · split at h
    · next start last _ _ =>
      split_ifs at h
      cases h
      exact ⟨(start.toNat, last.toNat), rfl⟩
    · cases h
  · split at h
    · next cpu _ =>
      cases h
      exact ⟨(cpu.toNat, cpu.toNat), (numbers_self _).symm⟩
    · cases h

theorem exists_intervals_foldlM {parts : List Text} {acc cpus : List ℕ}
    (h : parts.foldlM (fun cpus part => (cpus ++ ·) <$> expandPart part) acc = .ok cpus) :
    ∃ rs : List (ℕ × ℕ), rs.length ≤ parts.length ∧ cpus = acc ++ rs.flatMap numbers := by
  induction parts generalizing acc with
  | nil =>
    cases h
    exact ⟨[], Nat.le_refl 0, (List.append_nil _).symm⟩
  | cons part parts ih =>
    rw [List.foldlM_cons] at h
    rcases he : expandPart part with e | l
    · rw [he] at h
      cases h
    · rw [he] at h
      obtain ⟨r, rfl⟩ := expandPart_ok he
      obtain ⟨rs, hlen, hcpus⟩ := ih h
      exact ⟨r :: rs, Nat.succ_le_succ hlen, by rw [hcpus, List.flatMap_cons, List.append_assoc]⟩

theorem exists_intervals_pyExpand {t : Text} {cpus : List ℕ} (h : Cpus.expandCpuList t = .ok cpus) :
    ∃ rs : List (ℕ × ℕ), rs.length ≤ (t.splitOn ',').length ∧ cpus = rs.flatMap numbers := by
  unfold Cpus.expandCpuList at h
  split_ifs at h
  · cases h
    exact ⟨[], Nat.zero_le _, rfl⟩
  · obtain ⟨rs, hlen, hcpus⟩ := exists_intervals_foldlM h
    refine ⟨rs, hlen.trans ((List.length_filter_le ..).trans ?_), hcpus⟩
    rw [List.length_map]

/-! ### The round trip -/

/-- **What `collapse_cpu_list` prints**: intervals with the sorted CPUs, no more of them than any
other intervals with the same CPUs. -/
theorem collapse_spec {ns : List ℕ} (hne : ns ≠ []) (hlt : ∀ n ∈ ns, n + 1 < 2 ^ 63) :
    ∃ rs : List (ℕ × ℕ), rs ≠ [] ∧ (∀ r ∈ rs, r.1 ≤ r.2 ∧ r.2 < 2 ^ 63) ∧
      collapseCpuList (ns.map dec) = ",".toList.intercalate (rs.map rangeText) ∧
      rs.flatMap numbers = sortedSet ns ∧
      ∀ ts : List (ℕ × ℕ), (∀ m, m ∈ ts.flatMap numbers ↔ m ∈ ns) → rs.length ≤ ts.length := by
  obtain ⟨n, rest, hsorted⟩ : ∃ n rest, sortedSet ns = n :: rest := by
    obtain ⟨m, hm⟩ := List.exists_mem_of_ne_nil ns hne
    exact List.exists_cons_of_ne_nil (List.ne_nil_of_mem (mem_sortedSet.mpr hm))
  have hnums : (runs n n rest).flatMap numbers = sortedSet ns := by
    rw [flatMap_runs (Nat.le_refl n), numbers_self, List.singleton_append, hsorted]
  refine ⟨runs n n rest, ?_, fun r hr => ?_, collapse_eq hlt hsorted, hnums, fun ts hts => ?_⟩
  · rintro hnil
    rw [hnil, hsorted] at hnums
    cases hnums
  · have hle : r.1 ≤ r.2 := le_of_mem_runs (Nat.le_refl n) hr
    have hlast : r.2 ∈ (runs n n rest).flatMap numbers :=
      List.mem_flatMap.mpr ⟨r, hr, mem_numbers.mpr ⟨hle, Nat.le_refl _⟩⟩
    rw [hnums, mem_sortedSet] at hlast
    have := hlt _ hlast
    exact ⟨hle, by omega⟩
  · refine length_runs_le (hsorted ▸ pairwise_sortedSet ns) fun m => ?_
    rw [hts, ← hsorted, mem_sortedSet]

/-- **The shell and Python expand what `collapse_cpu_list` prints to the sorted CPUs, and it has as
few parts as can be.** For Python the parts are those between commas; for the shell they are the
words after pathname expansion, which are no others in a text without blanks and patterns. -/
theorem collapse_roundtrip (glob : Text → List Text)
    (hglob : ∀ w : Text, (∀ c ∈ w, isDec c = true ∨ c = '-') → glob w = [w]) {ns : List ℕ}
    (hne : ns ≠ []) (hlt : ∀ n ∈ ns, n < 2 ^ 31) :
    let out := collapseCpuList (ns.map dec)
    expandCpuList glob out = ⟨(sortedSet ns).map dec, [], 0⟩ ∧
      Cpus.expandCpuList out = .ok (sortedSet ns) ∧
      (∀ t, (∀ n, n ∈ (expandCpuList glob t).stdout.map ofDec ↔ n ∈ ns) →
        (out.splitOn ',').length ≤ (entries glob t).length ∧
        ((∀ c ∈ t, isIfs c = false) → (∀ part ∈ t.splitOn ',', glob part = [part]) →
          (out.splitOn ',').length ≤ (t.splitOn ',').length)) ∧
      ∀ t cpus, Cpus.expandCpuList t = .ok cpus → (∀ n, n ∈ cpus ↔ n ∈ ns) →
        (out.splitOn ',').length ≤ (t.splitOn ',').length := by
  intro out
  obtain ⟨rs, hrs, hbound, hout, hnums, hmin⟩ :=
    collapse_spec hne fun n hn => (Nat.succ_le_of_lt (hlt n hn)).trans_lt (by decide)
  have hparts : (out.splitOn ',').length = rs.length := by
    rw [show out = _ from hout, splitOn_printed hrs, List.length_map]
  refine ⟨?_, ?_, fun t ht => ?_, fun t cpus ht hset => ?_⟩
  · rw [show out = _ from hout, expandCpuList, entries_printed hglob hrs, expandEntries_map hbound,
      hnums]
  · rw [show out = _ from hout, pyExpand_printed hrs fun r hr => (hbound r hr).1, hnums]
  · obtain ⟨ts, hlen, hts⟩ := exists_intervals_expandEntries (entries glob t)
    have hle : rs.length ≤ (entries glob t).length :=
      (hmin ts fun m => by rw [← hts]; exact ht m).trans hlen
    rw [hparts]
    refine ⟨hle, fun hblank hplain => hle.trans ?_⟩
    rw [entries_eq hblank hplain]
    exact List.length_filter_le ..
  · obtain ⟨ts, hlen, rfl⟩ := exists_intervals_pyExpand ht
    rw [hparts]
    exact (hmin ts hset).trans hlen

theorem collapse_roundtrip_five :
    collapseCpuList (["3", "1", "2", "1", "7"].map String.toList) = "1-3,7".toList ∧
      expandCpuList (fun w => [w]) "1-3,7".toList =
        ⟨["1", "2", "3", "7"].map String.toList, [], 0⟩ ∧
      Cpus.expandCpuList "1-3,7".toList = .ok [1, 2, 3, 7] := by
  have hout : collapseCpuList ([3, 1, 2, 1, 7].map dec) = "1-3,7".toList := by decide +kernel
  have hsorted : sortedSet [3, 1, 2, 1, 7] = [1, 2, 3, 7] := by decide +kernel
  obtain ⟨hshell, hpython, -⟩ := @collapse_roundtrip (fun w => [w]) (fun _ _ => rfl) [3, 1, 2, 1, 7]
    (by decide) (by decide)
  rw [hout, hsorted] at hshell hpython
  exact ⟨hout, hshell, hpython⟩

/-- A blank separates parts too: this text has one part between commas, and what is printed has
two. -/
theorem collapse_blank :
    collapseCpuList ["0".toList, "2".toList] = "0,2".toList ∧
      expandCpuList (fun w => [w]) "0 2".toList = ⟨["0".toList, "2".toList], [], 0⟩ ∧
      ("0 2".toList.splitOn ',').length = 1 ∧ ("0,2".toList.splitOn ',').length = 2 := by
  decide +kernel

end PapQuic.Script.CpuList
