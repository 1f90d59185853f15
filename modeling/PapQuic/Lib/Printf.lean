import Mathlib.Data.List.Basic
import Mathlib.Tactic.IntervalCases

/-! # Text as lists of characters

Printed text is a list of characters. This module has the conversions of C's `printf` family that
print whole numbers (`dec`, `hexPad`) and the bounded copies `strlcpy`, `strlcat` and `snprintf`,
which keep at most `size - 1` characters of the destination. -/

namespace PapQuic.Lib.Printf

/-- Text. -/
abbrev Text := List Char

/-- What holds of all characters of a text is checked on the text. There are also instances that go
over all characters there are. -/
instance decidableForallMem {p : Char → Prop} [DecidablePred p] (s : Text) :
    Decidable (∀ c ∈ s, p c) := List.decidableBAll p s

instance decidableExistsMem {p : Char → Prop} [DecidablePred p] (s : Text) :
    Decidable (∃ c ∈ s, p c) := List.decidableBEx p s

instance decidableMemTexts (s : Text) (l : List Text) : Decidable (s ∈ l) :=
  List.instDecidableMemOfLawfulBEq s l

/-- `%u`, `%zu` and the like. -/
def dec (n : ℕ) : Text := Nat.toDigits 10 n

/-- `%0wx`: lower-case hexadecimal, padded with zeros to `w` digits. -/
def hexPad (w n : ℕ) : Text :=
  let digits := Nat.toDigits 16 n
  List.replicate (w - digits.length) '0' ++ digits

/-- Blanks on the left up to a width. -/
def padLeft (w : ℕ) (s : Text) : Text := List.replicate (w - s.length) ' ' ++ s

/-- A decimal fraction with `prec` digits after the point. -/
def decimal (intpart prec fracpart : ℕ) : Text :=
  let digits := dec fracpart
  dec intpart ++ ".".toList ++ List.replicate (prec - digits.length) '0' ++ digits

/-- `OPENSSL_strlcpy` into a buffer of `size` bytes. -/
def strlcpy (size : ℕ) (src : Text) : Text := src.take (size - 1)

/-- `OPENSSL_strlcat` onto `dst` in a buffer of `size` bytes. -/
def strlcat (size : ℕ) (dst src : Text) : Text := dst ++ src.take (size - 1 - dst.length)

/-- `BIO_snprintf` of an already formatted text into a buffer of `size` bytes. -/
def snprintf (size : ℕ) (formatted : Text) : Text := formatted.take (size - 1)

/-- The decimal digits. -/
def isDec (c : Char) : Bool := c.isDigit

theorem dec_ne_nil (n : ℕ) : dec n ≠ [] := Nat.toDigits_ne_nil

variable {c : Char}

theorem isDec_of_mem_dec {n : ℕ} (h : c ∈ dec n) : isDec c :=
  Nat.isDigit_of_mem_toDigits (by omega) (by omega) h

/-- A character that is not a digit is in no decimal number. -/
theorem not_mem_dec {n : ℕ} (hc : isDec c = false) : c ∉ dec n := by
  intro h
  rw [isDec_of_mem_dec h] at hc
  cases hc

theorem mem_digits (h : isDec c = true) : c ∈ "0123456789".toList := by
  have hc : 48 ≤ c.toNat ∧ c.toNat ≤ 57 := by
    simpa [isDec, Char.isDigit, UInt32.le_iff_toNat_le] using h
  obtain ⟨hlo, hhi⟩ := hc
  rw [← Char.ofNat_toNat c]
  generalize c.toNat = n at hlo hhi
  interval_cases n <;> decide

theorem mem_intercalate {sep : Text} {c : Char} : ∀ {l : List Text}, c ∈ sep.intercalate l →
    c ∈ sep ∨ ∃ s ∈ l, c ∈ s
  | [], h => by simp at h
  | [s], h => .inr ⟨s, by simp, by simpa using h⟩
  | s :: t :: l, h => by
    rw [List.intercalate_cons_cons, List.mem_append, List.mem_append] at h
    rcases h with (h | h) | h
    · exact .inr ⟨s, by simp, h⟩
    · exact .inl h
    · rcases mem_intercalate h with h | ⟨u, hu, h⟩
      · exact .inl h
      · exact .inr ⟨u, by simp [hu], h⟩

/-- The parts have the characters of the text, the separator apart. -/
theorem mem_of_mem_splitOn {sep c : Char} {part : Text} : ∀ {s : Text}, part ∈ s.splitOn sep →
    c ∈ part → c ∈ s ∧ c ≠ sep
  | [], hp, hc => by
    rw [List.splitOn_nil, List.mem_singleton] at hp
    subst hp
    cases hc
  | d :: s, hp, hc => by
    rw [List.splitOn_cons_eq_if_modifyHead] at hp
    obtain ⟨first, rest, hsplit⟩ := List.exists_cons_of_ne_nil (List.splitOn_ne_nil sep s)
    have hih : ∀ q ∈ first :: rest, c ∈ q → c ∈ s ∧ c ≠ sep := by
      intro q hq hc
      rw [← hsplit] at hq
      exact mem_of_mem_splitOn hq hc
    rw [hsplit, List.modifyHead_cons] at hp
    split_ifs at hp with hd
    · rcases List.mem_cons.mp hp with rfl | hp
      · cases hc
      · exact (hih part hp hc).imp_left (List.mem_cons_of_mem d)
    · rcases List.mem_cons.mp hp with rfl | hp
      · rcases List.mem_cons.mp hc with rfl | hc
        · exact ⟨List.mem_cons_self, fun h => hd (beq_iff_eq.mpr h)⟩
        · exact (hih first List.mem_cons_self hc).imp_left (List.mem_cons_of_mem d)
      · exact (hih part (List.mem_cons_of_mem first hp) hc).imp_left (List.mem_cons_of_mem d)

theorem mem_splitOn (sep : Char) {s : Text} (hc : c ∈ s) :
    c = sep ∨ ∃ part ∈ s.splitOn sep, c ∈ part := by
  have hjoin : [sep].intercalate (s.splitOn sep) = s := List.intercalate_splitOn sep
  rw [← hjoin] at hc
  exact (mem_intercalate hc).imp_left List.mem_singleton.mp

theorem mem_padLeft {w : ℕ} {s : Text} (h : c ∈ padLeft w s) : c = ' ' ∨ c ∈ s := by
  rcases List.mem_append.mp h with h | h
  · exact .inl (List.eq_of_mem_replicate h)
  · exact .inr h

theorem mem_decimal {intpart prec fracpart : ℕ} (h : c ∈ decimal intpart prec fracpart) :
    isDec c ∨ c = '.' := by
  simp only [decimal, List.mem_append] at h
  rcases h with ((h | h) | h) | h
  · exact .inl (isDec_of_mem_dec h)
  · exact .inr (List.mem_singleton.mp h)
  · rw [List.eq_of_mem_replicate h]
    decide
  · exact .inl (isDec_of_mem_dec h)

theorem decimal_ne_nil (intpart prec fracpart : ℕ) : decimal intpart prec fracpart ≠ [] := by
  simp [decimal, dec_ne_nil]

theorem padLeft_of_lt {w : ℕ} {s : Text} (h : s.length < w) :
    padLeft w s = ' ' :: (List.replicate (w - s.length - 1) ' ' ++ s) := by
  rw [padLeft, ← List.cons_append, ← List.replicate_succ]
  congr 2
  omega

theorem mem_toDigits_sixteen : ∀ {n : ℕ}, c ∈ Nat.toDigits 16 n →
    ∃ k < 16, c = Nat.digitChar k := by
  intro n
  induction n using Nat.strongRecOn with
  | ind n ih =>
    intro h
    rw [Nat.toDigits_eq_if (by omega)] at h
    split_ifs at h with hn
    · exact ⟨n, hn, List.mem_singleton.mp h⟩
    · rcases List.mem_append.mp h with h | h
      · exact ih (n / 16) (by omega) h
      · exact ⟨n % 16, by omega, List.mem_singleton.mp h⟩

theorem mem_hexPad {w n : ℕ} (h : c ∈ hexPad w n) : ∃ k < 16, c = Nat.digitChar k := by
  rcases List.mem_append.mp h with h | h
  · exact ⟨0, by omega, List.eq_of_mem_replicate h⟩
  · exact mem_toDigits_sixteen h

/-! ### Classes of characters -/

/-- All characters of the text are of a class. -/
def Over (p : Char → Prop) (s : Text) : Prop := ∀ c ∈ s, p c

instance {p : Char → Prop} [DecidablePred p] (s : Text) : Decidable (Over p s) :=
  decidableForallMem s

section Over

variable {p q : Char → Prop} {s t : Text}

theorem Over.append (hs : Over p s) (ht : Over p t) : Over p (s ++ t) :=
  List.forall_mem_append.mpr ⟨hs, ht⟩

theorem Over.mono (hs : Over p s) (h : ∀ c, p c → q c) : Over q s := fun c hc => h c (hs c hc)

theorem over_flatten {l : List Text} (h : ∀ s ∈ l, Over p s) : Over p l.flatten := by
  intro c hc
  obtain ⟨s, hs, hc⟩ := List.mem_flatten.mp hc
  exact h s hs c hc

theorem over_intercalate {l : List Text} (hs : Over p s) (h : ∀ t ∈ l, Over p t) :
    Over p (s.intercalate l) := by
  intro c hc
  rcases mem_intercalate hc with hc | ⟨t, ht, hc⟩
  · exact hs c hc
  · exact h t ht c hc

theorem over_padLeft (hs : Over p s) (hb : p ' ') (w : ℕ) : Over p (padLeft w s) := by
  intro c hc
  rcases mem_padLeft hc with rfl | hc
  · exact hb
  · exact hs c hc

theorem over_decimal (hd : ∀ c, isDec c = true → p c) (hp : p '.') (intpart prec fracpart : ℕ) :
    Over p (decimal intpart prec fracpart) := by
  intro c hc
  rcases mem_decimal hc with hc | rfl
  · exact hd c hc
  · exact hp

end Over

/-! ### Joined texts -/

/-- A text is cut in one way at the first character of a kind. -/
theorem cut_eq {o : Char} : ∀ {a b t u : Text}, o ∉ a → o ∉ b → a ++ o :: t = b ++ o :: u →
    a = b ∧ t = u
  | [], [], _, _, _, _, h => ⟨rfl, (List.cons.inj h).2⟩
  | [], d :: b, _, _, _, hb, h => by
    have hd : o = d := (List.cons.inj h).1
    simp [hd] at hb
  | c :: a, [], _, _, ha, _, h => by
    have hc : c = o := (List.cons.inj h).1
    simp [hc] at ha
  | c :: a, d :: b, _, _, ha, hb, h => by
    obtain ⟨rfl, hrest⟩ := List.cons.inj h
    obtain ⟨rfl, rfl⟩ := cut_eq (fun hm => ha (by simp [hm])) (fun hm => hb (by simp [hm])) hrest
    exact ⟨rfl, rfl⟩

theorem intercalate_cons_flatMap (sep a : Text) (l : List Text) :
    sep.intercalate (a :: l) = a ++ l.flatMap (sep ++ ·) := by
  induction l generalizing a with
  | nil => simp
  | cons b l ih => rw [List.intercalate_cons_cons, ih b, List.flatMap_cons, List.append_assoc,
      List.append_assoc]

theorem intercalate_concat (sep t : Text) {l : List Text} (h : l ≠ []) :
    sep.intercalate (l ++ [t]) = sep.intercalate l ++ (sep ++ t) := by
  obtain ⟨a, l, rfl⟩ := List.exists_cons_of_ne_nil h
  rw [List.cons_append, intercalate_cons_flatMap, intercalate_cons_flatMap]
  simp

theorem map_intercalate (f : Char → Char) (sep : Text) : ∀ l : List Text,
    (sep.intercalate l).map f = (sep.map f).intercalate (l.map (List.map f))
  | [] => rfl
  | [_] => by simp
  | s :: t :: l => by
    rw [List.intercalate_cons_cons, List.map_append, List.map_append,
      map_intercalate f sep (t :: l)]
    exact (List.intercalate_cons_cons ..).symm

theorem length_intercalate_le (sep : Text) {m : ℕ} {l : List Text} (h : ∀ t ∈ l, t.length ≤ m) :
    (sep.intercalate l).length ≤ l.length * (m + sep.length) := by
  induction l with
  | nil => simp
  | cons a l ih =>
    obtain ⟨ha, h⟩ := List.forall_mem_cons.mp h
    have ih := ih h
    rw [List.length_cons, Nat.succ_mul]
    by_cases hl : l = []
    · subst hl
      simp only [List.intercalate_singleton]
      omega
    · rw [List.intercalate_cons_of_ne_nil hl, List.length_append, List.length_append]
      omega

/-- Parts without the first character of the separator can be told apart again. -/
theorem intercalate_inj {o : Char} {sep : Text} : ∀ {l k : List Text}, l ≠ [] → k ≠ [] →
    (∀ t ∈ l, o ∉ t) → (∀ t ∈ k, o ∉ t) →
    (o :: sep).intercalate l = (o :: sep).intercalate k → l = k
  | [], _, hl, _, _, _, _ => absurd rfl hl
  | _, [], _, hk, _, _, _ => absurd rfl hk
  | [a], [b], _, _, _, _, h => by
    simp only [List.intercalate_singleton] at h
    rw [h]
  | [a], b :: c :: k, _, _, ha, _, h => by
    rw [List.intercalate_singleton, List.intercalate_cons_cons] at h
    have hmem : o ∈ a := by
      rw [h]
      simp
    exact absurd hmem (ha a (by simp))
  | a :: c :: l, [b], _, _, _, hb, h => by
    rw [List.intercalate_singleton, List.intercalate_cons_cons] at h
    have hmem : o ∈ b := by
      rw [← h]
      simp
    exact absurd hmem (hb b (by simp))
  | a :: c :: l, b :: d :: k, _, _, ha, hb, h => by
    rw [List.intercalate_cons_cons, List.intercalate_cons_cons, List.append_assoc,
      List.append_assoc, List.cons_append, List.cons_append] at h
    obtain ⟨rfl, hrest⟩ := cut_eq (ha a (by simp)) (hb b (by simp)) h
    have htail : c :: l = d :: k := intercalate_inj (List.cons_ne_nil _ _) (List.cons_ne_nil _ _)
      (fun t ht => ha t (List.mem_cons_of_mem _ ht)) (fun t ht => hb t (List.mem_cons_of_mem _ ht))
      (List.append_cancel_left hrest)
    rw [htail]

/-- `int()` of a run of digits. -/
def ofDec (s : Text) : ℕ := Nat.ofDigitChars 10 s 0

@[simp] theorem ofDec_dec (n : ℕ) : ofDec (dec n) = n := Nat.ofDigitChars_ten_toDigits

theorem length_dec_le {n k : ℕ} (hk : 0 < k) (h : n < 10 ^ k) : (dec n).length ≤ k :=
  (Nat.length_toDigits_le_iff (by omega) hk).mpr h

theorem lt_length_dec_iff {n k : ℕ} (hk : 0 < k) : k < (dec n).length ↔ 10 ^ k ≤ n := by
  have h := Nat.length_toDigits_le_iff (n := n) (b := 10) (by omega) hk
  rw [← not_le, dec, h, not_lt]

theorem length_decimal {intpart prec fracpart : ℕ} (hp : 0 < prec) (hf : fracpart < 10 ^ prec) :
    (decimal intpart prec fracpart).length = (dec intpart).length + 1 + prec := by
  have h := length_dec_le hp hf
  simp only [decimal, List.length_append, List.length_replicate]
  change (dec intpart).length + 1 + _ + _ = _
  omega

theorem snprintf_of_length_lt {size : ℕ} {s : Text} (h : s.length < size) : snprintf size s = s :=
  List.take_of_length_le (by omega)

theorem strlcat_of_length_lt {size : ℕ} {dst src : Text} (h : dst.length + src.length < size) :
    strlcat size dst src = dst ++ src := by
  rw [strlcat, List.take_of_length_le (by omega)]

theorem prefix_snprintf {size : ℕ} {s t : Text} (h : s <+: t) (hs : s.length < size) :
    s <+: snprintf size t :=
  List.prefix_take_iff.mpr ⟨h, by omega⟩

theorem prefix_strlcpy {size : ℕ} {s t : Text} (h : s <+: t) (hs : s.length < size) :
    s <+: strlcpy size t :=
  List.prefix_take_iff.mpr ⟨h, by omega⟩

theorem prefix_strlcat {s t : Text} (h : s <+: t) (size : ℕ) (u : Text) : s <+: strlcat size t u :=
  h.trans (List.prefix_append t _)

end PapQuic.Lib.Printf
