import PapQuic.Lib.Printf

/-! # Reading text files

How Python reads a text file line by line: with universal newlines, `\r` and `\r\n` are line breaks
as `\n` is, and a line is read with its line break. Lines without line breaks inside, written one
after the other, are read back as they are (`readLines_writeLines`). -/

namespace PapQuic.Lib.TextFile

open Lib.Printf

/-- Universal newlines. -/
def translateNewlines : Text → Text
  | '\r' :: '\n' :: s => '\n' :: translateNewlines s
  | '\r' :: s => '\n' :: translateNewlines s
  | c :: s => c :: translateNewlines s
  | [] => []

/-- A text cut after each `\n`. -/
def splitLines : Text → List Text
  | [] => []
  | c :: s =>
    if c = '\n' then ['\n'] :: splitLines s
    else
      match splitLines s with
      | [] => [[c]]
      | l :: ls => (c :: l) :: ls

/-- The lines that `for line in file` goes over. -/
def readLines (content : Text) : List Text := splitLines (translateNewlines content)

/-- The characters at which `str.splitlines` cuts a text. -/
def isLineBreak (c : Char) : Bool :=
  ('\n' ≤ c && c ≤ '\r') || ('\x1c' ≤ c && c ≤ '\x1e') || c = '\u0085' || c = '\u2028' ||
    c = '\u2029'

/-- `str.splitlines`. -/
def splitlines : Text → List Text
  | [] => []
  | '\r' :: '\n' :: s => [] :: splitlines s
  | c :: s =>
    if isLineBreak c then [] :: splitlines s
    else
      match splitlines s with
      | [] => [[c]]
      | l :: ls => (c :: l) :: ls

/-- Lines, each with a line break. -/
def writeLines (lines : List Text) : Text := (lines.map (· ++ ['\n'])).flatten

/-- A text without line breaks. -/
def OneLine (s : Text) : Prop := ∀ c ∈ s, c ≠ '\n' ∧ c ≠ '\r'

instance (s : Text) : Decidable (OneLine s) := inferInstanceAs (Decidable (∀ c ∈ s, _))

theorem OneLine.append {s t : Text} (hs : OneLine s) (ht : OneLine t) : OneLine (s ++ t) :=
  Over.append hs ht

theorem oneLine_intercalate {sep : Text} (hsep : OneLine sep) {l : List Text}
    (h : ∀ s ∈ l, OneLine s) : OneLine (sep.intercalate l) :=
  over_intercalate hsep h

theorem translateNewlines_of_forall : ∀ {s : Text}, (∀ c ∈ s, c ≠ '\r') → translateNewlines s = s
  | [], _ => rfl
  | c :: s, h => by
    have hc : c ≠ '\r' := h c (by simp)
    rw [translateNewlines, translateNewlines_of_forall fun d hd => h d (by simp [hd])]
    · rintro s' rfl
      exact absurd rfl hc
    · rintro rfl
      exact absurd rfl hc

theorem splitLines_append : ∀ {l : Text} (s : Text), (∀ c ∈ l, c ≠ '\n') →
    splitLines (l ++ '\n' :: s) = (l ++ ['\n']) :: splitLines s
  | [], s, _ => by simp [splitLines]
  | c :: l, s, h => by
    have hc : c ≠ '\n' := h c (by simp)
    rw [List.cons_append, splitLines, if_neg hc,
      splitLines_append s fun d hd => h d (by simp [hd])]
    rfl

theorem translateNewlines_writeLines {lines : List Text} (h : ∀ l ∈ lines, OneLine l) :
    translateNewlines (writeLines lines) = writeLines lines := by
  refine translateNewlines_of_forall fun c hc => ?_
  obtain ⟨w, hw, hcw⟩ := List.mem_flatten.mp hc
  obtain ⟨l, hl, rfl⟩ := List.mem_map.mp hw
  rcases List.mem_append.mp hcw with hcl | hcl
  · exact (h l hl c hcl).2
  · rw [List.mem_singleton.mp hcl]
    decide

theorem splitLines_writeLines : ∀ {lines : List Text}, (∀ l ∈ lines, OneLine l) →
    splitLines (writeLines lines) = lines.map (· ++ ['\n'])
  | [], _ => rfl
  | l :: lines, h => by
    have hl : ∀ c ∈ l, c ≠ '\n' := fun c hc => (h l (by simp) c hc).1
    rw [writeLines, List.map_cons, List.flatten_cons, List.append_assoc, List.singleton_append,
      splitLines_append _ hl]
    exact congrArg _ (splitLines_writeLines fun m hm => h m (by simp [hm]))

/-- **What was written is read back.** -/
theorem readLines_writeLines {lines : List Text} (h : ∀ l ∈ lines, OneLine l) :
    readLines (writeLines lines) = lines.map (· ++ ['\n']) := by
  rw [readLines, translateNewlines_writeLines h, splitLines_writeLines h]

end PapQuic.Lib.TextFile
