import PapQuic.Lib.Re
import PapQuic.Log.Lines

/-! # Fields of a log line

The scripts pick the fields `[NAME : value]` out of the lines of the log with regular expressions
that all have the same middle part: a colon between optional spaces. -/

namespace PapQuic.Script.Fields

open Lib.Printf Lib.Re Log.Lines

/-- `\s*:\s*`, and then a pattern. -/
def colon (r : Regex) : Regex :=
  .seq (.rep isSpace 0) (.seq (.lit ":".toList) (.seq (.rep isSpace 0) r))

theorem isSpace_of_mem_blank : ∀ c ∈ " ".toList, isSpace c = true := by decide

/-- A colon between blanks is passed over. -/
theorem matchStart_colon {r : Regex} {t rest : Text} {groups : List Text}
    (h : matchStart r t = some (groups, rest)) (ht : ∀ c ∈ t.head?, isSpace c = false) :
    matchStart (colon r) (" : ".toList ++ t) = some (groups, rest) := by
  have hin : matchStart (.rep isSpace 0) (" ".toList ++ t) = some ([], t) :=
    matchStart_rep isSpace_of_mem_blank (by decide) ht
  have hout : matchStart (.rep isSpace 0) (" ".toList ++ (":".toList ++ (" ".toList ++ t))) =
      some ([], ":".toList ++ (" ".toList ++ t)) :=
    matchStart_rep isSpace_of_mem_blank (by decide) (by simp; decide)
  exact matchStart_seq hout (matchStart_seq (matchStart_lit _ _) (matchStart_seq hin h))

theorem field_append (name : String) (value tail : Text) :
    field name value ++ tail =
      '[' :: name.toList ++ (" : ".toList ++ (value ++ (']' :: tail))) := by
  simp [field]

/-! ### The header of a line -/

/-- What a line has before its fields. -/
def header (l : Line) : Text :=
  "[".toList ++ l.stamp ++ " ms] [".toList ++ (roleName l.isServer).toList ++ " ".toList ++
    l.kind.toList ++ "] ".toList

theorem text_eq (l : Line) : l.text = header l ++ l.rest := rfl

/-- A time stamp has no brackets and no letters. -/
theorem stamp_chars (l : Line) : l.stamp ≠ [] ∧ ∀ c ∈ l.stamp, c ≠ '[' ∧ c ≠ 'D' := by
  obtain ⟨f, -, he⟩ := l.stamp_eq
  rw [he]
  refine ⟨by simp [padLeft, decimal_ne_nil], fun c hc => ?_⟩
  rcases mem_padLeft hc with rfl | hc
  · decide
  · rcases mem_decimal hc with hc | rfl
    · constructor <;> rintro rfl <;> revert hc <;> decide
    · decide

/-- No field whose name starts with `D` starts in the header. -/
theorem calm_header (l : Line) : calm '[' (· = 'D') (header l) = true := by
  obtain ⟨hne, hchars⟩ := stamp_chars l
  have htail : calm '[' (· = 'D') (" ms] [".toList ++ (roleName l.isServer).toList ++ " ".toList ++
      l.kind.toList ++ "] ".toList) = true := by
    cases l with
    | packet l =>
      cases hs : l.event.isServer <;> cases hd : l.event.isSend <;>
        simp only [Line.isServer, Line.kind, hs, hd] <;> decide
    | internal l => cases hs : l.isServer <;> simp only [Line.isServer, Line.kind, hs] <;> decide
  have h := calm_append (calm_bracket hne fun c hc => by simpa using hchars c hc) htail
  simpa [header] using h

/-! ### The datagram size -/

/-- The first field of a packet line and the blank after it. -/
def sizePart (l : PacketLine) : Text :=
  field "DATAGRAM-SIZE" (dec l.event.datagramSize ++ "B".toList) ++ " ".toList

theorem sizePart_eq (l : PacketLine) :
    sizePart l = '[' :: ("DATAGRAM-SIZE : ".toList ++ dec l.event.datagramSize ++
      "B] ".toList) := by
  simp [sizePart, field]

theorem startsWith_delta (b : Regex) :
    StartsWith (.seq (.lit "[DELTA-CREDIT".toList) b) '[' (· = 'D') :=
  startsWith_lit (by decide) _ _

/-- A search for the credit delta passes over the datagram size. -/
theorem search_sizePart (b : Regex) (l : PacketLine) (t : Text) :
    search (.seq (.lit "[DELTA-CREDIT".toList) b) (sizePart l ++ t) =
      search (.seq (.lit "[DELTA-CREDIT".toList) b) t := by
  have hskip : calm '[' (· = 'D') ("DATAGRAM-SIZE : ".toList ++ dec l.event.datagramSize ++
      "B] ".toList) = true :=
    calm_append (calm_append (by decide) (calm_dec (by decide) _)) (by decide)
  have hnil (s : Text) : results (.seq (.lit "[DELTA-CREDIT".toList) b)
      ('[' :: ("DATAGRAM-SIZE".toList ++ s)) = [] :=
    results_lit_seq_nil (v := '[' :: "DATAGRAM-SIZE".toList) (by decide) (by decide) b s
  rw [sizePart_eq, List.cons_append, search_cons, search_calm (startsWith_delta b) _ hskip]
  have he : "DATAGRAM-SIZE : ".toList ++ dec l.event.datagramSize ++ "B] ".toList ++ t =
      "DATAGRAM-SIZE".toList ++
      (" : ".toList ++ (dec l.event.datagramSize ++ ("B] ".toList ++ t))) := by
    simp
  rw [he]
  exact hnil _

end PapQuic.Script.Fields
