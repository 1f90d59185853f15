import PapQuic.Log.Lines
import PapQuic.Log.Notes

/-! # The characters of the lines

A line consists of words, numbers and a few marks. Parentheses are only in the list of frames, and
braces only around it and around the fragments of a CRYPTO frame; so a reader of the log that looks
for them finds nothing else. What libcrypto has as the name of a signature algorithm is printed in
fragments: the characters of fragments are those that it uses too (`over_fragment`). -/

namespace PapQuic.Log.Chars

open Lib.Printf Wire.Frames Log.Metadata Log.Clock Log.FrameList Log.Lines
open Log.Notes

/-- The characters outside the list of frames. -/
def lineMark (c : Char) : Bool := wordChar c || " []:+=|/,".toList.contains c

/-- The characters of headers and fields. -/
def headMark (c : Char) : Bool := wordChar c || " []:+".toList.contains c

/-- The characters in a list of frames without CRYPTO frames. -/
def specMark (c : Char) : Bool := lineMark c || c = '(' || c = ')'

theorem specMark_of_wordChar {c : Char} (h : wordChar c = true) : specMark c = true := by
  simp [specMark, lineMark, h]

/-- The characters of the fields of a frame. -/
def fieldMark (c : Char) : Bool := wordChar c || " []=,".toList.contains c

/-- The characters of specifications other than those of CRYPTO frames. -/
def frameMark (c : Char) : Bool := wordChar c || " []=|,()".toList.contains c

theorem specMark_of_frameMark {c : Char} (h : frameMark c = true) : specMark c = true := by
  rcases Bool.or_eq_true_iff.mp h with hw | hm
  · exact specMark_of_wordChar hw
  · exact (by decide : ∀ c ∈ " []=|,()".toList, specMark c = true) c (List.contains_iff_mem.mp hm)

theorem lineMark_of_headMark {c : Char} (h : headMark c = true) : lineMark c = true := by
  simp only [headMark, lineMark, Bool.or_eq_true, List.contains_iff_mem] at h ⊢
  exact h.imp_right fun hm => (by decide : " []:+".toList ⊆ " []:+=|/,".toList) hm

/-- A text of the characters outside the list of frames. -/
abbrev Marks (s : Text) : Prop := Over (lineMark · = true) s

/-- A text of the characters of headers and fields. -/
abbrev Heads (s : Text) : Prop := Over (headMark · = true) s

theorem Heads.marks {s : Text} (h : Heads s) : Marks s := h.mono fun _ => lineMark_of_headMark

/-! ### Outside the list of frames -/

theorem heads_dec (n : ℕ) : Heads (dec n) := chars_dec fun c hc => by simp [headMark, hc]

theorem headMark_of_isDec {c : Char} (h : isDec c = true) : headMark c = true :=
  (by decide : ∀ c ∈ "0123456789".toList, headMark c = true) c (mem_digits h)

theorem heads_decimal (intpart prec fracpart : ℕ) : Heads (decimal intpart prec fracpart) :=
  over_decimal (fun _ => headMark_of_isDec) (by decide) _ _ _

theorem heads_fprintf (min max : ℕ) (value : ℚ) : Heads (fprintf min max value) :=
  over_padLeft (heads_decimal _ _ _) (by decide) _

theorem heads_stamp (l : Line) : Heads l.stamp := by
  obtain ⟨f, -, he⟩ := l.stamp_eq
  rw [he]
  exact over_padLeft (heads_decimal _ _ _) (by decide) _

theorem heads_roleName (isServer : Bool) : Heads (roleName isServer).toList := by
  cases isServer <;> decide

theorem heads_kind (l : Line) : Heads l.kind.toList := by
  cases l with
  | packet l => cases h : l.event.isSend <;> simp only [Line.kind, h] <;> decide
  | internal => exact (by decide : Heads "INTERNAL".toList)

/-- What a line has before its fields. -/
theorem heads_header (l : Line) : Heads ("[".toList ++ l.stamp ++ " ms] [".toList ++
    (roleName l.isServer).toList ++ " ".toList ++ l.kind.toList ++ "] ".toList) := by
  exact ((((((by decide : Heads _).append (heads_stamp l)).append (by decide)).append
    (heads_roleName _)).append (by decide)).append (heads_kind l)).append (by decide)

theorem heads_field {name : String} {value : Text} (hn : Heads name.toList) (hv : Heads value) :
    Heads (field name value) :=
  ((((by decide : Heads _).append hn).append (by decide)).append hv).append (by decide)

theorem heads_creditText (have_ unlimited : Bool) (credit : ℕ) :
    Heads (creditText have_ unlimited credit) := by
  unfold creditText
  split_ifs
  · decide
  · exact (heads_dec _).append (by decide)
  · decide

theorem heads_creditFields (event : PacketLogEvent) :
    Heads (packetLogAppendCreditFields event) := by
  unfold packetLogAppendCreditFields
  split_ifs
  · have hamp : Heads event.serverCredit.2.1 := by
      unfold PacketLogEvent.serverCredit
      dsimp only
      split_ifs <;> decide
    exact ((((heads_field (by decide) (heads_creditText _ _ _)).append (by decide)).append
      (heads_field (by decide) hamp)).append (by decide)).append
        (heads_field (by decide) (heads_creditText _ _ _))
  · have hc : Heads event.clientCredit.1 ∧ Heads event.clientCredit.2 := by
      unfold PacketLogEvent.clientCredit
      split_ifs <;> decide
    exact ((heads_field (by decide) hc.1).append (by decide)).append
      (heads_field (by decide) hc.2)

theorem heads_deltaText (delta : ℤ) : Heads (deltaText delta) := by
  refine (Over.append ?_ (heads_dec _)).append (by decide)
  split_ifs <;> decide

theorem heads_typeName (event : PacketLogEvent) : Heads event.typeName.toList := by
  unfold PacketLogEvent.typeName
  rcases event.packetType with _ | t
  · decide
  · cases t <;> (unfold packetTypeName; decide)

/-- What a packet line has between its header and its list of frames. -/
theorem heads_fields (l : PacketLine) :
    Heads (field "DATAGRAM-SIZE" (dec l.event.datagramSize ++ "B".toList) ++ " ".toList ++
      (match l.delta with
        | some delta => field "DELTA-CREDIT" (deltaText delta) ++ " ".toList
        | none => []) ++
      "PACKET ".toList ++ dec l.event.packetNumber ++ " : ".toList ++ l.event.typeName.toList) := by
  have hsize : Heads (field "DATAGRAM-SIZE" (dec l.event.datagramSize ++ "B".toList)) :=
    heads_field (by decide) ((heads_dec _).append (by decide))
  have hdelta : Heads (match l.delta with
      | some delta => field "DELTA-CREDIT" (deltaText delta) ++ " ".toList
      | none => []) := by
    split
    · exact (heads_field (by decide) (heads_deltaText _)).append (by decide)
    · decide
  exact (((((hsize.append (by decide)).append hdelta).append (by decide)).append
    (heads_dec _)).append (by decide)).append (heads_typeName l.event)

theorem marks_item (item : Item) : Marks item.text := by
  have hm (m : Metric) : Marks m.name.toList := by cases m <;> (unfold Metric.name; decide)
  unfold Item.text
  split
  · exact (((hm _).append (by decide)).append (heads_fprintf _ _ _).marks).append (by decide)
  · exact (hm _).append (by decide)
  · exact ((by decide : Marks _).append (heads_fprintf _ _ _).marks).append (by decide)
  · decide
  · decide

theorem marks_internal (l : InternalLine) : Marks l.rest := by
  have hlabel : Marks l.label.text.toList := by cases l.label <;> (unfold Label.text; decide)
  have hitems : Marks (itemsText l.items) := by
    rcases l.items with _ | ⟨item, items⟩
    · exact (by decide : Marks [])
    · refine ((by decide : Marks _).append (marks_item item)).append (over_flatten ?_)
      intro s hs
      obtain ⟨i, -, rfl⟩ := List.mem_map.mp hs
      exact (by decide : Marks _).append (marks_item i)
  exact (((by decide : Marks _).append hlabel).append (by decide)).append hitems

/-! ### In the list of frames -/

theorem frameMark_of_fieldMark {c : Char} (h : fieldMark c = true) : frameMark c = true := by
  simp only [fieldMark, frameMark, Bool.or_eq_true, List.contains_iff_mem] at h ⊢
  exact h.imp_right fun hm => (by decide : " []=,".toList ⊆ " []=|,()".toList) hm

/-- A text of the characters of the fields of a frame. -/
abbrev FieldMarks (s : Text) : Prop := Over (fieldMark · = true) s

theorem fieldMarks_dec (n : ℕ) : FieldMarks (dec n) := chars_dec fun c hc => by simp [fieldMark, hc]

theorem fieldMarks_hexPad (w n : ℕ) : FieldMarks (hexPad w n) :=
  chars_hexPad fun c hc => by simp [fieldMark, hc]

theorem fieldMarks_ackRangeText (r : AckRange) : FieldMarks (ackRangeText r) := by
  unfold ackRangeText
  split_ifs
  · exact fieldMarks_dec _
  · exact ((fieldMarks_dec _).append (by decide)).append (fieldMarks_dec _)

/-- The fields of frames that are no CRYPTO frames. -/
theorem fieldMarks_fields {spec : FrameSpec}
    (h : ¬ ∃ fragments size, spec = .crypto fragments size) : FieldMarks spec.fields := by
  cases spec with
  | ack ranges more size =>
    have hranges : ∀ s ∈ ranges.map ackRangeText, FieldMarks s := by
      intro s hs
      obtain ⟨r, -, rfl⟩ := List.mem_map.mp hs
      exact fieldMarks_ackRangeText r
    have hmore : FieldMarks (if more then ",...".toList else []) := by
      split_ifs <;> decide
    exact ((((by decide : FieldMarks "RANGE=[".toList).append
      (over_intercalate (by decide) hranges)).append hmore).append
        (by decide : FieldMarks "]".toList)).append (by decide)
  | crypto fragments size => exact absurd ⟨_, _, rfl⟩ h
  | stream id fin size =>
    have hfin : FieldMarks (if fin then " , FIN=1".toList else []) := by
      split_ifs <;> decide
    exact (((by decide : FieldMarks _).append (fieldMarks_dec _)).append hfin).append (by decide)
  | newConnId => exact ((by decide : FieldMarks _).append (fieldMarks_dec _)).append (by decide)
  | connClose =>
    exact ((by decide : FieldMarks _).append (fieldMarks_hexPad _ _)).append (by decide)
  | unknown => exact ((by decide : FieldMarks _).append (fieldMarks_hexPad _ _)).append (by decide)
  | _ => exact (by decide : FieldMarks [])

section Specs

variable {p : Char → Prop} (hp : ∀ c, frameMark c = true → p c)

include hp

theorem over_word {w : Text} (h : w.all wordChar = true) : Over p w :=
  fun c hc => hp c (by simp [frameMark, List.all_eq_true.mp h c hc])

theorem over_dec (n : ℕ) : Over p (dec n) := chars_dec fun c hc => hp c (by simp [frameMark, hc])

theorem over_hexPad (w n : ℕ) : Over p (hexPad w n) :=
  chars_hexPad fun c hc => hp c (by simp [frameMark, hc])

/-- A fixed text. -/
theorem over_lit {s : Text} (h : s.all frameMark = true) : Over p s :=
  fun c hc => hp c (List.all_eq_true.mp h c hc)

theorem over_keyShareText {label : Text} (h : IsName p label) (len : ℕ) :
    Over p (keyShareText label len) :=
  ((((over_lit hp (by decide)).append h.chars).append (over_lit hp (by decide))).append
    (over_dec hp _)).append (over_lit hp (by decide))

theorem over_note {t : UInt8} {note : Text} (h : IsNote p t note) : Over p note := by
  cases h with
  | clientHello len hl hc =>
    exact ((over_keyShareText hp hl len).append (over_lit hp (by decide))).append hc.chars
  | serverHello len hl hc =>
    exact ((over_keyShareText hp hl len).append (over_lit hp (by decide))).append hc.chars
  | emptyCertificate => exact over_lit hp (by decide)
  | certificate len hs =>
    exact ((((over_lit hp (by decide)).append hs.chars).append (over_lit hp (by decide))).append
      (over_dec hp _)).append (over_lit hp (by decide))
  | certificateVerify len hs =>
    exact (((over_lit hp (by decide)).append hs.chars).append (over_lit hp (by decide))).append
      ((over_dec hp _).append (over_lit hp (by decide)))

theorem over_fragment {f : Text} (h : IsFragment p f) : Over p f := by
  cases h with
  | annotated t hn =>
    exact (((over_word hp (all_tlsHandshakeFragmentName t)).append
      (over_lit hp (by decide))).append (over_note hp hn)).append (over_lit hp (by decide))
  | unknown t =>
    exact ((over_lit hp (by decide)).append (over_hexPad hp _ _)).append (over_lit hp (by decide))
  | plain hw => exact over_word hp hw

/-- The fields of a specification; those of a CRYPTO frame also have the braces. -/
theorem over_fields {spec : FrameSpec} (h : IsSpec p spec)
    (hb : (∃ fragments size, spec = .crypto fragments size) → p '\x7b' ∧ p '\x7d') :
    Over p spec.fields := by
  by_cases hcrypto : ∃ fragments size, spec = .crypto fragments size
  · obtain ⟨ho, hc⟩ := hb hcrypto
    obtain ⟨fragments, size, rfl⟩ := hcrypto
    have hblank : p ' ' := hp _ (by decide)
    have hopen : Over p " \x7b ".toList := by
      simpa [Over] using ⟨hblank, ho, hblank⟩
    have hclose : Over p " \x7d , ".toList := by
      simpa [Over] using ⟨hblank, hc, hblank, hp ',' (by decide), hblank⟩
    exact (hopen.append (over_intercalate (over_lit hp (by decide))
      fun f hf => over_fragment hp (h.2 f hf))).append hclose
  · exact (fieldMarks_fields hcrypto).mono fun c hc => hp c (frameMark_of_fieldMark hc)

theorem over_specText {spec : FrameSpec} (h : IsSpec p spec)
    (hb : (∃ fragments size, spec = .crypto fragments size) → p '\x7b' ∧ p '\x7d') :
    Over p spec.text :=
  (((((over_word hp (all_name spec)).append (over_lit hp (by decide))).append
    (over_fields hp h hb)).append (over_lit hp (by decide))).append (over_dec hp _)).append
      (over_lit hp (by decide))

end Specs

end PapQuic.Log.Chars
