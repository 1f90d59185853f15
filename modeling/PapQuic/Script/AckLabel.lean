import PapQuic.Wire.AckFrame
import PapQuic.Script.Frames

/-! # The ranges of an ACK frame in a diagram

The log prints the acknowledged ranges of an ACK frame between brackets, with commas between them.
`format_ack_frame` of `scripts/generate_packet_diagram.py` takes what follows `RANGE=` up to the
next comma. So the label of a frame with one range shows it, and that of a frame with several ranges
shows the first one only, and no closing bracket (`ackLabel_ranges_iff`). -/

namespace PapQuic.Script.AckLabel

open Lib.Printf Lib.Re Wire.Packet Wire.Frames Wire.FrameCodec Wire.AckFrame Log.Metadata
open Log.FrameList Log.Chars Log.Output Script.Frames

/-! ### What a label says -/

/-- The packet numbers in some ranges. -/
def numbers (ranges : List AckRange) : Set ℕ := {n | ∃ r ∈ ranges, r.start ≤ n ∧ n ≤ r.last}

/-- A range as it is printed: one number, or the first and the last one. -/
def readRange (t : Text) : AckRange :=
  match t.dropWhile isDec with
  | [] => ⟨ofDec t, ofDec t⟩
  | _ :: last => ⟨ofDec (t.takeWhile isDec), ofDec last⟩

/-- The ranges of a Range text. Brackets are not asked for. -/
def readRanges (t : Text) : List AckRange :=
  ((t.filter fun c => c ≠ '[' && c ≠ ']').splitOn ',').map readRange

example : readRanges "[9-12,7,1-4]".toList = [⟨9, 12⟩, ⟨7, 7⟩, ⟨1, 4⟩] := by decide +kernel

/-- What comes before a mark. -/
def upTo (mark : Text) : Text → Text
  | [] => []
  | c :: s => if mark <+: c :: s then [] else c :: upTo mark s

/-- The Range text of a label: what stands between `ACK(Range=` and the size. -/
def rangeText (label : Text) : Text :=
  upTo ", Size=".toList (label.drop "ACK(Range=".toList.length)

/-! ### Reading ranges -/

theorem readRange_ackRangeText (r : AckRange) : readRange (ackRangeText r) = r := by
  have hdec (n : ℕ) : ∀ c ∈ dec n, isDec c = true := fun c hc => isDec_of_mem_dec hc
  obtain ⟨start, last⟩ := r
  unfold ackRangeText readRange
  simp only
  split_ifs with h
  · have hdrop : (dec start).dropWhile isDec = [] := by
      simpa [List.dropWhile_eq_nil_iff] using hdec start
    simp only [hdrop, ofDec_dec, ← h]
  · have hdrop : (dec start ++ "-".toList ++ dec last).dropWhile isDec = '-' :: dec last := by
      rw [List.append_assoc, List.dropWhile_append_of_pos (hdec start)]
      rfl
    have htake : (dec start ++ "-".toList ++ dec last).takeWhile isDec = dec start := by
      rw [List.append_assoc]
      exact takeWhile_append (hdec start) (forall_head_append (by decide) (by decide) _)
    simp only [hdrop, htake, ofDec_dec]

/-- The characters of a printed range. -/
theorem over_range (r : AckRange) : Over (· ∈ "0123456789-".toList) (ackRangeText r) := by
  have hdec (n : ℕ) : Over (· ∈ "0123456789-".toList) (dec n) := fun c hc =>
    (by decide : ∀ c ∈ "0123456789".toList, c ∈ "0123456789-".toList) c
      (mem_digits (isDec_of_mem_dec hc))
  unfold ackRangeText
  split_ifs
  · exact hdec _
  · exact ((hdec _).append (by decide)).append (hdec _)

/-- A single range is read back, with the closing bracket or without it. -/
theorem readRanges_single (r : AckRange) {close : Text} (hclose : close = [] ∨ close = "]".toList) :
    readRanges ('[' :: (ackRangeText r ++ close)) = [r] := by
  have hr := over_range r
  have hfilter : ('[' :: (ackRangeText r ++ close)).filter (fun c => c ≠ '[' && c ≠ ']') =
      ackRangeText r := by
    rw [List.filter_cons_of_neg (by simp), List.filter_append, List.filter_eq_self.mpr]
    · rcases hclose with rfl | rfl <;> simp
    · exact hr.mono (by decide)
  have hsplit : (ackRangeText r).splitOn ',' = [ackRangeText r] :=
    List.splitOnP_eq_singleton (hr.mono (by decide))
  rw [readRanges, hfilter, hsplit, List.map_singleton, readRange_ackRangeText]

/-- What comes before a mark that starts with a character the text has not. -/
theorem upTo_append {m : Char} {mark rest : Text} : ∀ {s : Text}, m ∉ s →
    upTo (m :: mark) (s ++ (m :: mark ++ rest)) = s
  | [], _ => by
    rw [List.nil_append, List.cons_append, upTo, if_pos]
    exact List.cons_prefix_cons.mpr ⟨rfl, List.prefix_append _ _⟩
  | c :: s, h => by
    have hc : m ≠ c := fun e => h (by simp [e])
    rw [List.cons_append, upTo, if_neg (fun hp => hc (List.cons_prefix_cons.mp hp).1),
      upTo_append fun hm => h (by simp [hm])]

/-! ### The label -/

/-- The value of a field, when its name starts with a character that does not come before it. -/
theorem extractAttributeValue_field {key : String} {k : Char} {name : Text}
    (hkey : key.toList = k :: name) (before value after : Text)
    (hbefore : Over (fun c => c.toUpper ≠ k.toUpper) before) (hne : value ≠ [])
    (hvalue : Over (fun c => c ≠ ',' ∧ c ≠ ')') value)
    (hstart : ∀ c ∈ value.head?, isSpace c = false)
    (hafter : ∀ c ∈ after.head?, c = ',') (hstrip : strip value ≠ []) :
    extractAttributeValue (before ++ (key.toList ++ ('=' :: (value ++ after)))) key =
      some (strip value) := by
  unfold extractAttributeValue
  simp only
  rw [search_skip (p := fun c => c.toUpper ≠ k.toUpper) ?_ _ (by simpa [Over] using hbefore),
    search_of_matchStart (x := ([value], after))]
  · simp [hstrip]
  · refine matchStart_seq_nil (matchStart_litIgnoreCase _ _) ?_
    refine matchStart_seq_nil (matchStart_rep (w := []) (by simp) le_rfl
      (by simpa using (by decide : isSpace '=' = false))) ?_
    refine matchStart_seq_nil (matchStart_lit "=".toList _) ?_
    refine matchStart_seq_nil (matchStart_rep (w := []) (by simp) le_rfl ?_) ?_
    · obtain ⟨c, value, rfl⟩ := List.exists_cons_of_ne_nil hne
      simpa using hstart
    · refine matchStart_group (matchStart_rep (fun c hc => ?_) ?_ fun c hc => ?_)
      · simpa using hvalue c hc
      · exact List.length_pos_iff.mpr hne
      · simp [hafter c hc]
  · intro c s hc
    have hc : ¬ c.toUpper = k.toUpper := by simpa using hc
    simp [hkey, litIgnoreCase, hc]

/-- What is printed for the ranges and up to the size. -/
def rangesField (ranges : List AckRange) : Text :=
  packetLogFormatAckRanges ranges false ++ " , ".toList

theorem over_rangesField (ranges : List AckRange) :
    Over (fun c => c.toUpper ≠ 'S') (rangesField ranges) := by
  have hranges : Over (fun c => c.toUpper ≠ 'S') ([','].intercalate (ranges.map ackRangeText)) := by
    refine over_intercalate (by decide) fun t ht => ?_
    obtain ⟨r, -, rfl⟩ := List.mem_map.mp ht
    exact (over_range r).mono (by decide)
  unfold rangesField packetLogFormatAckRanges
  exact ((((by decide : Over _ "RANGE=[".toList).append hranges).append (by decide)).append
    (by decide)).append (by decide)

theorem shape_single (range size : Text) :
    "RANGE=[".toList ++ range ++ [] ++ "]".toList ++ " , ".toList ++ size = "RANGE".toList ++
      ('=' :: (('[' :: (range ++ "]".toList) ++ " ".toList) ++ ',' :: (" ".toList ++ size))) := by
  simp

theorem shape_several (range others size : Text) :
    "RANGE=[".toList ++ (range ++ [','] ++ others) ++ [] ++ "]".toList ++ " , ".toList ++ size =
      "RANGE".toList ++
        ('=' :: (('[' :: (range ++ []) ++ []) ++ ',' :: (others ++ "] , ".toList ++ size))) := by
  simp

/-- The first range, what closes the value that is taken for it, and what follows. -/
theorem rangesField_shape (r : AckRange) (ranges : List AckRange) (size : Text) :
    ∃ close blank after, (close = "]".toList ∧ ranges = [] ∨ close = [] ∧ ranges ≠ []) ∧
      (∀ c ∈ blank, c = ' ') ∧ rangesField (r :: ranges) ++ size =
        "RANGE".toList ++ ('=' ::
          (('[' :: (ackRangeText r ++ close) ++ blank) ++ ',' :: after)) := by
  rcases ranges with _ | ⟨r', ranges⟩
  · refine ⟨"]".toList, " ".toList, " ".toList ++ size, .inl ⟨rfl, rfl⟩, by decide, ?_⟩
    have hone : [','].intercalate ([r].map ackRangeText) = ackRangeText r := by simp
    have hfield : rangesField [r] =
        "RANGE=[".toList ++ ackRangeText r ++ [] ++ "]".toList ++ " , ".toList := by
      unfold rangesField packetLogFormatAckRanges
      rw [hone, if_neg Bool.false_ne_true]
    rw [hfield]
    exact shape_single _ _
  · refine ⟨[], [], [','].intercalate ((r' :: ranges).map ackRangeText) ++ "] , ".toList ++ size,
      .inr ⟨rfl, by simp⟩, by simp, ?_⟩
    have hfield : rangesField (r :: r' :: ranges) = "RANGE=[".toList ++ (ackRangeText r ++ [','] ++
        [','].intercalate ((r' :: ranges).map ackRangeText)) ++ [] ++ "]".toList ++
          " , ".toList := by
      unfold rangesField packetLogFormatAckRanges
      rw [if_neg Bool.false_ne_true, List.map_cons, List.map_cons, List.intercalate_cons_cons]
    rw [hfield]
    exact shape_several _ _ _

/-- What `FRAME_NAME_RE` finds in the specification of an ACK frame. -/
theorem matchStart_ack (ranges : List AckRange) (size : ℕ) :
    matchStart frameNameRe (FrameSpec.ack ranges false size).text =
      some (["ACK".toList, rangesField ranges ++ ("SIZE=".toList ++ (dec size ++ "B".toList))],
        []) := by
  have hline : Over LineChar (FrameSpec.ack ranges false size).text :=
    over_specText lineChar_of_frameMark trivial (by rintro ⟨_, _, h⟩; cases h)
  have htext : (FrameSpec.ack ranges false size).text = "ACK".toList ++ ("--(".toList ++
      ((rangesField ranges ++ ("SIZE=".toList ++ (dec size ++ "B".toList))) ++ [')'])) := by
    rw [specText_eq]
    change ("ACK".toList ++ "--".toList) ++ '(' :: ((rangesField ranges ++ "SIZE=".toList ++
      dec size ++ "B".toList) ++ [')']) = _
    generalize rangesField ranges = a
    generalize dec size = b
    simp
  rw [htext] at hline ⊢
  generalize rangesField ranges ++ ("SIZE=".toList ++ (dec size ++ "B".toList)) = body at hline ⊢
  change _ = some (["ACK".toList] ++ [body], [])
  refine matchStart_seq (matchStart_group (matchStart_rep (by decide) (by decide) ?_)) ?_
  · exact forall_head_append (by decide) (by decide) _
  · refine matchStart_seq_nil (matchStart_lit _ _)
      (matchStart_group_last (fun c hc => ?_) (by decide))
    simpa using (hline c (by simp [hc])).1

theorem summarizeFrame_ack (body : Text) :
    summarizeFrame "ACK".toList body = formatAckFrame body := by
  have hupper : "ACK".toList.map Char.toUpper = "ACK".toList := by decide
  unfold summarizeFrame
  rw [hupper]
  simp only
  rw [if_neg (by decide), if_neg (by decide), if_pos trivial]

theorem formatAckFrame_eq {body range size : Text}
    (hr : extractAttributeValue body "RANGE" = some range)
    (hs : extractAttributeValue body "SIZE" = some size) :
    formatAckFrame body = "ACK(".toList ++ ", ".toList.intercalate ["Range=".toList ++ range,
      "Size=".toList ++ size] ++ ")".toList := by
  unfold formatAckFrame
  rw [hr, hs]
  exact if_neg (by simp)

theorem shape_label (range size : Text) :
    "ACK(".toList ++ ", ".toList.intercalate ["Range=".toList ++ range,
        "Size=".toList ++ (size ++ "B".toList)] ++ ")".toList =
      "ACK(Range=".toList ++ range ++ (", Size=".toList ++ (size ++ "B)".toList)) := by
  rw [List.intercalate_cons_cons, List.intercalate_singleton]
  simp

/-- A value without spaces, with blanks and a comma after it. -/
theorem rangeValue {value blank : Text} (hne : value ≠ [])
    (hvalue : Over (· ∈ "0123456789-[]".toList) value) (hblank : ∀ c ∈ blank, c = ' ')
    (after : Text) :
    extractAttributeValue ("RANGE".toList ++ ('=' :: ((value ++ blank) ++ ',' :: after))) "RANGE" =
      some value := by
  have hspace : Over (isSpace · = false) value := hvalue.mono (by decide)
  have hstrip : strip (value ++ blank) = value := by
    have h := strip_append (w := []) (trimmed_of_forall hne hspace) (by simp) (v := blank)
      fun c hc => by rw [hblank c hc]; decide
    rwa [List.nil_append] at h
  have hfield := extractAttributeValue_field (rfl : "RANGE".toList = 'R' :: "ANGE".toList) []
    (value ++ blank) (',' :: after) (by decide) (by simp [hne]) ?_ ?_ (by simp) (by rwa [hstrip])
  · rwa [hstrip, List.nil_append] at hfield
  · exact (hvalue.mono (by decide)).append fun c hc => by rw [hblank c hc]; decide
  · exact forall_head_append hne hspace blank

theorem sizeValue (ranges : List AckRange) (size : ℕ) :
    extractAttributeValue
      (rangesField ranges ++ ("SIZE=".toList ++ (dec size ++ "B".toList))) "SIZE" =
        some (dec size ++ "B".toList) := by
  have hover : Over (· ∈ "0123456789B".toList) (dec size ++ "B".toList) := by
    refine Over.append (fun c hc => ?_) (by decide)
    exact (by decide : ∀ c ∈ "0123456789".toList, c ∈ "0123456789B".toList) c
      (mem_digits (isDec_of_mem_dec hc))
  have hne : dec size ++ "B".toList ≠ [] := by simp
  have hspace : Over (isSpace · = false) (dec size ++ "B".toList) := hover.mono (by decide)
  have hstrip := strip_of_trimmed (trimmed_of_forall hne hspace)
  have hfield := extractAttributeValue_field (rfl : "SIZE".toList = 'S' :: "IZE".toList)
    (rangesField ranges) (dec size ++ "B".toList) [] (over_rangesField ranges) hne
    (hover.mono (by decide)) ?_ (by simp) (by rwa [hstrip])
  · rwa [hstrip, List.append_nil] at hfield
  · exact fun c hc => hspace c (List.mem_of_mem_head? hc)

/-- The label of an ACK frame: the first range, and the closing bracket if it is the only one. -/
theorem shortForm_ack (r : AckRange) (ranges : List AckRange) (size : ℕ) :
    ∃ close, (close = "]".toList ∧ ranges = [] ∨ close = [] ∧ ranges ≠ []) ∧
      shortForm (FrameSpec.ack (r :: ranges) false size).text =
        "ACK(Range=".toList ++ ('[' :: (ackRangeText r ++ close)) ++
          (", Size=".toList ++ (dec size ++ "B)".toList)) := by
  obtain ⟨close, blank, after, hclose, hblank, hshape⟩ :=
    rangesField_shape r ranges ("SIZE=".toList ++ (dec size ++ "B".toList))
  refine ⟨close, hclose, ?_⟩
  have hover : Over (· ∈ "0123456789-[]".toList) ('[' :: (ackRangeText r ++ close)) := by
    have hc : Over (· ∈ "0123456789-[]".toList) close := by
      rcases hclose with ⟨rfl, -⟩ | ⟨rfl, -⟩ <;> decide
    exact Over.append (s := ['[']) (by decide) (((over_range r).mono (by decide)).append hc)
  have hrange := rangeValue (by simp) hover hblank after
  rw [← hshape] at hrange
  have hsize := sizeValue (r :: ranges) size
  have hseg := @segment_spec (FrameSpec.ack (r :: ranges) false size) trivial
  unfold shortForm
  rw [strip_of_trimmed hseg.trimmed, matchStart_ack]
  simp only
  rw [summarizeFrame_ack, formatAckFrame_eq hrange hsize]
  exact shape_label _ _

theorem rangeText_label {range size : Text} (h : ',' ∉ range) :
    rangeText ("ACK(Range=".toList ++ range ++ (", Size=".toList ++ size)) = range := by
  unfold rangeText
  rw [List.append_assoc, List.drop_left]
  exact upTo_append h

/-- What is read from the label is the first range. -/
theorem readRanges_label (r : AckRange) (ranges : List AckRange) (size : ℕ) :
    readRanges (rangeText (shortForm (FrameSpec.ack (r :: ranges) false size).text)) = [r] := by
  obtain ⟨close, hclose, hlabel⟩ := shortForm_ack r ranges size
  have hc : close = [] ∨ close = "]".toList := by
    rcases hclose with ⟨h, -⟩ | ⟨h, -⟩
    · exact .inr h
    · exact .inl h
  have hcomma : Over (· ≠ ',') ('[' :: (ackRangeText r ++ close)) := by
    refine Over.append (s := ['[']) (by decide) (((over_range r).mono (by decide)).append ?_)
    rcases hc with rfl | rfl <;> decide
  have htext := @rangeText_label _ (dec size ++ "B)".toList) fun h => hcomma ',' h rfl
  rw [hlabel, htext]
  exact readRanges_single r hc

/-! ### From the frame to the label -/

/-- The log prints all ranges of a frame with no more than 32. -/
theorem packetLogAppendFrameSpec_ack (f : Ack) (hn : f.acked.length ≤ packetLogMaxAckRanges)
    (lib : X509Lib) (event : EventKey) (alloc : Bool) (s : SpecState) (rest : Bytes) :
    packetLogAppendFrameSpec lib event alloc s (f.bytes ++ rest) =
      some (.ack f.acked false f.bytes.length, s, rest) := by
  have hdecode := decodeFrameAck_bytes f hn (by decide) rest
  have hpeek : ∃ t, peekFrameHeader (f.bytes ++ rest) = some t ∧ FrameKind.ofType t = .ack := by
    unfold Ack.bytes
    simp only [List.append_assoc]
    refine ⟨_, peek_vlintEncode (by split_ifs <;> decide) _, ?_⟩
    split_ifs <;> rfl
  obtain ⟨t, ht, hkind⟩ := hpeek
  have hframe : decodeLoggedFrame (f.bytes ++ rest) =
      some (.ack ⟨f.acked, f.acked.length⟩, rest) := by
    rw [decodeLoggedFrame, ht]
    simp only [hkind, hdecode]
    rfl
  have hlen : (f.bytes ++ rest).length - rest.length = f.bytes.length := by simp
  have hmore : decide (f.acked.length > f.acked.length) = false := by simp
  unfold packetLogAppendFrameSpec
  rw [hframe, Option.map_some]
  dsimp only
  rw [hlen]
  exact congrArg (fun more => some (FrameSpec.ack f.acked more f.bytes.length, s, rest)) hmore

/-- The packet numbers of the ranges after the first one are not in the first one. -/
theorem numbers_acked_iff (f : Ack) :
    numbers [⟨f.largest.value - f.first.value, f.largest.value⟩] = numbers f.acked ↔
      f.ranges = [] := by
  constructor
  · intro h
    rcases hr : f.ranges with _ | ⟨⟨gap, len⟩, ranges⟩
    · rfl
    · have hchain := f.descends
      rw [hr] at hchain
      obtain ⟨hgap, hlen, -⟩ := hchain
      have hgap : gap.value + 2 ≤ f.largest.value - f.first.value := hgap
      have hmem : f.largest.value - f.first.value - gap.value - 2 ∈ numbers f.acked := by
        refine ⟨⟨_ - len.value, _⟩, ?_, Nat.sub_le _ _, le_rfl⟩
        rw [Ack.acked, hr]
        exact List.mem_cons_of_mem _ List.mem_cons_self
      rw [← h] at hmem
      obtain ⟨r, hr, hle, -⟩ := hmem
      obtain rfl := List.mem_singleton.mp hr
      have hle : f.largest.value - f.first.value ≤ _ := hle
      omega
  · intro h
    rw [Ack.acked, h]
    rfl

/-- **The label of an ACK frame shows its ranges if and only if there is only one.** -/
theorem ackLabel_ranges_iff (f : Ack) (hn : f.acked.length ≤ packetLogMaxAckRanges)
    (lib : X509Lib) (event : EventKey) (alloc : Bool) (s : SpecState) (rest : Bytes) :
    ∃ spec, packetLogAppendFrameSpec lib event alloc s (f.bytes ++ rest) = some (spec, s, rest) ∧
      (readRanges (rangeText (shortForm spec.text)) = f.acked ↔ f.ranges = []) ∧
      (numbers (readRanges (rangeText (shortForm spec.text))) = numbers f.acked ↔
        f.ranges = []) := by
  refine ⟨_, packetLogAppendFrameSpec_ack f hn lib event alloc s rest, ?_⟩
  have hread :
      readRanges (rangeText (shortForm (FrameSpec.ack f.acked false f.bytes.length).text)) =
      [⟨f.largest.value - f.first.value, f.largest.value⟩] := readRanges_label _ _ _
  rw [hread]
  refine ⟨⟨fun h => (numbers_acked_iff f).mp (by rw [h]), fun h => ?_⟩, numbers_acked_iff f⟩
  rw [Ack.acked, h]
  rfl

/-- An ACK frame for the packets 0 to 4. -/
def ackOne : Ack where
  largest := minimal 4 (by decide)
  delay := minimal 0 (by decide)
  count := minimal 0 (by decide)
  first := minimal 4 (by decide)
  ranges := []
  ecn := none
  count_eq := rfl
  first_le := le_rfl
  descends := trivial

theorem ackLabel_ranges_one : ackOne.acked.length ≤ packetLogMaxAckRanges ∧ ∃ spec,
    packetLogAppendFrameSpec noX509 ⟨true, false, .initial⟩ true ⟨0, LogState.init⟩
      (ackOne.bytes ++ []) = some (spec, ⟨0, LogState.init⟩, []) ∧
    readRanges (rangeText (shortForm spec.text)) = [⟨0, 4⟩] := by
  refine ⟨by decide, ?_⟩
  obtain ⟨spec, hspec, h, -⟩ := ackLabel_ranges_iff ackOne (by decide) noX509
    ⟨true, false, .initial⟩ true ⟨0, LogState.init⟩ []
  exact ⟨spec, hspec, h.mpr rfl⟩

/-- An ACK frame for the packets 0, 1 and 4. -/
def ackTwo : Ack where
  largest := minimal 4 (by decide)
  delay := minimal 0 (by decide)
  count := minimal 1 (by decide)
  first := minimal 0 (by decide)
  ranges := [(minimal 1 (by decide), minimal 1 (by decide))]
  ecn := none
  count_eq := rfl
  first_le := Nat.zero_le _
  descends := ⟨by decide, by decide, trivial⟩

/-- The log prints both ranges, the label shows the first one. -/
theorem ackLabel_second_range_lost : ackTwo.acked = [⟨4, 4⟩, ⟨0, 1⟩] ∧
    (packetLogAppendFrameSpec noX509 ⟨true, false, .initial⟩ true ⟨0, LogState.init⟩
        ackTwo.bytes).map (fun r => (r.1.text, shortForm r.1.text)) =
      some ("ACK--(RANGE=[4,0-1] , SIZE=7B)".toList, "ACK(Range=[4, Size=7B)".toList) := by
  decide +kernel

end PapQuic.Script.AckLabel
