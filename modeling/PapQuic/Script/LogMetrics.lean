import PapQuic.Script.LogSums

/-! # The metrics of a log

`INTERNAL_PATTERN` takes everything of the form `name=1.5ms`. The items of INTERNAL lines that have
a value are written so. On packet lines there are equals signs too, in the fields of frames and in
the annotations of handshake messages; what comes after them is never a number of milliseconds
(`findall_internal_packet`). With the other patterns this gives the statistics of a whole log
(`parsePacketLog_log`). -/

namespace PapQuic.Script.LogMetrics

open Lib.Printf Lib.Double Lib.Re Lib.Scan Lib.Run Lib.TextFile Wire.Packet Wire.Frames Log.Names
open Log.Metadata Log.Handshake Log.Clock Log.FrameList Log.Lines Log.Notes Log.Chars
open Log.Output Script.PacketLine Script.ParseLog Script.LogStats
open Script.LogSums

/-! ### Values that are no milliseconds -/

theorem results_ms_nil {v rest : Text} {c : Char} (hv : 'm' ∉ v) (hc : isNum c = false)
    (hm : c = 'm' → v = []) : results msRe (v ++ c :: rest) = [] := by
  rw [msRe, results_rep_lit_eq_nil]
  rintro d hd hp ⟨t, ht⟩
  have he : d ++ 'm' :: 's' :: t = v ++ c :: rest := by simpa using ht
  rcases List.append_eq_append_iff.mp he with ⟨a, rfl, ha⟩ | ⟨a, rfl, ha⟩
  · rcases a with _ | ⟨e, a⟩
    · have hnil := hm (List.cons.inj ha).1.symm
      rw [List.append_nil] at hnil
      exact hd hnil
    · obtain ⟨rfl, -⟩ := List.cons.inj ha
      simp at hv
  · rcases a with _ | ⟨e, a⟩
    · rw [hm (List.cons.inj ha).1] at hd
      exact hd rfl
    · obtain ⟨rfl, -⟩ := List.cons.inj ha
      rw [hp c (by simp)] at hc
      cases hc

/-- A value that is no number of milliseconds, whatever follows. -/
def Mild (w : Text) : Prop :=
  ∀ c rest, isNum c = false → c ∉ "ms".toList → results msRe (w ++ c :: rest) = []

theorem mild_of_not_mem {w : Text} (h : 'm' ∉ w) : Mild w :=
  fun _ _ hc hm => results_ms_nil h hc fun he => absurd (by rw [he]; decide) hm

theorem mild_dec (n : ℕ) : Mild (dec n) := mild_of_not_mem (not_mem_dec (by decide))

/-- A value that does not start with a digit or a point. -/
theorem mild_cons {c : Char} (hc : isNum c = false) (w : Text) : Mild (c :: w) :=
  fun _ _ _ _ => results_ms_nil (v := []) (by simp) hc fun _ => rfl

theorem mild_hex (w : Text) : Mild ('0' :: 'x' :: w) := fun _ _ _ _ =>
  results_ms_nil (v := ['0']) (by decide) (by decide) fun he => absurd he (by decide)

/-- The names of a table start with a letter. -/
def Lettered (table : List NumName) : Prop :=
  ∀ e ∈ table, ∃ c ∈ e.2.toList.head?, isNum c = false

theorem mild_take {name : Text} (h : ∃ c ∈ name.head?, isNum c = false) {k : ℕ} (hk : 0 < k) :
    Mild (name.take k) := by
  obtain ⟨c, hc, hn⟩ := h
  obtain ⟨t, rfl⟩ := List.head?_eq_some_iff.mp hc
  obtain ⟨k, rfl⟩ := Nat.exists_eq_add_one.mpr hk
  exact mild_cons hn _

theorem lettered_nameOf {table : List NumName} (ht : Lettered table) {id : ℕ} {name : Text}
    (h : nameOf table id = some name) : ∃ c ∈ name.head?, isNum c = false := by
  obtain ⟨e, he, rfl⟩ := mem_nameOf h
  exact ht e he

theorem isNum_of_isAlpha {c : Char} (h : c.isAlpha = true) : isNum c = false := by
  by_contra hnum
  rw [Bool.not_eq_false, isNum, Bool.or_eq_true, decide_eq_true_eq] at hnum
  rcases hnum with hdigit | rfl
  · have hdigits : ∀ d ∈ "0123456789".toList, d.isAlpha = false := by decide
    rw [hdigits c (mem_digits hdigit)] at h
    cases h
  · cases h

theorem lettered_of_nameTable {m : ℕ} {table : List NumName} (h : NameTable m table) :
    Lettered table := by
  intro e he
  obtain ⟨c, hc, halpha⟩ := (Option.any_eq_true _ _).mp (h e he).1
  exact ⟨c, hc, isNum_of_isAlpha halpha⟩

theorem mild_unknown : Mild "UNKNOWN".toList := mild_cons (by decide) _

theorem Mild.of_lettered {name : Text} (h : ∃ c ∈ name.head?, isNum c = false) : Mild name := by
  have ht := mild_take h (k := name.length + 1) (by omega)
  rwa [List.take_of_length_le (by omega)] at ht

theorem mild_groupLabel {label : Text} (h : GroupLabel label) : Mild label := by
  rcases h with rfl | ⟨groupId, rfl⟩
  · exact mild_unknown
  · unfold formatGroupName
    split
    · rename_i name hname
      exact mild_take (lettered_nameOf (lettered_of_nameTable nameTable_kGroupNameMap) hname)
        (by omega)
    · exact mild_hex _

theorem mild_tlsCipherName (cipher : ℕ) : Mild (tlsCipherName cipher) := by
  unfold tlsCipherName
  rcases h : nameOf kCipherNameMap cipher with _ | name
  · exact mild_unknown
  · exact .of_lettered (lettered_nameOf (lettered_of_nameTable nameTable_kCipherNameMap) h)

theorem mild_tlsSigalgName (scheme : ℕ) : Mild (tlsSigalgName scheme 32) := by
  unfold tlsSigalgName
  rcases h : nameOf kSigAlgNameMap scheme with _ | name
  · exact mild_hex _
  · exact .of_lettered (lettered_nameOf (lettered_of_nameTable nameTable_kSigAlgNameMap) h)

/-- A name that is cut off is no number of milliseconds either. -/
theorem mild_prefix {v name : Text} (hv : v <+: name) (h : matchStart msRe name = none) :
    Mild v := by
  intro c rest hc hm
  rw [msRe, results_rep_lit_eq_nil]
  rintro d hd hp ⟨t, ht⟩
  have hnone := results_rep_lit_eq_nil.mp (List.head?_eq_none_iff.mp h) d hd hp
  have hmem : c ∉ d ++ "ms".toList := by
    rw [List.mem_append, not_or]
    refine ⟨fun hmem => ?_, hm⟩
    rw [hp c hmem] at hc
    cases hc
  exact hnone ((prefix_of_append_eq hmem ht).trans hv)

theorem mild_leafSigalg {lib : X509Lib} (h : StatNames lib) (leaf : Bytes) :
    Mild (leafSigalg lib leaf) := by
  unfold leafSigalg
  split
  · exact mild_unknown
  · split
    · rename_i name hname
      exact mild_prefix (List.take_prefix _ _) (h.start _ name hname)
    · exact mild_cons (by decide) _

/-! ### Annotations -/

/-- Text in which no number of milliseconds comes after an equals sign. -/
abbrev Still (s : Text) : Prop := Quiet '=' msRe s

theorem still_of_not_mem {s : Text} (h : '=' ∉ s) : Still s := quiet_of_not_mem h

/-- A name, an equals sign, a value, and a character that ends it. -/
theorem still_value {s w : Text} {c : Char} (hs : '=' ∉ s) (hw : '=' ∉ w) (hm : Mild w)
    (hc : isNum c = false ∧ c ∉ "=ms".toList) : Still (s ++ '=' :: (w ++ [c])) := by
  refine quiet_value hs ?_ fun rest => ?_
  · rw [List.mem_append, not_or]
    exact ⟨hw, fun h => hc.2 (by rw [← List.mem_singleton.mp h]; decide)⟩
  · rw [List.append_assoc]
    exact hm c rest hc.1 fun h => hc.2 (List.mem_cons_of_mem _ h)

theorem not_mem_of_isName {s : Text} (h : IsName StatChar s) : '=' ∉ s :=
  fun hm => h.chars _ hm (by decide)

theorem helloNote_shape (label sep cipher : Text) (len : ℕ) :
    keyShareText label len ++ (sep ++ ['=']) ++ cipher ++ ")".toList =
      "KeyShare".toList ++ '=' :: (label ++ ['(']) ++ ((dec len ++ "B)".toList ++ sep) ++
        '=' :: (cipher ++ [')'])) := by
  unfold keyShareText
  simp

theorem still_helloNote {label s : Text} (hl : GroupLabel label) (hs : '=' ∉ s) (len cipher : ℕ) :
    Still (keyShareText label len ++ (s ++ ['=']) ++ tlsCipherName cipher ++ ")".toList) := by
  have hlabel := not_mem_of_isName (isName_groupLabel (fun _ => statChar_of_wordChar) hl)
  have hcipher := not_mem_of_isName (isName_tlsCipherName (fun _ => statChar_of_wordChar) cipher)
  have hmid : '=' ∉ dec len ++ "B)".toList ++ s := by
    rw [List.mem_append, List.mem_append, not_or, not_or]
    exact ⟨⟨not_mem_dec (by decide), by decide⟩, hs⟩
  rw [helloNote_shape]
  exact (still_value (by decide) hlabel (mild_groupLabel hl) (by decide)).append
    (still_value hmid hcipher (mild_tlsCipherName cipher) (by decide))

theorem pairNote_shape (a v b d : Text) :
    a ++ ['='] ++ v ++ (' ' :: b ++ ['=']) ++ (d ++ "B".toList) ++ ")".toList =
      a ++ '=' :: (v ++ [' ']) ++ (b ++ '=' :: (d ++ ['B'])) ++ ")".toList := by
  simp

theorem still_pairNote {a v b : Text} (ha : '=' ∉ a) (hv : '=' ∉ v) (hm : Mild v) (hb : '=' ∉ b)
    (len : ℕ) : Still (a ++ ['='] ++ v ++ (' ' :: b ++ ['=']) ++ (dec len ++ "B".toList) ++
      ")".toList) := by
  rw [pairNote_shape]
  exact ((still_value ha hv hm (by decide)).append
    (still_value hb (not_mem_dec (by decide)) (mild_dec len) (by decide))).append
      (still_of_not_mem (by decide))

/-- **No annotation has a number of milliseconds in it.** -/
theorem still_note {lib : X509Lib} (h : StatNames lib) {t : UInt8} {note : Text}
    (hn : NoteOf lib t note) : Still (note ++ ")".toList) := by
  cases hn with
  | clientHello len cipher hl =>
    exact still_helloNote (s := " , Cipher[0]".toList) hl (by decide) len cipher
  | serverHello len cipher hl =>
    exact still_helloNote (s := " , Cipher".toList) hl (by decide) len cipher
  | emptyCertificate => exact still_of_not_mem (by decide)
  | certificate leaf =>
    have hs := not_mem_of_isName (isName_leafSigalg h.namesOf leaf)
    rw [List.append_assoc _ (dec _)]
    exact still_pairNote (a := "LeafSig".toList) (b := ",  Leaf".toList) (by decide) hs
      (mild_leafSigalg h leaf) (by decide) leaf.length
  | certificateVerify scheme len =>
    have hs := not_mem_of_isName (isName_tlsSigalgName (fun _ => statChar_of_wordChar) scheme)
    exact still_pairNote (a := "Algorithm".toList) (b := ", Signature".toList) (by decide) hs
      (mild_tlsSigalgName scheme) (by decide) len

/-- The annotations in the table, and the labels. -/
def StillTable (tls : TlsMetadata) : Prop :=
  Annotated StatChar tls ∧ Noted (fun _ note => Still (note ++ ")".toList)) tls

theorem not_mem_hexPad (w n : ℕ) : '=' ∉ hexPad w n := fun hm =>
  chars_hexPad (p := (· ≠ '=')) (by rintro c hc rfl; revert hc; decide) _ hm rfl

theorem still_word {w : Text} (h : w.all wordChar = true) : Still w :=
  still_of_not_mem fun hm => absurd (List.all_eq_true.mp h _ hm) (by decide)

theorem kept_still {lib : X509Lib} (h : StatNames lib) : Kept lib StillTable Still where
  process t body htable := ⟨annotated_process h.namesOf htable.1 t body,
    noted_process (fun _ _ hn => still_note h hn) htable.2 t body⟩
  emit {tls} t noted htable := by
    have hname : '=' ∉ tlsHandshakeFragmentName t := fun hm =>
      absurd (List.all_eq_true.mp (all_tlsHandshakeFragmentName t) _ hm) (by decide)
    rw [emit_eq htable.1]
    rcases hs : slotNote tls t with _ | note
    · unfold fragmentText
      split_ifs
      · refine still_of_not_mem ?_
        rw [List.mem_append, List.mem_append, not_or, not_or]
        exact ⟨⟨by decide, not_mem_hexPad _ _⟩, by decide⟩
      · exact still_of_not_mem hname
    · have hopen : '=' ∉ tlsHandshakeFragmentName t ++ "(".toList := by
        rw [List.mem_append, not_or]
        exact ⟨hname, by decide⟩
      rw [fragmentText, List.append_assoc]
      exact (still_of_not_mem hopen).append (htable.2 t note hs).1
  word := still_word

theorem stillTable_noMetadata : StillTable noMetadata :=
  ⟨annotated_noMetadata _, noted_noMetadata _⟩

/-! ### Packet lines -/

theorem still_ackRangeText (r : AckRange) : Still (ackRangeText r) := by
  refine still_of_not_mem ?_
  unfold ackRangeText
  split_ifs
  · exact not_mem_dec (by decide)
  · rw [List.mem_append, List.mem_append, not_or, not_or]
    exact ⟨⟨not_mem_dec (by decide), by decide⟩, not_mem_dec (by decide)⟩

/-- A number as the value of a field, up to the blank after it. -/
theorem still_number {s : Text} (hs : '=' ∉ s) (n : ℕ) : Still (s ++ '=' :: (dec n ++ [' '])) :=
  still_value hs (not_mem_dec (by decide)) (mild_dec n) (by decide)

theorem streamFields_shape (d f : Text) :
    "ID=".toList ++ d ++ (' ' :: f) ++ " , ".toList =
      "ID".toList ++ '=' :: (d ++ [' ']) ++ (f ++ " , ".toList) := by
  simp

theorem number_shape (s d : Text) : s ++ ['='] ++ d ++ " , ".toList =
    s ++ '=' :: (d ++ [' ']) ++ ", ".toList := by
  simp

theorem still_numberField {s : Text} (hs : '=' ∉ s) (n : ℕ) :
    Still (s ++ ['='] ++ dec n ++ " , ".toList) := by
  rw [number_shape]
  exact (still_number hs n).append (still_of_not_mem (by decide))

theorem hex_shape (s d : Text) : s ++ "=0x".toList ++ d ++ " , ".toList =
    s ++ '=' :: (['0'] ++ ['x']) ++ (d ++ " , ".toList) := by
  simp

theorem still_hexField {s : Text} (hs : '=' ∉ s) (w n : ℕ) :
    Still (s ++ "=0x".toList ++ hexPad w n ++ " , ".toList) := by
  rw [hex_shape]
  exact (still_value hs (by decide) (mild_of_not_mem (by decide)) (by decide)).append
    ((still_of_not_mem (not_mem_hexPad w n)).append (still_of_not_mem (by decide)))

theorem still_fields {spec : FrameSpec} (h : SpecOf Still spec) : Still spec.fields := by
  cases spec with
  | ack ranges more size =>
    have hopen : Still ("RANGE".toList ++ '=' :: ([] ++ ['['])) :=
      still_value (by decide) (by decide) (mild_of_not_mem (by decide)) (by decide)
    have hranges : ∀ s ∈ ranges.map ackRangeText, Still s := by
      intro s hs
      obtain ⟨r, -, rfl⟩ := List.mem_map.mp hs
      exact still_ackRangeText r
    have hmore : Still (if more then ",...".toList else []) := by
      split_ifs <;> exact still_of_not_mem (by decide)
    exact (((hopen.append (quiet_intercalate (still_of_not_mem (by decide)) hranges)).append
      hmore).append (still_of_not_mem (by decide))).append (still_of_not_mem (by decide))
  | crypto fragments size =>
    exact ((still_of_not_mem (by decide)).append (quiet_intercalate (still_of_not_mem (by decide))
      h.2)).append (still_of_not_mem (by decide))
  | stream id fin size =>
    cases fin with
    | false =>
      change Still ("ID".toList ++ ['='] ++ dec id ++ [] ++ " , ".toList)
      rw [List.append_nil]
      exact still_numberField (by decide) id
    | true =>
      change Still ("ID=".toList ++ dec id ++ (' ' :: (", FIN".toList ++ ['='] ++ dec 1)) ++
          " , ".toList)
      rw [streamFields_shape]
      exact (still_number (by decide) id).append (still_numberField (by decide) 1)
  | newConnId seq size => exact still_numberField (s := "SEQ".toList) (by decide) seq
  | connClose error size => exact still_hexField (s := "ERROR".toList) (by decide) 4 error
  | unknown frameType size => exact still_hexField (s := "TYPE".toList) (by decide) 2 frameType
  | _ => exact quiet_nil

theorem size_shape (d : Text) : "SIZE=".toList ++ d ++ "B)".toList =
    "SIZE".toList ++ '=' :: (d ++ ['B']) ++ ")".toList := by
  simp

theorem still_spec {spec : FrameSpec} (h : SpecOf Still spec) : Still spec.text := by
  have hsize : Still ("SIZE=".toList ++ dec spec.size ++ "B)".toList) := by
    rw [size_shape]
    exact (still_value (by decide) (not_mem_dec (by decide)) (mild_dec _) (by decide)).append
      (still_of_not_mem (by decide))
  have hall := (((still_word (all_name spec)).append (still_of_not_mem (s := "--(".toList)
    (by decide))).append (still_fields h)).append hsize
  unfold FrameSpec.text
  simpa only [List.append_assoc] using hall

/-- **No packet line has a number of milliseconds after an equals sign.** -/
theorem findall_internal_packet {l : PacketLine} (h : ∀ spec ∈ l.specs, SpecOf Still spec) :
    findall internalPattern (Line.packet l).text = [] := by
  have hframes : ∀ f ∈ l.frames, Still f :=
    l.forall_frames (fun spec hs => still_spec (h spec hs)) (still_of_not_mem (by decide))
  have hall : Still (Line.packet l).text := by
    rw [packetText_eq]
    exact ((((still_of_not_mem (not_mem_before (by decide) (by decide) l)).append
      (still_of_not_mem (by decide))).append (quiet_intercalate (still_of_not_mem (by decide))
        hframes)).append (still_of_not_mem (by decide))).append
          (still_of_not_mem (not_mem_after (by decide) (by decide) l))
  exact findallN_nil (search_led_eq_none hall.unled) _

/-! ### INTERNAL lines -/

/-- What is found in an item. -/
def itemFound : Item → List (List Text)
  | .metric m (some value) => [[m.name.toList, fprintf 0 3 (quicTimingToMs value)]]
  | .handshakeLatency (some us) => [["handshakeLatency".toList, fprintf 0 2 (fl (fl us / 1000))]]
  | _ => []

theorem isNum_of_isDec {c : Char} (h : isDec c = true) : isNum c = true := by simp [isNum, h]

theorem fprintf_eq (max : ℕ) (value : ℚ) : ∃ i f, fprintf 0 max value = decimal i max f := by
  refine ⟨(roundEven (value * 10 ^ max)).toNat / 10 ^ max,
    (roundEven (value * 10 ^ max)).toNat % 10 ^ max, ?_⟩
  simp [fprintf, padLeft]

theorem num_fprintf (max : ℕ) (value : ℚ) : Over (isNum · = true) (fprintf 0 max value) := by
  obtain ⟨i, f, he⟩ := fprintf_eq max value
  rw [he]
  exact over_decimal (fun _ => isNum_of_isDec) (by decide) i max f

theorem fprintf_ne_nil (max : ℕ) (value : ℚ) : fprintf 0 max value ≠ [] := by
  obtain ⟨i, f, he⟩ := fprintf_eq max value
  rw [he]
  simp [decimal]

theorem matchStart_metric {name v : Text} (hn : name ≠ [])
    (hname : ∀ c ∈ name, Char.isAlphanum c = true)
    (hv : v ≠ []) (hnum : Over (isNum · = true) v) (rest : Text) :
    matchStart internalPattern (name ++ ("=".toList ++ (v ++ ("ms".toList ++ rest)))) =
      some ([name, v], rest) := by
  have hvalue : matchStart msRe (v ++ ("ms".toList ++ rest)) = some ([v], rest) :=
    matchStart_seq (matchStart_group (matchStart_rep hnum (List.length_pos_iff.mpr hv)
      (by simp; decide))) (matchStart_lit _ _)
  exact matchStart_seq (matchStart_group (matchStart_rep hname (List.length_pos_iff.mpr hn)
    (by simp))) (matchStart_seq_nil (matchStart_lit _ _) hvalue)

theorem metricName_chars (m : Metric) : m.name.toList ≠ [] ∧
    ∀ c ∈ m.name.toList, Char.isAlphanum c = true := by
  cases m <;> (unfold Metric.name; decide)

theorem item_shape (name v rest : Text) :
    name ++ "=".toList ++ v ++ "ms".toList ++ rest =
      name ++ ("=".toList ++ (v ++ ("ms".toList ++ rest))) := by
  simp only [List.append_assoc]

theorem matchStart_item {i : Item} {groups : List Text} (h : itemFound i = [groups]) (rest : Text) :
    matchStart internalPattern (i.text ++ rest) = some (groups, rest) := by
  match i, h with
  | .metric m (some value), h =>
    obtain rfl : [m.name.toList, fprintf 0 3 (quicTimingToMs value)] = groups :=
      List.head_eq_of_cons_eq h
    change matchStart internalPattern (m.name.toList ++ "=".toList ++ _ ++ "ms".toList ++ rest) = _
    rw [item_shape]
    exact matchStart_metric (metricName_chars m).1 (metricName_chars m).2 (fprintf_ne_nil 3 _)
      (num_fprintf 3 _) rest
  | .handshakeLatency (some us), h =>
    obtain rfl : ["handshakeLatency".toList, fprintf 0 2 (fl (fl us / 1000))] = groups :=
      List.head_eq_of_cons_eq h
    change matchStart internalPattern ("handshakeLatency".toList ++ "=".toList ++ _ ++
        "ms".toList ++
      rest) = _
    rw [item_shape]
    exact matchStart_metric (by decide) (by decide) (fprintf_ne_nil 2 _) (num_fprintf 2 _) rest

/-- Text that ends an item. -/
def Ends (rest : Text) : Prop := ∀ c ∈ rest.head?, Char.isAlphanum c = false ∧ c ≠ '='

theorem search_item {i : Item} (h : itemFound i = []) {rest : Text} (hrest : Ends rest) :
    search internalPattern (i.text ++ rest) = search internalPattern rest := by
  refine search_led_append hrest fun a b he => ?_
  have hword : ∃ s v, i.text = s ++ '=' :: v ∧ '=' ∉ s ∧ '=' ∉ v ∧ ∃ c ∈ v.head?,
      isNum c = false := by
    match i, h with
    | .metric m none, _ =>
      refine ⟨m.name.toList, "N/A".toList, rfl, fun hm => ?_, by decide, 'N', by decide, by decide⟩
      exact absurd ((metricName_chars m).2 _ hm) (by decide)
    | .handshakeLatency none, _ =>
      exact ⟨"handshakeLatency".toList, "N/A".toList, rfl, by decide, by decide, 'N', by decide,
        by decide⟩
    | .serverCreditUnlimited, _ =>
      exact ⟨"serverCreditState".toList, "UNLIMITED".toList, rfl, by decide, by decide,
        'U', by decide, by decide⟩
  obtain ⟨s, v, hi, hs, hv, c, hc, hnum⟩ := hword
  -- the item has one equals sign
  have ha : '=' ∉ a := by
    have hcount := congrArg (List.count '=') (hi.symm.trans he)
    rw [List.count_append, List.count_append, List.count_cons_self, List.count_cons_self,
      List.count_eq_zero.mpr hs, List.count_eq_zero.mpr hv] at hcount
    exact List.count_eq_zero.mp (by omega)
  obtain ⟨-, rfl⟩ := cut_eq hs ha (hi.symm.trans he)
  obtain ⟨v, rfl⟩ := List.head?_eq_some_iff.mp hc
  exact results_ms_nil (v := []) (by simp) hnum fun _ => rfl

theorem itemFound_cases (i : Item) : itemFound i = [] ∨ ∃ groups, itemFound i = [groups] := by
  match i with
  | .metric m (some value) => exact .inr ⟨_, rfl⟩
  | .handshakeLatency (some us) => exact .inr ⟨_, rfl⟩
  | .metric m none => exact .inl rfl
  | .handshakeLatency none => exact .inl rfl
  | .serverCreditUnlimited => exact .inl rfl

/-- An item in front of a text. -/
theorem findallN_item (i : Item) {rest : Text} (hrest : Ends rest) {found : List (List Text)}
    (h : ∀ k, findallN internalPattern (k + found.length) rest = found) (k : ℕ) :
    findallN internalPattern (k + (itemFound i ++ found).length) (i.text ++ rest) =
      itemFound i ++ found := by
  rcases itemFound_cases i with hi | ⟨groups, hi⟩ <;> rw [hi]
  · rw [findallN_congr (search_item hi hrest)]
    exact h k
  · rw [List.length_append, List.length_singleton, Nat.add_comm 1, ← Nat.add_assoc, findallN,
      search_of_matchStart (matchStart_item hi rest)]
    exact congrArg (groups :: ·) (h k)

/-- The items after the first one. -/
def moreItems (items : List Item) : Text := (items.map fun i => " | ".toList ++ i.text).flatten

theorem ends_moreItems : ∀ items, Ends (moreItems items)
  | [] => by simp [Ends, moreItems]
  | i :: items => by
    intro c hc
    obtain rfl : ' ' = c := by simpa [moreItems] using hc
    decide

theorem search_blanks {w : Text} (hw : ∀ c ∈ w, (!Char.isAlphanum c) = true) (s : Text) :
    search internalPattern (w ++ s) = search internalPattern s := by
  refine search_skip (p := fun c => !Char.isAlphanum c) ?_ s hw
  exact ((rejects_rep (fun c hc => by simpa using hc) 0).group).seq _

theorem findallN_moreItems : ∀ (items : List Item) (k : ℕ),
    findallN internalPattern (k + (items.flatMap itemFound).length) (moreItems items) =
      items.flatMap itemFound
  | [], k => findallN_nil (by decide) _
  | i :: items, k => by
    have he : moreItems (i :: items) = " | ".toList ++ (i.text ++ moreItems items) := by
      simp [moreItems]
    rw [he, findallN_congr (search_blanks (by decide) _), List.flatMap_cons]
    exact findallN_item i (ends_moreItems items) (findallN_moreItems items) k

theorem findallN_itemsText (items : List Item) (k : ℕ) :
    findallN internalPattern (k + (items.flatMap itemFound).length) (itemsText items) =
      items.flatMap itemFound := by
  rcases items with _ | ⟨i, items⟩
  · exact findallN_nil (by decide) _
  · have he : itemsText (i :: items) = " ".toList ++ (i.text ++ moreItems items) := by
      rw [itemsText, List.append_assoc]
      rfl
    rw [he, findallN_congr (search_blanks (by decide) _), List.flatMap_cons]
    exact findallN_item i (ends_moreItems items) (findallN_moreItems items) k

theorem length_itemFound_le (i : Item) : (itemFound i).length ≤ 1 := by
  rcases itemFound_cases i with h | ⟨_, h⟩ <;> simp [h]

theorem length_found_le (items : List Item) :
    (items.flatMap itemFound).length ≤ (itemsText items).length := by
  have hmore : ∀ items : List Item, (items.flatMap itemFound).length ≤
      (moreItems items).length := by
    intro items
    induction items with
    | nil => simp
    | cons i items ih =>
      have h1 := length_itemFound_le i
      have he : moreItems (i :: items) = " | ".toList ++ (i.text ++ moreItems items) := by
        simp [moreItems]
      rw [he, List.flatMap_cons, List.length_append, List.length_append, List.length_append,
        show " | ".toList.length = 3 by decide]
      omega
  rcases items with _ | ⟨i, items⟩
  · simp
  · have h1 := length_itemFound_le i
    have h2 := hmore items
    rw [itemsText, List.flatMap_cons, List.length_append, List.length_append, List.length_append,
      show " ".toList.length = 1 by decide]
    change _ ≤ 1 + _ + (moreItems items).length
    omega

theorem internalText_eq (l : InternalLine) :
    ∃ head, (Line.internal l).text = head ++ itemsText l.items ∧ '=' ∉ head := by
  have hlabel : Heads l.label.text.toList := by cases l.label <;> (unfold Label.text; decide)
  refine ⟨stampPart (.internal l) ++ rolePart (.internal l) ++
    ("[".toList ++ l.label.text.toList ++ "]".toList), ?_, ?_⟩
  · rw [text_parts]
    change _ ++ l.rest = _
    rw [InternalLine.rest]
    simp only [List.append_assoc]
  · exact not_mem_heads (((heads_stampPart _).append (heads_rolePart _)).append
      (((by decide : Heads _).append hlabel).append (by decide))) (by decide)

theorem ends_itemsText (items : List Item) : Ends (itemsText items) := by
  rcases items with _ | ⟨i, items⟩
  · simp [Ends, itemsText]
  · intro c hc
    obtain rfl : ' ' = c := by simpa [itemsText] using hc
    decide

/-- **The metrics of an INTERNAL line.** -/
theorem findall_internal (l : InternalLine) :
    findall internalPattern (Line.internal l).text = l.items.flatMap itemFound := by
  obtain ⟨head, he, hhead⟩ := internalText_eq l
  have hsearch : search internalPattern (head ++ itemsText l.items) =
      search internalPattern (itemsText l.items) :=
    search_led_append (ends_itemsText l.items) fun a b hab => absurd (by simp [hab]) hhead
  rw [he]
  refine findall_of_findallN (n := (l.items.flatMap itemFound).length) (fun k => ?_) ?_
  · rw [findallN_congr hsearch]
    exact findallN_itemsText l.items k
  · rw [List.length_append]
    exact le_add_left (length_found_le l.items)

/-! ### The internals -/

theorem floatOf_fprintf (max : ℕ) (value : ℚ) :
    floatOf (fprintf 0 max value) = some (float (fprintf 0 max value)) := by
  obtain ⟨i, f, he⟩ := fprintf_eq max value
  have hdec (n : ℕ) : (dec n).count '.' = 0 := List.count_eq_zero.mpr (not_mem_dec (by decide))
  have hzero (n : ℕ) : (List.replicate n '0').count '.' = 0 := by
    rw [List.count_replicate]
    rfl
  have hcount : (decimal i max f).count '.' ≤ 1 := by
    simp only [decimal, List.count_append, hdec, hzero]
    decide
  have hdigit : ∃ c ∈ decimal i max f, isDec c = true := by
    obtain ⟨c, hc⟩ := List.exists_mem_of_ne_nil _ (dec_ne_nil f)
    exact ⟨c, by simp [decimal, hc], isDec_of_mem_dec hc⟩
  rw [floatOf, he, if_pos ⟨hcount, hdigit⟩]

theorem lastOf_concat (values : List (Text × ℚ)) (key : Text) (v : ℚ) :
    lastOf (values ++ [(key, v)]) = Function.update (lastOf values) key (some v) := by
  funext name
  by_cases hn : name = key
  · subst hn
    simp [lastOf]
  · simp [lastOf, hn, Ne.symm hn]

theorem setInternal_value (key : Text) (max : ℕ) (value : ℚ) {values : List (Text × ℚ)}
    {stats : PacketStats} (h : stats.internals = lastOf values) :
    [[key, fprintf 0 max value]].foldlM setInternal stats =
      some { stats with internals := lastOf (values ++ [(key, float (fprintf 0 max value))]) } := by
  simp [setInternal, floatOf_fprintf, lastOf_concat, h]

theorem setInternal_item (i : Item) {values : List (Text × ℚ)} {stats : PacketStats}
    (h : stats.internals = lastOf values) :
    (itemFound i).foldlM setInternal stats =
      some { stats with internals := lastOf (values ++ (printedValue i).toList) } := by
  match i with
  | .metric m (some value) => exact setInternal_value _ 3 _ h
  | .handshakeLatency (some us) => exact setInternal_value _ 2 _ h
  | .metric m none => simp [itemFound, printedValue, ← h]
  | .handshakeLatency none => simp [itemFound, printedValue, ← h]
  | .serverCreditUnlimited => simp [itemFound, printedValue, ← h]

theorem setInternal_items : ∀ (items : List Item) (values : List (Text × ℚ)) (stats : PacketStats),
    stats.internals = lastOf values → (items.flatMap itemFound).foldlM setInternal stats =
      some { stats with internals := lastOf (values ++ items.filterMap printedValue) }
  | [], values, stats, h => by simp [← h]
  | i :: items, values, stats, h => by
    rw [List.flatMap_cons, List.foldlM_append, setInternal_item i h]
    refine (setInternal_items items _ _ rfl).trans ?_
    rw [List.append_assoc]
    cases hv : printedValue i <;> simp [hv]

/-! ### A line, and the log -/

theorem not_mem_item (i : Item) : '[' ∉ i.text := by
  have hname (m : Metric) : '[' ∉ m.name.toList := fun hm =>
    absurd ((metricName_chars m).2 _ hm) (by decide)
  have hnum (max : ℕ) (value : ℚ) : '[' ∉ fprintf 0 max value := fun hm =>
    absurd (num_fprintf max value _ hm) (by decide)
  match i with
  | .metric m (some value) =>
    change '[' ∉ m.name.toList ++ "=".toList ++ fprintf 0 3 _ ++ "ms".toList
    simp only [List.mem_append, not_or]
    exact ⟨⟨⟨hname m, by decide⟩, hnum _ _⟩, by decide⟩
  | .handshakeLatency (some us) =>
    change '[' ∉ "handshakeLatency=".toList ++ fprintf 0 2 _ ++ "ms".toList
    simp only [List.mem_append, not_or]
    exact ⟨⟨by decide, hnum _ _⟩, by decide⟩
  | .metric m none =>
    change '[' ∉ m.name.toList ++ "=N/A".toList
    rw [List.mem_append, not_or]
    exact ⟨hname m, by decide⟩
  | .handshakeLatency none => exact (by decide : '[' ∉ "handshakeLatency=N/A".toList)
  | .serverCreditUnlimited => exact (by decide : '[' ∉ "serverCreditState=UNLIMITED".toList)

theorem not_mem_itemsText (items : List Item) : '[' ∉ itemsText items := by
  rcases items with _ | ⟨i, items⟩
  · exact List.not_mem_nil
  · rw [itemsText_eq]
    have hover : Over (· ≠ '[') (" | ".toList.intercalate ((i :: items).map Item.text)) := by
      refine over_intercalate (by decide) fun t ht => ?_
      obtain ⟨j, -, rfl⟩ := List.mem_map.mp ht
      rintro c hc rfl
      exact not_mem_item j hc
    rw [List.mem_append, not_or]
    exact ⟨by decide, fun hm => hover _ hm rfl⟩

theorem search_datagram_internal (l : InternalLine) :
    search datagramSentPattern (Line.internal l).text = none := by
  have hlabel : Unsent ("[".toList ++ l.label.text.toList ++ "]".toList) := by
    cases l.label <;> (unfold Label.text; decide)
  have hkind : (Line.internal l).kind ≠ "SENT" := (by decide : "INTERNAL" ≠ "SENT")
  rw [text_parts]
  exact Unsent.search_eq_none (((unsent_stampPart _).append (unsent_rolePart hkind)).append
    (hlabel.append (unsent_of_not_mem (not_mem_itemsText l.items))))

theorem strip_line (l : Line) : strip (l.text ++ ['\n']) = l.text :=
  strip_append (w := []) (trimmed_text l) (by simp) (by decide)

/-! ### The log -/

theorem datagramBytes_append (a b : List PacketLine) :
    datagramBytes (a ++ b) = datagramBytes a + datagramBytes b := by
  simp [datagramBytes]

theorem frameBytes_append (name : String) (a b : List PacketLine) :
    frameBytes name (a ++ b) = frameBytes name a + frameBytes name b := by
  simp [frameBytes]

/-- What a line that is sent adds. -/
theorem statsOf_sent (log : List Line) {l : PacketLine} (h : l.event.isSend = true) :
    statsOf (log ++ [.packet l]) =
      let stats := countOf l.event.packetType l.event.datagramSize { statsOf log with
        packetsSent := (statsOf log).packetsSent + 1
        bytesSent := (statsOf log).bytesSent + l.event.datagramSize }
      { stats with
        cryptoBytesSent := stats.cryptoBytesSent + frameBytes "CRYPTO" [l]
        paddingBytesSent := stats.paddingBytesSent + frameBytes "PADDING" [l] } := by
  have hsent : (log ++ [Line.packet l]).filterMap sentOf = log.filterMap sentOf ++ [l] := by
    simp [sentOf, h]
  have hvalues : (log ++ [Line.packet l]).flatMap printedValues = log.flatMap printedValues := by
    simp [printedValues]
  have hof (t : PktType) : ofType t (log.filterMap sentOf ++ [l]) =
      ofType t (log.filterMap sentOf) ++ ofType t [l] := List.filter_append _ _
  simp only [statsOf, hsent, hvalues, hof, datagramBytes_append, frameBytes_append,
    List.length_append, List.length_singleton]
  rcases ht : l.event.packetType with _ | t
  · simp [countOf, ofType, ht, datagramBytes]
  · cases t <;> simp [countOf, countType, ofType, ht, datagramBytes]

/-- A packet line that is not sent adds nothing. -/
theorem statsOf_received (log : List Line) {l : PacketLine} (h : l.event.isSend = false) :
    statsOf (log ++ [.packet l]) = statsOf log := by
  simp [statsOf, sentOf, printedValues, h]

/-- What an INTERNAL line adds. -/
theorem statsOf_internal (log : List Line) (l : InternalLine) :
    statsOf (log ++ [.internal l]) = { statsOf log with
      internals := lastOf (log.flatMap printedValues ++ l.items.filterMap printedValue) } := by
  have hsent : (log ++ [Line.internal l]).filterMap sentOf = log.filterMap sentOf := by
    simp [sentOf]
  simp [statsOf, hsent, printedValues]

/-- What is known of a line of the log. -/
def Good : Line → Prop
  | .packet l => Clear l ∧ ∀ spec ∈ l.specs, SpecOf Still spec
  | .internal _ => True

/-- **One line.** -/
theorem addStats_line (log : List Line) {l : Line} (h : Good l) :
    addStats (statsOf log) (l.text ++ ['\n']) = some (statsOf (log ++ [l])) := by
  rw [addStats, strip_line]
  cases l with
  | packet l =>
    obtain ⟨hclear, hstill⟩ := h
    rw [findall_internal_packet hstill, addSent]
    rcases hs : l.event.isSend with _ | _
    · rw [search_datagram_received hclear hs, statsOf_received log hs]
      rfl
    · obtain ⟨rest, hd⟩ := search_datagram_sent hs
      rw [hd]
      dsimp only
      rw [ofDec_dec, addType_line hclear, addFrames_line hclear, statsOf_sent log hs]
      rfl
  | internal l =>
    rw [findall_internal, addSent, search_datagram_internal, statsOf_internal]
    exact setInternal_items l.items _ _ rfl

theorem parsePacketLog_lines {log : List Line} (h : ∀ l ∈ log, Good l)
    (hline : ∀ l ∈ log, IsLine LineChar l) :
    parsePacketLog (some (writeLines (log.map Line.text))) = some (statsOf log) := by
  have hrun : ∀ (rest done : List Line), (∀ l ∈ rest, Good l) →
      (rest.map fun l => l.text ++ ['\n']).foldlM addStats (statsOf done) =
        some (statsOf (done ++ rest)) := by
    intro rest
    induction rest with
    | nil => intro done _; simp
    | cons l rest ih =>
      intro done hrest
      rw [List.map_cons, List.foldlM_cons, addStats_line done (hrest l (by simp))]
      refine (ih _ fun m hm => hrest m (by simp [hm])).trans ?_
      rw [List.append_assoc, List.singleton_append]
  rw [parsePacketLog, readLines_log hline]
  exact hrun log [] h

theorem good_run {lib : X509Lib} (hlib : StatNames lib) (steps : List SessionStep) :
    ∀ l ∈ (run (Session.step lib) .new steps).lines, Good l ∧ IsLine LineChar l := by
  have hnames (o : Char) (ho : o ∈ ":=\n\r".toList) : NamesOf (· ≠ o) lib := by
    refine ⟨fun c hc he => ?_, fun nid name hn c hc he => ?_⟩
    · exact statChar_of_wordChar hc (he ▸ ho)
    · exact hlib.chars nid name hn c hc (he ▸ ho)
  have hlines : NamesOf LineChar lib := namesOf_lineChar fun nid name hn c hc =>
    ⟨fun he => hlib.chars nid name hn c hc (he ▸ by decide),
      fun he => hlib.chars nid name hn c hc (he ▸ by decide)⟩
  intro l hl
  have hcolon := (prints_names (hnames ':' (by decide)) steps).lines l hl
  have hequals := (prints_names (hnames '=' (by decide)) steps).lines l hl
  have hline := (prints_names hlines steps).lines l hl
  have hstill := (prints_run (kept_still hlib) stillTable_noMetadata steps).lines l hl
  refine ⟨?_, hline⟩
  cases l with
  | packet l => exact ⟨⟨hcolon, hequals, hline⟩, hstill⟩
  | internal l => trivial

/-- **The statistics of a log.** Whatever is logged, `parse_packet_log` counts the lines that say
`SENT`, and those with an Initial or a Handshake packet; adds up their datagram sizes, and the sizes
of their CRYPTO and PADDING frames; and has for each metric the value that was printed last. -/
theorem parsePacketLog_log (lib : X509Lib) (hlib : StatNames lib) (steps : List SessionStep) :
    let log := (run (Session.step lib) .new steps).lines
    parsePacketLog (some (writeLines (log.map Line.text))) = some (statsOf log) := by
  intro log
  have h := good_run hlib steps
  exact parsePacketLog_lines (fun l hl => (h l hl).1) fun l hl => (h l hl).2

theorem statNames_noX509 : StatNames noX509 :=
  ⟨(fun _ _ h => by cases h), fun _ _ h => by cases h⟩

/-- A client sends an Initial packet with a CRYPTO frame of five bytes and three bytes of
padding. -/
def sentInitial : List SessionStep :=
  [.packet ⟨0, fun _ => true, true, true, none⟩ { cutEvent with
    isServer := false
    isSend := true
    encLevel := .initial
    packetType := some .initial
    payload := [6, 0, 2, 11, 0, 0, 0, 0] }]

theorem parsePacketLog_log_initial :
    let log := (run (Session.step noX509) .new sentInitial).lines
    parsePacketLog (some (writeLines (log.map Line.text))) = some (statsOf log) ∧
      ((statsOf log).initialPackets, (statsOf log).initialBytesSent, (statsOf log).cryptoBytesSent,
        (statsOf log).paddingBytesSent) = (1, 1200, 5, 3) :=
  ⟨parsePacketLog_log noX509 statNames_noX509 sentInitial, by decide +kernel⟩

end PapQuic.Script.LogMetrics
