import PapQuic.Script.Fields
import PapQuic.Script.Frames

/-! # Reading a packet line back

`parse_packet_line` of `scripts/generate_packet_diagram.py` reads the part of a packet line after
the header, with a regular expression for each field. Every field of the event comes back as it was
printed, and so does the list of frames (`parsePacketLine_line`). -/

namespace PapQuic.Script.PacketLine

open Lib.Printf Lib.Re Lib.Run Log.Metadata Log.FrameList Log.Lines Log.Notes Log.Timing
open Log.Output Script.Fields Script.Frames

/-! ### The script -/

inductive Role
  | client | server
  deriving DecidableEq, Repr

inductive Kind
  | sent | received
  deriving DecidableEq, Repr

/-- `PacketEvent`, as `parse_packet_line` fills it in. -/
structure PacketEvent where
  role : Role
  kind : Kind
  timestamp : ℚ
  packetNo : Option ℕ
  packetType : Option Text
  datagram : Option Text
  frames : List Text
  creditBefore : Option Text
  creditAfter : Option Text
  amplification : Option Text
  creditDelta : Option Text
  deriving DecidableEq

/-- `PACKET_INFO_RE`. -/
def packetInfoRe : Regex :=
  .seq (.lit "PACKET".toList) (.seq (.rep isSpace 1)
    (.seq (.group (.rep isDec 1)) (colon (.group (.rep (· ≠ lbrace) 1)))))

/-- `([^\]]+)\]`. -/
def valueRe : Regex := .seq (.group (.rep (· ≠ ']') 1)) (.lit "]".toList)

/-- `DATAGRAM_RE`. -/
def datagramRe : Regex := .seq (.lit "[DATAGRAM-SIZE".toList) (colon valueRe)

/-- `DELTA_CREDIT_RE`. -/
def deltaCreditRe : Regex := .seq (.lit "[DELTA-CREDIT".toList) (colon valueRe)

/-- `[- ]`. -/
def dashOrBlank (c : Char) : Bool := c = '-' || c = ' '

/-- The names that `CREDIT_FIELD_RE` matches. -/
def creditNameRe : Regex :=
  .alt
    (.seq (.lit "CREDIT".toList) (Regex.opt (.alt
      (.seq (.cls dashOrBlank) (.lit "BEFORE".toList))
      (.seq (.cls dashOrBlank) (.lit "AFTER".toList)))))
    (.alt (.lit "CREDIT".toList) (.lit "AMPLIFICATION-FACTOR".toList))

/-- `CREDIT_FIELD_RE`. -/
def creditFieldRe : Regex :=
  .seq (.lit "[".toList) (.seq (.group creditNameRe) (colon valueRe))

/-- `credit_before`, `credit_after` and `amplification`. -/
structure Credits where
  before : Option Text
  after : Option Text
  amplification : Option Text
  deriving DecidableEq

/-- One round of the loop over the credit fields. -/
def addCredit (c : Credits) : List Text → Credits
  | [field, value] =>
    let label := (field.map fun ch => if ch = ' ' then '-' else ch).map Char.toLower
    let trimmed := strip value
    if label = "credit-before".toList then { c with before := trimmed }
    else if label = "credit-after".toList then { c with after := trimmed }
    else if label = "credit".toList then
      { c with before := c.before.or (some trimmed), after := c.after.or (some trimmed) }
    else if label = "amplification-factor".toList then { c with amplification := trimmed }
    else c
  | _ => c

/-- The loop over the credit fields. -/
def credits (rest : Text) : Credits :=
  (findall creditFieldRe rest).foldl addCredit ⟨none, none, none⟩

/-- The packet number and the packet type. -/
def packetInfo (rest : Text) : Option (ℕ × Text) :=
  match search packetInfoRe rest with
  | some ([num, ptype], _) => some (ofDec num, strip ptype)
  | _ => none

/-- The value of a field with one group. -/
def fieldValue (r : Regex) (rest : Text) : Option Text :=
  match search r rest with
  | some ([value], _) => some value
  | _ => none

/-- `parse_packet_line`. -/
def parsePacketLine (role : Role) (kind : Kind) (ts : ℚ) (rest : Text) : PacketEvent where
  role := role
  kind := kind
  timestamp := ts
  packetNo := (packetInfo rest).map Prod.fst
  packetType := (packetInfo rest).map Prod.snd
  datagram := fieldValue datagramRe rest
  frames := extractFrames rest
  creditBefore := (credits rest).before
  creditAfter := (credits rest).after
  amplification := (credits rest).amplification
  creditDelta := (fieldValue deltaCreditRe rest).map strip

/-! ### The parts of a line -/

/-- The credit delta and the blank after it. -/
def deltaPart (delta : Option ℤ) : Text :=
  match delta with
  | some delta => field "DELTA-CREDIT" (deltaText delta) ++ " ".toList
  | none => []

/-- The packet number and type, up to the brace. -/
def packetPart (l : PacketLine) : Text :=
  "PACKET ".toList ++ dec l.event.packetNumber ++ " : ".toList ++
    l.event.typeName.toList ++ " ".toList

/-- The braces and what is in them. -/
def framesPart (l : PacketLine) : Text :=
  lbrace :: (" ".toList ++ " | ".toList.intercalate l.frames ++ " ".toList ++ [rbrace])

theorem rest_shape (f d n t a b : Text) :
    f ++ " ".toList ++ d ++ "PACKET ".toList ++ n ++ " : ".toList ++ t ++ " \x7b ".toList ++ a ++
        " \x7d  ".toList ++ b =
      f ++ " ".toList ++ d ++ ("PACKET ".toList ++ n ++ " : ".toList ++ t ++ " ".toList) ++
        lbrace :: (" ".toList ++ a ++ " ".toList ++ [rbrace]) ++ ("  ".toList ++ b) := by
  simp [lbrace, rbrace]

theorem rest_eq (l : PacketLine) :
    l.rest = sizePart l ++ deltaPart l.delta ++ packetPart l ++ framesPart l ++
      ("  ".toList ++ packetLogAppendCreditFields l.event) := by
  unfold PacketLine.rest sizePart deltaPart packetPart framesPart
  exact rest_shape _ _ _ _ _ _

theorem deltaPart_some (delta : ℤ) :
    deltaPart (some delta) = "[DELTA-CREDIT : ".toList ++ deltaText delta ++ "] ".toList := by
  simp [deltaPart, field]

/-- The characters of a credit delta. -/
theorem deltaText_chars {o : Char} (ho : o ∉ "+-B0123456789".toList) (delta : ℤ) :
    ∀ c ∈ deltaText delta, c ≠ o := by
  rintro c hc rfl
  refine ho ?_
  unfold deltaText at hc
  rcases List.mem_append.mp hc with hc | hc
  · rcases List.mem_append.mp hc with hc | hc
    · split_ifs at hc <;> rw [List.mem_singleton.mp hc] <;> decide
    · exact (by decide : ∀ c ∈ "0123456789".toList, c ∈ "+-B0123456789".toList) c
        (mem_digits (isDec_of_mem_dec hc))
  · rw [List.mem_singleton.mp hc]
    decide

theorem dec_chars {o : Char} (ho : isDec o = false) (n : ℕ) : ∀ c ∈ dec n, c ≠ o := by
  rintro c hc rfl
  exact not_mem_dec ho hc

/-- Neither `P` nor a brace comes before the packet part. -/
theorem head_chars {o : Char} (ho : o = 'P' ∨ o = lbrace) (l : PacketLine) :
    ∀ c ∈ sizePart l ++ deltaPart l.delta, c ≠ o := by
  refine List.forall_mem_append.mpr ⟨?_, ?_⟩
  · rw [sizePart_eq]
    refine List.forall_mem_cons.mpr ⟨?_, List.forall_mem_append.mpr
      ⟨List.forall_mem_append.mpr ⟨?_, dec_chars ?_ _⟩, ?_⟩⟩
    all_goals rcases ho with rfl | rfl <;> decide
  · rcases l.delta with _ | delta
    · simp [deltaPart]
    · rw [deltaPart_some]
      refine List.forall_mem_append.mpr
        ⟨List.forall_mem_append.mpr ⟨?_, deltaText_chars ?_ delta⟩, ?_⟩
      all_goals rcases ho with rfl | rfl <;> decide

theorem space_chars {w : Text} (hw : ∀ c ∈ w, isSpace c = true) {o : Char}
    (ho : isSpace o = false) : ∀ c ∈ w, c ≠ o := by
  rintro c hc rfl
  rw [hw c hc] at ho
  cases ho

/-! ### Values -/

/-- A text that can be the value of a field. -/
structure IsValue (v : Text) : Prop where
  ne_nil : v ≠ []
  chars : ∀ c ∈ v, c ≠ '[' ∧ c ≠ ']' ∧ isSpace c = false

variable {v : Text}

theorem isValue_word (hne : v ≠ []) (h : ∀ c ∈ v, wordChar c = true) : IsValue v := by
  refine ⟨hne, fun c hc => ⟨?_, ?_, isSpace_of_wordChar (h c hc)⟩⟩ <;> rintro rfl <;>
    exact absurd (h _ hc) (by decide)

theorem isValue_bytes (n : ℕ) : IsValue (dec n ++ "B".toList) := by
  refine isValue_word (by simp) (List.forall_mem_append.mpr ⟨fun c hc => ?_, by decide⟩)
  exact chars_dec (p := fun c => wordChar c = true) (fun _ h => h) c hc

theorem isValue_deltaText (delta : ℤ) : IsValue (deltaText delta) := by
  have hb := isValue_bytes delta.natAbs
  unfold deltaText
  refine ⟨by simp, fun c hc => ?_⟩
  rw [List.append_assoc] at hc
  rcases List.mem_append.mp hc with hc | hc
  · split_ifs at hc <;> rw [List.mem_singleton.mp hc] <;> decide
  · exact hb.chars c hc

theorem isValue_creditText (have_ unlimited : Bool) (credit : ℕ) :
    IsValue (creditText have_ unlimited credit) := by
  unfold creditText
  split_ifs
  · exact isValue_word (by decide) (by decide)
  · exact isValue_bytes credit
  · exact isValue_word (by decide) (by decide)

theorem IsValue.trimmed (h : IsValue v) : Trimmed v :=
  trimmed_of_forall h.ne_nil fun c hc => (h.chars c hc).2.2

theorem IsValue.strip {v : Text} (h : IsValue v) : strip v = v := strip_of_trimmed h.trimmed

/-- The value of a field is read up to its bracket. -/
theorem matchStart_value (h : IsValue v) (tail : Text) :
    matchStart (colon valueRe) (" : ".toList ++ (v ++ ']' :: tail)) = some ([v], tail) := by
  have hrep : matchStart (.rep (· ≠ ']') 1) (v ++ ']' :: tail) = some ([], ']' :: tail) :=
    matchStart_rep (fun c hc => by simpa using (h.chars c hc).2.1)
      (List.length_pos_iff.mpr h.ne_nil) (by simp)
  refine matchStart_colon
    (matchStart_seq (matchStart_group hrep) (matchStart_lit "]".toList tail)) ?_
  obtain ⟨c, t, rfl⟩ := List.exists_cons_of_ne_nil h.ne_nil
  simpa using (h.chars c (by simp)).2.2

theorem matchStart_field (h : IsValue v) (name : String) (tail : Text) :
    matchStart (.seq (.lit ('[' :: name.toList)) (colon valueRe)) (field name v ++ tail) =
      some ([v], tail) := by
  rw [field_append]
  exact matchStart_seq (matchStart_lit _ _) (matchStart_value h tail)

/-! ### What each search finds -/

section

variable {l : PacketLine} {w w' : Text}

theorem typeName_word (event : PacketLogEvent) : event.typeName.toList ≠ [] ∧
    ∀ c ∈ event.typeName.toList, wordChar c = true := by
  have hmem : event.typeName ∈
      ["Initial", "Handshake", "0RTT", "1RTT", "Retry", "Version-Neg", "Unknown"] := by
    unfold PacketLogEvent.typeName
    rcases event.packetType with _ | t
    · decide
    · cases t <;> (unfold packetTypeName; decide)
  generalize event.typeName = name at hmem ⊢
  revert name
  decide

theorem packetInfo_shape (w s d n t f c w' : Text) :
    w ++ (s ++ d ++ ("PACKET ".toList ++ n ++ " : ".toList ++ t ++ " ".toList) ++
      lbrace :: f ++ c) ++
        w' =
      w ++ (s ++ d) ++ ("PACKET".toList ++ (" ".toList ++ (n ++ (" : ".toList ++
        (t ++ " ".toList ++ lbrace :: (f ++ c ++ w')))))) := by
  simp

/-- The line, cut where the packet part starts. -/
theorem packetInfo_split (l : PacketLine) (w w' : Text) : ∃ tail,
    w ++ l.rest ++ w' = w ++ (sizePart l ++ deltaPart l.delta) ++ ("PACKET".toList ++ (" ".toList ++
      (dec l.event.packetNumber ++ (" : ".toList ++ (l.event.typeName.toList ++ " ".toList ++
        lbrace :: tail))))) := by
  refine ⟨" ".toList ++ " | ".toList.intercalate l.frames ++ " ".toList ++ [rbrace] ++
    ("  ".toList ++ packetLogAppendCreditFields l.event) ++ w', ?_⟩
  rw [rest_eq]
  unfold packetPart framesPart
  exact packetInfo_shape _ _ _ _ _ _ _ _

theorem startsWith_packetInfo : StartsWith packetInfoRe 'P' (· = 'A') :=
  startsWith_lit (by decide) _ _

theorem matchStart_packetInfo {t : Text} (ht : IsValue t) (hb : ∀ c ∈ t, c ≠ lbrace) (n : ℕ)
    (tail : Text) :
    matchStart packetInfoRe ("PACKET".toList ++ (" ".toList ++ (dec n ++ (" : ".toList ++
        (t ++ " ".toList ++ lbrace :: tail))))) =
      some ([dec n, t ++ " ".toList], lbrace :: tail) := by
  have hnum : matchStart (.rep isDec 1) (dec n ++ (" : ".toList ++ (t ++ " ".toList ++
      lbrace :: tail))) = some ([], " : ".toList ++ (t ++ " ".toList ++ lbrace :: tail)) :=
    matchStart_rep (fun c hc => isDec_of_mem_dec hc) (List.length_pos_iff.mpr (dec_ne_nil n))
      (by simp; decide)
  have htype : matchStart (.rep (· ≠ lbrace) 1) (t ++ " ".toList ++ lbrace :: tail) =
      some ([], lbrace :: tail) := by
    refine matchStart_rep (fun c hc => ?_) (by simp) (by simp)
    have hne : c ≠ lbrace := List.forall_mem_append.mpr ⟨hb, by decide⟩ c hc
    simpa using hne
  have hhead : ∀ c ∈ (t ++ " ".toList ++ lbrace :: tail).head?, isSpace c = false := by
    rw [List.append_assoc]
    exact forall_head_append ht.ne_nil (fun c hc => (ht.chars c hc).2.2) _
  have hblank : matchStart (.rep isSpace 1) (" ".toList ++ (dec n ++ (" : ".toList ++
      (t ++ " ".toList ++ lbrace :: tail)))) = some ([], dec n ++ (" : ".toList ++
      (t ++ " ".toList ++ lbrace :: tail))) :=
    matchStart_rep isSpace_of_mem_blank (by decide)
      (forall_head_append (dec_ne_nil n) (fun c hc => isSpace_of_isDec (isDec_of_mem_dec hc)) _)
  exact matchStart_seq (matchStart_lit _ _) (matchStart_seq hblank
    (matchStart_seq (matchStart_group hnum) (matchStart_colon (matchStart_group htype) hhead)))

theorem packetInfo_line (hw : ∀ c ∈ w, isSpace c = true) :
    packetInfo (w ++ l.rest ++ w') = some (l.event.packetNumber, l.event.typeName.toList) := by
  obtain ⟨hne, hword⟩ := typeName_word l.event
  have hvalue : IsValue l.event.typeName.toList := isValue_word hne hword
  have hskip : calm 'P' (· = 'A') (w ++ (sizePart l ++ deltaPart l.delta)) = true :=
    calm_of_not_mem (List.forall_mem_append.mpr
      ⟨space_chars hw (by decide), head_chars (.inl rfl) l⟩)
  have hb : ∀ c ∈ l.event.typeName.toList, c ≠ lbrace := by
    rintro c hc rfl
    exact absurd (hword _ hc) (by decide)
  obtain ⟨tail, he⟩ := packetInfo_split l w w'
  have hs := search_of_matchStart (matchStart_packetInfo hvalue hb l.event.packetNumber tail)
  have hstrip : strip (l.event.typeName.toList ++ " ".toList) = l.event.typeName.toList :=
    strip_append (w := []) hvalue.trimmed (by simp) isSpace_of_mem_blank
  rw [packetInfo, he, search_calm startsWith_packetInfo _ hskip, hs]
  simp only [ofDec_dec, hstrip]

/-- The line from its first field on. -/
theorem rest_append (l : PacketLine) (w' : Text) :
    l.rest ++ w' = sizePart l ++ (deltaPart l.delta ++ (packetPart l ++ (framesPart l ++
      ("  ".toList ++ packetLogAppendCreditFields l.event ++ w')))) := by
  rw [rest_eq]
  simp only [List.append_assoc]

theorem calm_spaces (hw : ∀ c ∈ w, isSpace c = true) (p : Char → Bool) : calm '[' p w = true :=
  calm_of_not_mem (space_chars hw (by decide))

theorem startsWith_datagram : StartsWith datagramRe '[' (· = 'D') := startsWith_lit (by decide) _ _

theorem datagram_line (hw : ∀ c ∈ w, isSpace c = true) :
    fieldValue datagramRe (w ++ l.rest ++ w') = some (dec l.event.datagramSize ++ "B".toList) := by
  have hm (t : Text) : search datagramRe (sizePart l ++ t) =
      some ([dec l.event.datagramSize ++ "B".toList], " ".toList ++ t) := by
    rw [sizePart, List.append_assoc]
    exact search_of_matchStart (matchStart_field (isValue_bytes _) "DATAGRAM-SIZE" _)
  rw [fieldValue, List.append_assoc, search_calm startsWith_datagram _ (calm_spaces hw _),
    rest_append, hm]

theorem calm_packetPart (l : PacketLine) (p : Char → Bool) : calm '[' p (packetPart l) = true := by
  refine calm_of_not_mem ?_
  have ht : ∀ c ∈ l.event.typeName.toList, c ≠ '[' := by
    rintro c hc rfl
    exact absurd ((typeName_word l.event).2 _ hc) (by decide)
  exact List.forall_mem_append.mpr ⟨List.forall_mem_append.mpr ⟨List.forall_mem_append.mpr
    ⟨List.forall_mem_append.mpr ⟨by decide, dec_chars (by decide) _⟩, by decide⟩, ht⟩, by decide⟩

theorem calm_framesPart (h : ∀ spec ∈ l.specs, IsSpec NameChar spec) :
    calm '[' fieldStart (framesPart l) = true := by
  rw [framesPart, calm_cons (by decide)]
  exact calm_append (calm_append (calm_append (by decide) (neat_frames h).calm) (by decide))
    (by decide)

theorem calm_field {name : String} {p : Char → Bool}
    (hname : calm '[' p ("[".toList ++ name.toList ++ " : ".toList) = true) (hv : IsValue v) :
    calm '[' p (field name v) = true :=
  calm_append (calm_append hname (calm_of_not_mem fun c hc => (hv.chars c hc).1))
    (calm_of_not_mem (by decide))

theorem isValue_serverCredit (event : PacketLogEvent) : IsValue event.serverCredit.1 ∧
    IsValue event.serverCredit.2.1 ∧ IsValue event.serverCredit.2.2 := by
  refine ⟨isValue_creditText _ _ _, ?_, isValue_creditText _ _ _⟩
  unfold PacketLogEvent.serverCredit
  dsimp only
  split_ifs <;> exact isValue_word (by decide) (by decide)

theorem isValue_clientCredit (event : PacketLogEvent) :
    IsValue event.clientCredit.1 ∧ IsValue event.clientCredit.2 := by
  unfold PacketLogEvent.clientCredit
  split_ifs <;> exact ⟨isValue_word (by decide) (by decide), isValue_word (by decide) (by decide)⟩

theorem calm_creditFields (event : PacketLogEvent) :
    calm '[' (· = 'D') (packetLogAppendCreditFields event) = true := by
  obtain ⟨hb, ha, hc⟩ := isValue_serverCredit event
  obtain ⟨hd, he⟩ := isValue_clientCredit event
  unfold packetLogAppendCreditFields
  split_ifs
  · exact calm_append (calm_append (calm_append (calm_append (calm_field (by decide) hb)
      (by decide)) (calm_field (by decide) ha)) (by decide)) (calm_field (by decide) hc)
  · exact calm_append (calm_append (calm_field (by decide) hd) (by decide))
      (calm_field (by decide) he)

theorem delta_line (h : ∀ spec ∈ l.specs, IsSpec NameChar spec) (hw : ∀ c ∈ w, isSpace c = true)
    (hw' : ∀ c ∈ w', isSpace c = true) :
    fieldValue deltaCreditRe (w ++ l.rest ++ w') = l.delta.map deltaText := by
  rw [fieldValue, List.append_assoc, deltaCreditRe,
    search_calm (startsWith_delta _) _ (calm_spaces hw _), rest_append, search_sizePart]
  rcases l.delta with _ | delta
  · have hcalm : calm '[' (· = 'D') (deltaPart none ++ (packetPart l ++ (framesPart l ++
        ("  ".toList ++ packetLogAppendCreditFields l.event ++ w')))) = true := by
      have hframes : calm '[' (· = 'D') (framesPart l) = true :=
        calm_mono (fun c hc => by simp [fieldStart, of_decide_eq_true hc]) (calm_framesPart h)
      exact calm_append rfl (calm_append (calm_packetPart l _) (calm_append hframes
        (calm_append (calm_append (by decide) (calm_creditFields _)) (calm_spaces hw' _))))
    rw [search_eq_none (startsWith_delta _) hcalm]
    rfl
  · have hm (t : Text) : search (.seq (.lit "[DELTA-CREDIT".toList) (colon valueRe))
        (deltaPart (some delta) ++ t) = some ([deltaText delta], " ".toList ++ t) := by
      rw [deltaPart, List.append_assoc]
      exact search_of_matchStart (matchStart_field (isValue_deltaText delta) "DELTA-CREDIT" _)
    rw [hm]
    rfl

/-! ### The credit fields -/
/-- The first letters of the credit fields. -/
def creditStart (c : Char) : Bool := c = 'C' || c = 'A'

theorem startsWith_creditField : StartsWith creditFieldRe '[' creditStart := by
  have hrej : Rejects (.seq (.group creditNameRe) (colon valueRe)) fun c => !creditStart c := by
    refine Rejects.seq (Rejects.group (Rejects.alt (Rejects.seq ?_ _) (Rejects.alt ?_ ?_))) _
    · exact rejects_lit "REDIT".toList (by decide)
    · exact rejects_lit "REDIT".toList (by decide)
    · exact rejects_lit "MPLIFICATION-FACTOR".toList (by decide)
  exact hrej.startsWith (by decide)

theorem matchStart_creditBefore (t : Text) :
    matchStart creditNameRe ("CREDIT-BEFORE".toList ++ t) = some ([], t) := by
  have h : matchStart (.seq (.cls dashOrBlank) (.lit "BEFORE".toList))
      ('-' :: ("BEFORE".toList ++ t)) =
      some ([], t) := matchStart_seq (matchStart_cls (by decide) _) (matchStart_lit _ _)
  exact matchStart_alt_left (matchStart_seq (matchStart_lit "CREDIT".toList _)
    (matchStart_alt_left (matchStart_alt_left h _) _)) _

theorem matchStart_creditAfter (t : Text) :
    matchStart creditNameRe ("CREDIT AFTER".toList ++ t) = some ([], t) := by
  have hno : results (.seq (.cls dashOrBlank) (.lit "BEFORE".toList))
      (' ' :: ("AFTER".toList ++ t)) = [] :=
    results_cls_seq_nil
      (rejects_lit (p := (· = 'A')) "EFORE".toList (by decide) 'A' _ (by decide)) _
  have h : matchStart (.seq (.cls dashOrBlank) (.lit "AFTER".toList))
      (' ' :: ("AFTER".toList ++ t)) =
      some ([], t) := matchStart_seq (matchStart_cls (by decide) _) (matchStart_lit _ _)
  exact matchStart_alt_left (matchStart_seq (matchStart_lit "CREDIT".toList _)
    (matchStart_alt_left ((matchStart_alt_right hno _).trans h) _)) _

theorem matchStart_credit (t : Text) :
    matchStart creditNameRe ("CREDIT".toList ++ (" : ".toList ++ t)) =
      some ([], " : ".toList ++ t) := by
  have hno : results (.alt (.seq (.cls dashOrBlank) (.lit "BEFORE".toList))
      (.seq (.cls dashOrBlank) (.lit "AFTER".toList))) (' ' :: ':' :: ' ' :: t) = [] := by
    have hb : results (.seq (.cls dashOrBlank) (.lit "BEFORE".toList))
        (' ' :: ':' :: ' ' :: t) = [] :=
      results_cls_seq_nil (rejects_lit (p := (· = ':')) "EFORE".toList (by decide) ':'
        _ (by decide)) _
    have ha : results (.seq (.cls dashOrBlank) (.lit "AFTER".toList))
        (' ' :: ':' :: ' ' :: t) = [] :=
      results_cls_seq_nil
        (rejects_lit (p := (· = ':')) "FTER".toList (by decide) ':' _ (by decide)) _
    rw [results_alt, hb, ha, List.append_nil]
  exact matchStart_alt_left (matchStart_seq (matchStart_lit "CREDIT".toList _)
    ((matchStart_alt_right hno _).trans (matchStart_eps _))) _

theorem matchStart_amplification (t : Text) :
    matchStart creditNameRe ("AMPLIFICATION-FACTOR".toList ++ t) = some ([], t) := by
  have hno (b : Regex) : results (.seq (.lit "CREDIT".toList) b)
      ("AMPLIFICATION-FACTOR".toList ++ t) = [] :=
    results_lit_seq_nil (by decide) (by decide) _ _
  have hno' : results (.lit "CREDIT".toList) ("AMPLIFICATION-FACTOR".toList ++ t) = [] := by
    simp
  exact (matchStart_alt_right (hno _) _).trans ((matchStart_alt_right hno' _).trans
    (matchStart_lit _ _))

/-- A credit field is read as its name and its value. -/
theorem matchStart_creditField {name : String} (hv : IsValue v)
    (hn : ∀ t, matchStart creditNameRe (name.toList ++ (" : ".toList ++ t)) =
      some ([], " : ".toList ++ t)) (tail : Text) :
    matchStart creditFieldRe (field name v ++ tail) = some ([name.toList, v], tail) := by
  rw [field_append]
  exact matchStart_seq (matchStart_lit "[".toList _)
    (matchStart_seq (matchStart_group (hn _)) (matchStart_value hv tail))

/-- No credit field starts before the braces are closed. -/
theorem calm_skip (h : ∀ spec ∈ l.specs, IsSpec NameChar spec) (hw : ∀ c ∈ w, isSpace c = true) :
    calm '[' creditStart (w ++ (sizePart l ++ (deltaPart l.delta ++ (packetPart l ++
      (framesPart l ++ "  ".toList))))) = true := by
  have hsize : calm '[' creditStart (sizePart l) = true :=
    calm_append (calm_field (by decide) (isValue_bytes _)) (by decide)
  have hdelta : calm '[' creditStart (deltaPart l.delta) = true := by
    rcases l.delta with _ | delta
    · rfl
    · exact calm_append (calm_field (by decide) (isValue_deltaText delta)) (by decide)
  have hframes : calm '[' creditStart (framesPart l) = true := by
    refine calm_mono (fun c hc => ?_) (calm_framesPart h)
    unfold fieldStart
    unfold creditStart at hc
    rw [hc, Bool.true_or]
  exact calm_append (calm_spaces hw _) (calm_append hsize (calm_append hdelta
    (calm_append (calm_packetPart l _) (calm_append hframes (by decide)))))

theorem three_le_length_field (name : String) (v t : Text) : 3 ≤ (field name v ++ t).length := by
  rw [field_append]
  simp only [List.length_append, List.length_cons, show " : ".toList.length = 3 by decide]
  omega

/-- The credit fields of a server line. -/
theorem findall_server {skip before amp after : Text} (hskip : calm '[' creditStart skip = true)
    (hb : IsValue before) (ha : IsValue amp) (hc : IsValue after)
    (hw' : ∀ c ∈ w', isSpace c = true) :
    findall creditFieldRe (skip ++ (field "CREDIT-BEFORE" before ++
        (" ".toList ++ (field "AMPLIFICATION-FACTOR" amp ++
          (" ".toList ++ (field "CREDIT AFTER" after ++ w')))))) =
      [["CREDIT-BEFORE".toList, before], ["AMPLIFICATION-FACTOR".toList, amp],
        ["CREDIT AFTER".toList, after]] := by
  refine findall_of_findallN (n := 3) (fun k => ?_) ?_
  · rw [findallN_append startsWith_creditField hskip
        (matchStart_creditField hb (fun t => matchStart_creditBefore _) _),
      findallN_append startsWith_creditField (by decide)
        (matchStart_creditField ha (fun t => matchStart_amplification _) _),
      findallN_append startsWith_creditField (by decide)
        (matchStart_creditField hc (fun t => matchStart_creditAfter _) _),
      findallN_nil (search_eq_none startsWith_creditField (calm_spaces hw' _))]
  · rw [List.length_append]
    exact (three_le_length_field _ _ _).trans (Nat.le_add_left _ _)

/-- The credit fields of a client line. -/
theorem findall_client {skip credit amp : Text} (hskip : calm '[' creditStart skip = true)
    (hc : IsValue credit) (ha : IsValue amp) (hw' : ∀ c ∈ w', isSpace c = true) :
    findall creditFieldRe (skip ++ (field "CREDIT" credit ++ (" ".toList ++
        (field "AMPLIFICATION-FACTOR" amp ++ w')))) =
      [["CREDIT".toList, credit], ["AMPLIFICATION-FACTOR".toList, amp]] := by
  refine findall_of_findallN (n := 2) (fun k => ?_) ?_
  · rw [findallN_append startsWith_creditField hskip
        (matchStart_creditField hc matchStart_credit _),
      findallN_append startsWith_creditField (by decide)
        (matchStart_creditField ha (fun t => matchStart_amplification _) _),
      findallN_nil (search_eq_none startsWith_creditField (calm_spaces hw' _))]
  · rw [List.length_append]
    exact ((by decide : 2 ≤ 3).trans (three_le_length_field _ _ _)).trans (Nat.le_add_left _ _)

/-- The credits that a line prints. -/
def printedCredits (event : PacketLogEvent) : Credits :=
  if event.isServer then
    ⟨some event.serverCredit.1, some event.serverCredit.2.2, some event.serverCredit.2.1⟩
  else ⟨some event.clientCredit.1, some event.clientCredit.1, some event.clientCredit.2⟩

theorem credits_line (h : ∀ spec ∈ l.specs, IsSpec NameChar spec) (hw : ∀ c ∈ w, isSpace c = true)
    (hw' : ∀ c ∈ w', isSpace c = true) : credits (w ++ l.rest ++ w') = printedCredits l.event := by
  have hskip := calm_skip h hw
  have htext : w ++ l.rest ++ w' = (w ++ (sizePart l ++ (deltaPart l.delta ++ (packetPart l ++
      (framesPart l ++ "  ".toList))))) ++ (packetLogAppendCreditFields l.event ++ w') := by
    rw [List.append_assoc, rest_append]
    simp only [List.append_assoc]
  rw [credits, htext]
  unfold packetLogAppendCreditFields printedCredits
  split_ifs
  · obtain ⟨hb, ha, hc⟩ := isValue_serverCredit l.event
    have hfound := findall_server hskip hb ha hc hw'
    simp only [List.append_assoc] at hfound ⊢
    rw [hfound]
    change Credits.mk (some (strip _)) (some (strip _)) (some (strip _)) = _
    rw [hb.strip, ha.strip, hc.strip]
  · obtain ⟨hc, ha⟩ := isValue_clientCredit l.event
    have hfound := findall_client hskip hc ha hw'
    simp only [List.append_assoc] at hfound ⊢
    rw [hfound]
    change Credits.mk (some (strip _)) (some (strip _)) (some (strip _)) = _
    rw [hc.strip, ha.strip]

/-! ### The frames -/
theorem frames_shape (w s d p f c w' : Text) :
    w ++ (s ++ (d ++ (p ++ ((lbrace :: (f ++ [rbrace])) ++ (c ++ w'))))) =
      (w ++ (s ++ d) ++ p) ++ lbrace :: (f ++ rbrace :: (c ++ w')) := by
  simp

theorem payload_line (h : ∀ spec ∈ l.specs, IsSpec NameChar spec) (hw : ∀ c ∈ w, isSpace c = true) :
    extractBracedPayload (w ++ l.rest ++ w') = some (" | ".toList.intercalate l.frames) := by
  have hbefore : ∀ c ∈ w ++ (sizePart l ++ deltaPart l.delta) ++ packetPart l, c ≠ lbrace := by
    have ht : ∀ c ∈ l.event.typeName.toList, c ≠ lbrace := by
      rintro c hc rfl
      exact absurd ((typeName_word l.event).2 _ hc) (by decide)
    have hp : ∀ c ∈ packetPart l, c ≠ lbrace :=
      List.forall_mem_append.mpr ⟨List.forall_mem_append.mpr ⟨List.forall_mem_append.mpr
        ⟨List.forall_mem_append.mpr ⟨by decide, dec_chars (by decide) _⟩, by decide⟩, ht⟩,
        by decide⟩
    exact List.forall_mem_append.mpr ⟨List.forall_mem_append.mpr
      ⟨space_chars hw (by decide), head_chars (.inr rfl) l⟩, hp⟩
  have htext : w ++ l.rest ++ w' = (w ++ (sizePart l ++ deltaPart l.delta) ++ packetPart l) ++
      lbrace :: (" ".toList ++ " | ".toList.intercalate l.frames ++ " ".toList ++
        rbrace :: ("  ".toList ++ packetLogAppendCreditFields l.event ++ w')) := by
    rw [List.append_assoc, rest_append, framesPart]
    exact frames_shape _ _ _ _ _ _ _
  rw [htext]
  exact extractBracedPayload_frames (fun t ht => (segment_frames h t ht).trimmed)
    ((neat_frames h).balanced false) hbefore _

theorem extractFrames_line (h : ∀ spec ∈ l.specs, IsSpec NameChar spec)
    (hw : ∀ c ∈ w, isSpace c = true) :
    extractFrames (w ++ l.rest ++ w') = l.frames.map shortForm := by
  have hsplit := splitFrames_intercalate (segment_frames h)
  rw [extractFrames, payload_line h hw]
  rcases hp : " | ".toList.intercalate l.frames with _ | ⟨c, t⟩
  · rw [hp] at hsplit
    rw [← hsplit]
    rfl
  · rw [hp] at hsplit
    rw [← hsplit]

end

/-- What a packet line is read back as. -/
def printedEvent (role : Role) (kind : Kind) (ts : ℚ) (l : PacketLine) : PacketEvent where
  role := role
  kind := kind
  timestamp := ts
  packetNo := some l.event.packetNumber
  packetType := some l.event.typeName.toList
  datagram := some (dec l.event.datagramSize ++ "B".toList)
  frames := l.frames.map shortForm
  creditBefore := (printedCredits l.event).before
  creditAfter := (printedCredits l.event).after
  amplification := (printedCredits l.event).amplification
  creditDelta := l.delta.map deltaText

theorem parsePacketLine_of_isSpec {l : PacketLine} (h : ∀ spec ∈ l.specs, IsSpec NameChar spec)
    {w w' : Text} (hw : ∀ c ∈ w, isSpace c = true) (hw' : ∀ c ∈ w', isSpace c = true) (role : Role)
    (kind : Kind) (ts : ℚ) :
    parsePacketLine role kind ts (w ++ l.rest ++ w') = printedEvent role kind ts l := by
  have hstrip : (l.delta.map deltaText).map strip = l.delta.map deltaText := by
    rcases l.delta with _ | delta
    · rfl
    · simp [(isValue_deltaText delta).strip]
  rw [parsePacketLine, packetInfo_line hw, datagram_line hw, extractFrames_line h hw,
    credits_line h hw hw', delta_line h hw hw', hstrip]
  rfl

/-- **Packet lines are read back as they were printed**, whatever was logged before: the fields by
`parse_packet_line`, and the frames by `extract_braced_payload` and `split_frames`. Before and after
the line there may be spaces. -/
theorem parsePacketLine_line (lib : X509Lib)
    (hlib : ∀ nid name, lib.objNid2sn nid = some name → ∀ c ∈ name, NameChar c)
    (steps : List SessionStep) (inp : LogInput) (event : PacketLogEvent) {r : FramesResult}
    (hr : packetLogAppendFrames lib event.toEventKey inp.hsAlloc event.payload.length
      ⟨0, (run (Session.step lib) .new steps).log⟩ event.payload = some r)
    {w w' : Text} (hw : ∀ c ∈ w, isSpace c = true) (hw' : ∀ c ∈ w', isSpace c = true) (role : Role)
    (kind : Kind) (ts : ℚ) :
    let line : PacketLine := ⟨inp.now, event, r.specs, r.ok⟩
    parsePacketLine role kind ts (w ++ line.rest ++ w') = printedEvent role kind ts line ∧
      (extractBracedPayload (w ++ line.rest ++ w')).map splitFrames =
        some (r.specs.map FrameSpec.text ++ if r.ok then [] else ["UNKNOWN".toList]) := by
  have hp : NamesOf NameChar lib := ⟨fun _ => nameChar_of_wordChar, hlib⟩
  obtain ⟨hspecs, -⟩ := (kept_annotated hp).appendFrames hr (prints_names hp steps).table
  intro line
  have hline : ∀ spec ∈ line.specs, IsSpec NameChar spec := hspecs
  refine ⟨parsePacketLine_of_isSpec hline hw hw' role kind ts, ?_⟩
  rw [payload_line hline hw, Option.map_some, splitFrames_intercalate (segment_frames hline)]
  rfl

/-- A PING, a CertificateVerify, and a CRYPTO frame that ends after its type. -/
def cutEvent : PacketLogEvent where
  isServer := true
  isSend := false
  encLevel := .handshake
  packetType := some .handshake
  packetNumber := 7
  datagramSize := 1200
  payload := [1, 6, 0, 9, 0x0f, 0, 0, 5, 0x08, 0x04, 0, 1, 0xaa, 6]
  haveCreditBefore := true
  creditBefore := 0
  creditBeforeUnlimited := false
  haveCreditAfter := true
  creditAfter := 3600
  creditAfterUnlimited := false
  clientCreditKnown := false
  clientCreditUnlimited := false
  haveCreditDelta := true
  creditDelta := 3600

/-- The packet comes twice. -/
theorem parsePacketLine_line_cut :
    let line : PacketLine := ⟨0, cutEvent, [.ping 1,
      .crypto ["CertificateVerify(Algorithm=RSA_PSS_RSAE_SHA256 , Signature=1B)".toList] 12], false⟩
    parsePacketLine .server .received 0 (" ".toList ++ line.rest ++ "\n".toList) =
        printedEvent .server .received 0 line ∧
      (extractBracedPayload (" ".toList ++ line.rest ++ "\n".toList)).map splitFrames =
        some (line.specs.map FrameSpec.text ++ ["UNKNOWN".toList]) := by
  intro line
  have hframes : (packetLogAppendFrames noX509 cutEvent.toEventKey (fun _ => true)
      cutEvent.payload.length ⟨0, (run (Session.step noX509) .new
        [.packet ⟨0, fun _ => true, true, true, none⟩ cutEvent]).log⟩ cutEvent.payload).map
      (fun r => (r.specs, r.ok)) = some (line.specs, line.haveFrames) := by
    decide +kernel
  obtain ⟨⟨specs, ok, state⟩, hr, hspecs⟩ := Option.map_eq_some_iff.mp hframes
  cases hspecs
  exact parsePacketLine_line noX509 (fun _ _ h => by cases h) _ ⟨0, fun _ => true, true, true, none⟩
    cutEvent hr (by decide) (by decide) .server .received 0

end PapQuic.Script.PacketLine
