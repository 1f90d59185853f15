import PapQuic.Lib.Balance
import PapQuic.Lib.Re
import PapQuic.Log.Output

/-! # The frames of a packet line

How `scripts/generate_packet_diagram.py` takes the frames off a packet line:
`extract_braced_payload` finds what stands between the outer braces, `split_frames` cuts it at the
separators that are not inside brackets, and each piece is put into a shorter form for the diagram.

The frames that the log prints are balanced (`neat_spec`), in braces alone and in braces and
parentheses together, whatever bytes they come from. So the payload is what was printed between the
braces (`extractBracedPayload_frames`), and cutting it gives the frames back
(`splitFrames_intercalate`). -/

namespace PapQuic.Script.Frames

open Lib.Printf Lib.Balance Lib.Re Wire.Frames Log.Names Log.Metadata Log.FrameList Log.Lines
open Log.Notes

def lbrace : Char := '\x7b'

def rbrace : Char := '\x7d'

/-! ### Taking the frames off a line -/

/-- The loops of `extract_balanced_section` and `extract_braced_payload` inside the first bracket:
what comes before the bracket that closes it, and what comes after. -/
def balancedLoop (openChar closeChar : Char) : ℕ → Text → Text → Option (Text × Text)
  | _, _, [] => none
  | depth, inner, c :: s =>
    if c = openChar then balancedLoop openChar closeChar (depth + 1) (inner ++ [c]) s
    else if c = closeChar then
      if depth = 1 then some (inner, s)
      else balancedLoop openChar closeChar (depth - 1) (inner ++ [c]) s
    else balancedLoop openChar closeChar depth (inner ++ [c]) s

/-- `extract_balanced_section`. -/
def extractBalancedSection (text : Text) (openChar closeChar : Char) : Option Text × Text :=
  match text.dropWhile (· ≠ openChar) with
  | [] => (none, text)
  | _ :: s =>
    match balancedLoop openChar closeChar 1 [] s with
    | some (inner, tail) => (some inner, tail)
    | none => (none, text)

/-- `extract_braced_payload`. -/
def extractBracedPayload (rest : Text) : Option Text :=
  match rest.dropWhile (· ≠ lbrace) with
  | [] => none
  | _ :: s => (balancedLoop lbrace rbrace 1 [] s).map fun r => strip r.1

/-- A segment is kept unless nothing but spaces is in it. -/
def keep (current : Text) : List Text := if strip current = [] then [] else [strip current]

/-- How a character changes the depth of `split_frames`. -/
def nextDepth (depth : ℕ) (c : Char) : ℕ :=
  if c = lbrace ∨ c = '(' then depth + 1 else if c = ')' ∨ c = rbrace then depth - 1 else depth

/-- The loop of `split_frames`. -/
def splitLoop : ℕ → Text → Text → List Text
  | _, current, [] => keep current
  | 0, current, ' ' :: '|' :: ' ' :: s => keep current ++ splitLoop 0 [] s
  | depth, current, c :: s => splitLoop (nextDepth depth c) (current ++ [c]) s

/-- `split_frames`. -/
def splitFrames (payload : Text) : List Text := splitLoop 0 [] payload

/-! ### The short forms -/

/-- `normalize_segment`. -/
def normalizeSegment (text : Text) : Text :=
  let comma : Regex := .seq (.rep isSpace 0) (.seq (.lit ",".toList) (.rep isSpace 0))
  sub (.rep isSpace 1) " ".toList (sub comma ", ".toList (strip text))

/-- `extract_attribute_value`; an empty value is none, as all callers take it. -/
def extractAttributeValue (text : Text) (key : String) : Option Text :=
  let value : Regex := .group (.rep (fun c => c ≠ ',' && c ≠ ')') 1)
  let r : Regex := .seq (litIgnoreCase key.toList)
    (.seq (.rep isSpace 0) (.seq (.lit "=".toList) (.seq (.rep isSpace 0) value)))
  match search r text with
  | some ([v], _) => if strip v = [] then none else some (strip v)
  | _ => none

/-- `format_crypto_frame`. -/
def formatCryptoFrame (body : Text) : Text :=
  let innerText :=
    match (extractBalancedSection body lbrace rbrace).1 with
    | some (c :: inner) =>
      " | ".toList.intercalate
        ((((c :: inner).splitOn '|').filter fun part => strip part ≠ []).map normalizeSegment)
    | _ => normalizeSegment body
  let pieces := (if innerText = [] then [] else [innerText]) ++
    ((extractAttributeValue body "SIZE").map ("SIZE=".toList ++ ·)).toList
  "CRYPTO\x7b ".toList ++ strip (", ".toList.intercalate pieces) ++ " \x7d".toList

/-- `format_padding_frame`. -/
def formatPaddingFrame (body : Text) : Text :=
  match extractAttributeValue body "SIZE" with
  | some size => "PADDING(".toList ++ size ++ ")".toList
  | none => "PADDING".toList

/-- `format_ack_frame`. -/
def formatAckFrame (body : Text) : Text :=
  let details := ((extractAttributeValue body "RANGE").map ("Range=".toList ++ ·)).toList ++
    ((extractAttributeValue body "SIZE").map ("Size=".toList ++ ·)).toList
  if details = [] then "ACK".toList
  else "ACK(".toList ++ ", ".toList.intercalate details ++ ")".toList

/-- `format_generic_frame`. -/
def formatGenericFrame (name body : Text) : Text :=
  let content := normalizeSegment body
  if content = [] then name else name ++ "(".toList ++ content ++ ")".toList

/-- `summarize_frame`. -/
def summarizeFrame (name body : Text) : Text :=
  let upper := name.map Char.toUpper
  if upper = "CRYPTO".toList then formatCryptoFrame body
  else if upper = "PADDING".toList then formatPaddingFrame body
  else if upper = "ACK".toList then formatAckFrame body
  else formatGenericFrame upper body

/-- `FRAME_NAME_RE`. -/
def frameNameRe : Regex :=
  .seq (.group (.rep (fun c => c.isUpper || c.isDigit || c = '_') 1)) (.seq (.lit "--(".toList)
    (.seq (.group (.rep (· ≠ '\n') 0)) (.seq (.lit ")".toList) .atEnd)))

/-- What becomes of a segment in `extract_frames`. -/
def shortForm (seg : Text) : Text :=
  match matchStart frameNameRe (strip seg) with
  | some ([name, body], _) => summarizeFrame name body
  | _ => " ".toList.intercalate ((List.splitOnP isSpace (strip seg)).filter (· ≠ []))

/-- `extract_frames`. -/
def extractFrames (rest : Text) : List Text :=
  match extractBracedPayload rest with
  | none | some [] => []
  | some payload => (splitFrames payload).map shortForm

/-! ### What the loops pass over -/

/-- Braces, and parentheses where they count. -/
def kind (parens : Bool) : Brackets where
  opens c := c = lbrace || (parens && c = '(')
  closes c := c = rbrace || (parens && c = ')')

theorem counts_balancedLoop : Counts (kind false) (balancedLoop lbrace rbrace) where
  opens d inner c s hc := by
    obtain rfl : c = lbrace := by simpa [kind] using hc
    simp [balancedLoop]
  closes d inner c s hc := by
    obtain rfl : c = rbrace := by simpa [kind] using hc
    rw [balancedLoop, if_neg (by decide), if_pos rfl, if_neg (by omega)]
    rfl
  plain d inner c s hc := by
    obtain ⟨h1, h2⟩ : c ≠ lbrace ∧ c ≠ rbrace := by simpa [kind, Brackets.plain] using hc
    rw [balancedLoop, if_neg h1, if_neg h2]

theorem splitLoop_succ (d : ℕ) (current : Text) (c : Char) (s : Text) :
    splitLoop (d + 1) current (c :: s) = splitLoop (nextDepth (d + 1) c) (current ++ [c]) s := by
  rw [splitLoop]
  simp

theorem splitLoop_of_ne {c : Char} (hc : c ≠ ' ') (current s : Text) :
    splitLoop 0 current (c :: s) = splitLoop (nextDepth 0 c) (current ++ [c]) s := by
  rw [splitLoop]
  simp [hc]

theorem counts_splitLoop : Counts (kind true) splitLoop where
  opens d current c s hc := by
    have h : c = lbrace ∨ c = '(' := by simpa [kind] using hc
    rw [splitLoop_succ, nextDepth, if_pos h]
  closes d current c s hc := by
    have h : c = rbrace ∨ c = ')' := by simpa [kind] using hc
    rw [splitLoop_succ, nextDepth]
    rcases h with rfl | rfl <;> rfl
  plain d current c s hc := by
    obtain ⟨h1, h2⟩ : (c ≠ lbrace ∧ c ≠ '(') ∧ c ≠ rbrace ∧ c ≠ ')' := by
      simpa [kind, Brackets.plain] using hc
    rw [splitLoop_succ, nextDepth, if_neg (by tauto), if_neg (by tauto)]

/-- A piece that `split_frames` takes as a whole. -/
structure Segment (t : Text) : Prop where
  passes : ∀ current rest, splitLoop 0 current (t ++ rest) = splitLoop 0 (current ++ t) rest
  trimmed : Trimmed t

theorem Segment.keep {t : Text} (h : Segment t) : keep t = [t] := by
  obtain ⟨c, s, rfl, -⟩ := h.trimmed.start
  simp [Frames.keep, strip_of_trimmed h.trimmed]

/-- **Cutting a list of pieces gives the pieces.** -/
theorem splitFrames_intercalate : ∀ {ts : List Text}, (∀ t ∈ ts, Segment t) →
    splitFrames (" | ".toList.intercalate ts) = ts
  | [], _ => by decide
  | [t], h => by
    have ht := h t (by simp)
    have hp := ht.passes [] []
    rw [List.append_nil, List.nil_append] at hp
    rw [List.intercalate_singleton, splitFrames, hp, splitLoop, ht.keep]
  | t :: u :: ts, h => by
    have ht := h t (by simp)
    have hts : ∀ v ∈ u :: ts, Segment v := fun v hv => h v (by simp [hv])
    have ih := splitFrames_intercalate hts
    rw [List.intercalate_cons_cons, splitFrames, List.append_assoc, ht.passes]
    change splitLoop 0 ([] ++ t) (' ' :: '|' :: ' ' :: _) = _
    rw [List.nil_append, splitLoop, ht.keep, List.singleton_append]
    exact congrArg (t :: ·) ih

/-! ### What the log prints -/

/-- The characters of names: no brackets, and no bar. -/
def NameChar (c : Char) : Prop := c ∉ "()[]\x7b\x7d|".toList

instance (c : Char) : Decidable (NameChar c) := inferInstanceAs (Decidable (¬ _))

/-- The first letters of the fields that are looked for. -/
def fieldStart (c : Char) : Bool := c = 'C' || c = 'A' || c = 'D'

/-- A text that is balanced in both ways, and in which no field starts. -/
structure Neat (t : Text) : Prop where
  balanced : ∀ parens, Balanced (kind parens) t
  calm : calm '[' fieldStart t = true

theorem Neat.append {s t : Text} (hs : Neat s) (ht : Neat t) : Neat (s ++ t) :=
  ⟨fun parens => (hs.balanced parens).append (ht.balanced parens), calm_append hs.calm ht.calm⟩

theorem neat_intercalate {sep : Text} (hsep : Neat sep) {l : List Text} (h : ∀ s ∈ l, Neat s) :
    Neat (sep.intercalate l) := by
  refine ⟨fun parens => balanced_intercalate (hsep.balanced parens) fun s hs =>
    (h s hs).balanced parens, ?_⟩
  induction l with
  | nil => rfl
  | cons s l ih =>
    rcases l with _ | ⟨t, l⟩
    · simpa using (h s (by simp)).calm
    · rw [List.intercalate_cons_cons]
      exact calm_append (calm_append (h s (by simp)).calm hsep.calm)
        (ih fun u hu => h u (by simp [hu]))

theorem plain_of_plain {c : Char} (h : (kind true).plain c) (parens : Bool) :
    (kind parens).plain c := by
  cases parens
  · simp_all [kind, Brackets.plain]
  · exact h

theorem neat_plain {t : Text} (h : ∀ c ∈ t, (kind true).plain c)
    (hc : PapQuic.Lib.Re.calm '[' fieldStart t = true) : Neat t :=
  ⟨fun parens => .plain fun c hm => plain_of_plain (h c hm) parens, hc⟩

theorem neat_name {t : Text} (h : ∀ c ∈ t, NameChar c) : Neat t := by
  refine neat_plain (fun c hc => ?_) (calm_of_not_mem fun c hc => ?_)
  · have := h c hc
    simp_all [NameChar, kind, Brackets.plain, lbrace, rbrace]
  · rintro rfl
    exact h _ hc (by decide)

theorem nameChar_of_wordChar {c : Char} (h : wordChar c = true) : NameChar c := by
  intro hc
  rw [(by decide : ∀ c ∈ "()[]\x7b\x7d|".toList, wordChar c = false) c hc] at h
  cases h

theorem neat_word {t : Text} (h : t.all wordChar = true) : Neat t :=
  neat_name fun c hc => nameChar_of_wordChar (List.all_eq_true.mp h c hc)

theorem neat_dec (n : ℕ) : Neat (dec n) :=
  neat_name (chars_dec fun _ => nameChar_of_wordChar)

theorem neat_hexPad (w n : ℕ) : Neat (hexPad w n) :=
  neat_name (chars_hexPad fun _ => nameChar_of_wordChar)

theorem Neat.parens {t : Text} (h : Neat t) : Neat ('(' :: (t ++ [')'])) := by
  refine ⟨fun parens => ?_, ?_⟩
  · cases parens with
    | true => exact .wrap rfl rfl (h.balanced true)
    | false =>
      have hopen : Balanced (kind false) ['('] := .plain (by decide)
      have hclose : Balanced (kind false) [')'] := .plain (by decide)
      exact hopen.append ((h.balanced false).append hclose)
  · rw [calm_cons (by decide)]
    exact calm_append h.calm (by decide)

theorem Neat.braces {t : Text} (h : Neat t) : Neat (lbrace :: (t ++ [rbrace])) := by
  refine ⟨fun parens => .wrap (by simp [kind]) (by simp [kind]) (h.balanced parens), ?_⟩
  rw [calm_cons (by decide)]
  exact calm_append h.calm (by decide)

/-- A fixed text of the log without round or curly brackets. -/
theorem neat_lit (s : String) (h : ∀ c ∈ s.toList, (kind true).plain c)
    (hc : PapQuic.Lib.Re.calm '[' fieldStart s.toList = true) : Neat s.toList :=
  neat_plain h hc

theorem neat_keyShareText {label : Text} (h : IsName NameChar label) (len : ℕ) :
    Neat (keyShareText label len) := by
  have hlen : Neat ('(' :: ((dec len ++ "B".toList) ++ [')'])) :=
    ((neat_dec len).append (neat_lit "B" (by decide) (by decide))).parens
  have hname : Neat ("KeyShare=".toList ++ label) :=
    (neat_lit "KeyShare=" (by decide) (by decide)).append (neat_name h.chars)
  have he : keyShareText label len =
      ("KeyShare=".toList ++ label) ++ '(' :: ((dec len ++ "B".toList) ++ [')']) := by
    unfold keyShareText
    generalize "KeyShare=".toList ++ label = a
    simp
  rw [he]
  exact hname.append hlen

theorem neat_note {t : UInt8} {note : Text} (h : IsNote NameChar t note) : Neat note := by
  cases h with
  | clientHello len hl hc =>
    exact ((neat_keyShareText hl len).append
      (neat_lit " , Cipher[0]=" (by decide) (by decide))).append (neat_name hc.chars)
  | serverHello len hl hc =>
    exact ((neat_keyShareText hl len).append
      (neat_lit " , Cipher=" (by decide) (by decide))).append (neat_name hc.chars)
  | emptyCertificate => exact neat_lit "Empty certificate list" (by decide) (by decide)
  | certificate len hs =>
    exact ((((neat_lit "LeafSig=" (by decide) (by decide)).append (neat_name hs.chars)).append
      (neat_lit " ,  Leaf=" (by decide) (by decide))).append (neat_dec len)).append
        (neat_lit "B" (by decide) (by decide))
  | certificateVerify len hs =>
    exact (((neat_lit "Algorithm=" (by decide) (by decide)).append (neat_name hs.chars)).append
      (neat_lit " , Signature=" (by decide) (by decide))).append
        ((neat_dec len).append (neat_lit "B" (by decide) (by decide)))

theorem neat_fragment {f : Text} (h : IsFragment NameChar f) : Neat f := by
  cases h with
  | @annotated t note hn =>
    have he : tlsHandshakeFragmentName t ++ "(".toList ++ note ++ ")".toList =
        tlsHandshakeFragmentName t ++ '(' :: (note ++ [')']) := by
      simp
    rw [he]
    exact (neat_word (all_tlsHandshakeFragmentName t)).append (neat_note hn).parens
  | unknown t =>
    have hx : Neat ("0x".toList ++ hexPad 2 t.toNat) :=
      (neat_lit "0x" (by decide) (by decide)).append (neat_hexPad _ _)
    have he : "UNKNOWN(0x".toList ++ hexPad 2 t.toNat ++ ")".toList =
        "UNKNOWN".toList ++ '(' :: (("0x".toList ++ hexPad 2 t.toNat) ++ [')']) := by
      simp
    rw [he]
    exact (neat_lit "UNKNOWN" (by decide) (by decide)).append hx.parens
  | plain hw => exact neat_word hw

/-- The characters that follow `RANGE=[`. -/
def rangeChar (c : Char) : Bool := isDec c || c = '-' || c = ',' || c = '.' || c = ']'

theorem neat_rangeChars {t : Text} (hne : t ≠ []) (h : ∀ c ∈ t, rangeChar c = true) :
    Neat ('[' :: t) := by
  have hchar (c : Char) (hc : rangeChar c = true) :
      (kind true).plain c ∧ c ≠ '[' ∧ fieldStart c = false := by
    simp only [rangeChar, Bool.or_eq_true, decide_eq_true_eq] at hc
    rcases hc with (((hc | rfl) | rfl) | rfl) | rfl
    · exact (by decide : ∀ c ∈ "0123456789".toList,
        (kind true).plain c ∧ c ≠ '[' ∧ fieldStart c = false) c (mem_digits hc)
    all_goals decide
  refine neat_plain (fun c hc => ?_) (calm_bracket hne fun c hc => (hchar c (h c hc)).2)
  rcases List.mem_cons.mp hc with rfl | hc
  · decide
  · exact (hchar c (h c hc)).1

theorem neat_ackRanges (ranges : List AckRange) (more : Bool) :
    Neat (packetLogFormatAckRanges ranges more) := by
  have hdec {n : ℕ} : ∀ c ∈ dec n, rangeChar c = true := fun c hc => by
    simp [rangeChar, isDec_of_mem_dec hc]
  have hranges : ∀ c ∈ [','].intercalate (ranges.map ackRangeText), rangeChar c = true := by
    intro c hc
    rcases mem_intercalate hc with hc | ⟨s, hs, hc⟩
    · rw [List.mem_singleton.mp hc]
      decide
    · obtain ⟨r, -, rfl⟩ := List.mem_map.mp hs
      unfold ackRangeText at hc
      split_ifs at hc
      · exact hdec c hc
      · exact List.forall_mem_append.mpr ⟨List.forall_mem_append.mpr ⟨hdec, by decide⟩, hdec⟩ c hc
  have hmore : ∀ c ∈ (if more then ",...".toList else []), rangeChar c = true := by
    cases more <;> decide
  have hin : Neat ('[' :: ([','].intercalate (ranges.map ackRangeText) ++
      (if more then ",...".toList else []) ++ "]".toList)) :=
    neat_rangeChars (by simp) (List.forall_mem_append.mpr
      ⟨List.forall_mem_append.mpr ⟨hranges, hmore⟩, by decide⟩)
  have h := (neat_lit "RANGE=" (by decide) (by decide)).append hin
  unfold packetLogFormatAckRanges
  generalize [','].intercalate (ranges.map ackRangeText) = a at h
  generalize (if more then ",...".toList else []) = b at h
  simpa using h

theorem neat_fields {spec : FrameSpec} (h : IsSpec NameChar spec) : Neat spec.fields := by
  have hcomma : Neat " , ".toList := neat_lit " , " (by decide) (by decide)
  cases spec with
  | ack ranges more size => exact (neat_ackRanges ranges more).append hcomma
  | crypto fragments size =>
    have hblank : Neat " ".toList := neat_lit " " (by decide) (by decide)
    have hlist : Neat (" | ".toList.intercalate fragments) :=
      neat_intercalate (neat_lit " | " (by decide) (by decide)) fun f hf => neat_fragment (h.2 f hf)
    have he : (FrameSpec.crypto fragments size).fields = " ".toList ++ lbrace :: ((" ".toList ++
        " | ".toList.intercalate fragments ++ " ".toList) ++ [rbrace]) ++ " , ".toList := by
      unfold FrameSpec.fields lbrace rbrace
      simp
    rw [he]
    exact (hblank.append ((hblank.append hlist).append hblank).braces).append hcomma
  | stream id fin size =>
    have hfin : Neat (if fin then " , FIN=1".toList else []) := by
      split_ifs
      · exact neat_lit " , FIN=1" (by decide) (by decide)
      · exact neat_word rfl
    exact (((neat_lit "ID=" (by decide) (by decide)).append (neat_dec id)).append hfin).append
      hcomma
  | newConnId seq size =>
    exact ((neat_lit "SEQ=" (by decide) (by decide)).append (neat_dec seq)).append hcomma
  | connClose error size =>
    exact ((neat_lit "ERROR=0x" (by decide) (by decide)).append (neat_hexPad 4 error)).append hcomma
  | unknown frameType size =>
    exact ((neat_lit "TYPE=0x" (by decide) (by decide)).append (neat_hexPad 2 frameType)).append
      hcomma
  | _ => exact neat_word rfl

/-! ### Frames as segments -/

theorem isSpace_of_wordChar {c : Char} (h : wordChar c = true) : isSpace c = false := by
  have hw : 33 ≤ c.toNat ∧ c.toNat ≤ 122 := by
    delta wordChar Char.isAlphanum Char.isAlpha Char.isUpper Char.isLower Char.isDigit at h
    simp only [UInt32.le_iff_toNat_le, Bool.or_eq_true, Bool.and_eq_true, decide_eq_true_eq,
      ge_iff_le] at h
    rcases h with ((((⟨h1, h2⟩ | ⟨h1, h2⟩) | ⟨h1, h2⟩) | rfl) | rfl) | rfl
    · exact ⟨le_trans (by decide) h1, le_trans h2 (by decide)⟩
    · exact ⟨le_trans (by decide) h1, le_trans h2 (by decide)⟩
    · exact ⟨le_trans (by decide) h1, le_trans h2 (by decide)⟩
    all_goals decide
  rw [← Char.ofNat_toNat c]
  generalize c.toNat = n at hw
  obtain ⟨h1, h2⟩ := hw
  interval_cases n <;> decide

/-- Outside brackets a word is passed over. -/
theorem splitLoop_word : ∀ {w : Text}, (∀ c ∈ w, wordChar c = true) → ∀ current rest : Text,
    splitLoop 0 current (w ++ rest) = splitLoop 0 (current ++ w) rest
  | [], _, current, rest => by simp
  | c :: w, hw, current, rest => by
    have hc := hw c (by simp)
    have hblank : c ≠ ' ' := by
      rintro rfl
      exact absurd (isSpace_of_wordChar hc) (by decide)
    have hdepth : nextDepth 0 c = 0 := by
      have hplain := nameChar_of_wordChar hc
      unfold nextDepth
      rw [if_neg (by rintro (rfl | rfl) <;> exact hplain (by decide)),
        if_neg (by rintro (rfl | rfl) <;> exact hplain (by decide))]
    rw [List.cons_append, splitLoop_of_ne hblank, hdepth,
      splitLoop_word fun d hd => hw d (by simp [hd]), List.append_assoc, List.singleton_append]

/-- A word with balanced parentheses after it. -/
theorem segment_parens {w body : Text} (hne : w ≠ []) (hw : ∀ c ∈ w, wordChar c = true)
    (hb : Balanced (kind true) body) : Segment (w ++ '(' :: (body ++ [')'])) := by
  have hword : Trimmed w := trimmed_of_forall hne fun c hc => isSpace_of_wordChar (hw c hc)
  have hclose : Trimmed [')'] := trimmed_of_forall (by simp) (by decide)
  refine ⟨fun current rest => ?_, hword.append ('(' :: body) hclose⟩
  rw [List.append_assoc, splitLoop_word hw, List.cons_append, splitLoop_of_ne (by decide)]
  change splitLoop (0 + 1) _ _ = _
  rw [List.append_assoc body, counts_splitLoop.balanced hb, List.singleton_append, splitLoop_succ]
  change splitLoop 0 _ _ = _
  simp

theorem segment_unknown : Segment "UNKNOWN".toList :=
  ⟨splitLoop_word (by decide), ⟨⟨'U', "NKNOWN".toList, by decide, by decide⟩,
    ⟨"UNKNOW".toList, 'N', by decide, by decide⟩⟩⟩

section

variable {spec : FrameSpec}

theorem specText_eq (spec : FrameSpec) : spec.text = (spec.name.toList ++ "--".toList) ++
    '(' :: ((spec.fields ++ "SIZE=".toList ++ dec spec.size ++ "B".toList) ++ [')']) := by
  unfold FrameSpec.text
  simp

theorem neat_body (h : IsSpec NameChar spec) :
    Neat (spec.fields ++ "SIZE=".toList ++ dec spec.size ++ "B".toList) :=
  (((neat_fields h).append (neat_lit "SIZE=" (by decide) (by decide))).append (neat_dec _)).append
    (neat_lit "B" (by decide) (by decide))

theorem word_name (spec : FrameSpec) : ∀ c ∈ spec.name.toList ++ "--".toList, wordChar c = true :=
  List.forall_mem_append.mpr ⟨List.all_eq_true.mp (all_name spec), by decide⟩

theorem neat_spec (h : IsSpec NameChar spec) : Neat spec.text := by
  rw [specText_eq]
  exact (neat_name fun c hc => nameChar_of_wordChar (word_name spec c hc)).append
    (neat_body h).parens

theorem segment_spec (h : IsSpec NameChar spec) : Segment spec.text := by
  rw [specText_eq]
  exact segment_parens (by simp) (word_name spec) ((neat_body h).balanced true)

end

/-! ### The frames of a line -/

section

variable {l : PacketLine}

theorem segment_frames (h : ∀ spec ∈ l.specs, IsSpec NameChar spec) : ∀ f ∈ l.frames, Segment f :=
  l.forall_frames (fun spec hs => segment_spec (h spec hs)) segment_unknown

theorem neat_frames (h : ∀ spec ∈ l.specs, IsSpec NameChar spec) :
    Neat (" | ".toList.intercalate l.frames) := by
  refine neat_intercalate (neat_lit " | " (by decide) (by decide)) ?_
  exact l.forall_frames (fun spec hs => neat_spec (h spec hs))
    (neat_lit "UNKNOWN" (by decide) (by decide))

end

/-- The blanks around the frames are removed. -/
theorem strip_frames {ts : List Text} (h : ∀ t ∈ ts, Trimmed t) :
    strip (" ".toList ++ " | ".toList.intercalate ts ++ " ".toList) =
      " | ".toList.intercalate ts := by
  rcases ts with _ | ⟨t, ts⟩
  · decide
  · exact strip_append (trimmed_intercalate _ (by simp) h) (by decide) (by decide)

/-- **The payload of a line** with other text before and after it, is what was printed. -/
theorem extractBracedPayload_frames {ts : List Text} (ht : ∀ t ∈ ts, Trimmed t)
    (hb : Balanced (kind false) (" | ".toList.intercalate ts)) {before : Text}
    (hbefore : ∀ c ∈ before, c ≠ lbrace) (after : Text) :
    extractBracedPayload (before ++ lbrace :: (" ".toList ++ " | ".toList.intercalate ts ++
      " ".toList ++ rbrace :: after)) = some (" | ".toList.intercalate ts) := by
  have hblank : Balanced (kind false) " ".toList := .plain (by decide)
  have hloop := counts_balancedLoop.balanced ((hblank.append hb).append hblank) 0 []
    (rbrace :: after)
  have hstop (inner : Text) : balancedLoop lbrace rbrace (0 + 1) inner (rbrace :: after) =
      some (inner, after) := by
    rw [balancedLoop, if_neg (by decide), if_pos rfl, if_pos rfl]
  rw [hstop, List.nil_append] at hloop
  have hdrop : (before ++ lbrace :: (" ".toList ++ " | ".toList.intercalate ts ++ " ".toList ++
      rbrace :: after)).dropWhile (· ≠ lbrace) = lbrace :: (" ".toList ++
        " | ".toList.intercalate ts ++ " ".toList ++ rbrace :: after) := by
    rw [List.dropWhile_append_of_pos (by simpa using hbefore)]
    simp
  rw [extractBracedPayload, hdrop]
  change Option.map _ (balancedLoop lbrace rbrace (0 + 1) [] _) = _
  rw [hloop, Option.map_some, strip_frames ht]

end PapQuic.Script.Frames
