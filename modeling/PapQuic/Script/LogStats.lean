import PapQuic.Lib.Scan
import PapQuic.Script.ParseLog

/-! # The statistics of a log

`parse_packet_log` of `scripts/run_packet_count.py` goes over the lines of a log. From a line that
says `SENT` it takes the datagram size, the packet type and the sizes of the CRYPTO and PADDING
frames; from every line it takes what looks like a metric in milliseconds.

The patterns are not anchored, so each of them could match anywhere in a line. On the lines of a log
they match only where they are meant to (`parsePacketLog_log`), as long as the names that libcrypto
has for signature algorithms have neither a colon, an equals sign nor a line break in them, and do
not start with a number of milliseconds. -/

namespace PapQuic.Script.LogStats

open Lib.Printf Lib.Double Lib.Re Lib.Scan Lib.TextFile Log.Metadata
open Log.Clock Log.FrameList Log.Lines Log.Notes Log.Chars Log.Output Script.Fields
open Script.PacketLine Script.Frames Script.ParseLog

/-! ### The script -/

/-- `DATAGRAM_SENT_PATTERN`. -/
def datagramSentPattern : Regex :=
  .seq (.lit "[".toList) (.seq (.alt (.lit "CLIENT".toList) (.lit "SERVER".toList))
    (.seq (.lit " SENT] [DATAGRAM-SIZE : ".toList)
      (.seq (.group (.rep isDec 1)) (.lit "B]".toList))))

/-- `PACKET_TYPE_PATTERN`. -/
def packetTypePattern : Regex :=
  .seq (.lit "PACKET ".toList) (.seq (.rep isDec 1) (.seq (.lit " : ".toList)
    (.group (.rep Char.isAlpha 1))))

/-- `CRYPTO_FRAME_PATTERN`. -/
def cryptoFramePattern : Regex :=
  .seq (.lit "CRYPTO--(".toList) (.seq (.lazy (· ≠ '\n')) (.seq (.lit "SIZE=".toList)
    (.seq (.group (.rep isDec 1)) (.lit "B)".toList))))

/-- `PADDING_FRAME_PATTERN`. -/
def paddingFramePattern : Regex :=
  .seq (.lit "PADDING--(SIZE=".toList) (.seq (.group (.rep isDec 1)) (.lit "B)".toList))

/-- `[0-9.]`. -/
def isNum (c : Char) : Bool := isDec c || c = '.'

/-- `INTERNAL_PATTERN` after the equals sign. -/
def msRe : Regex := .seq (.group (.rep isNum 1)) (.lit "ms".toList)

/-- `INTERNAL_PATTERN`. -/
def internalPattern : Regex := led Char.isAlphanum '=' msRe

/-- `PacketStats`. -/
structure PacketStats where
  packetsSent : ℕ
  bytesSent : ℕ
  cryptoBytesSent : ℕ
  paddingBytesSent : ℕ
  initialPackets : ℕ
  initialBytesSent : ℕ
  handshakePackets : ℕ
  handshakeBytesSent : ℕ
  internals : Text → Option ℚ

/-- `PacketStats()`. -/
def PacketStats.new : PacketStats := ⟨0, 0, 0, 0, 0, 0, 0, 0, fun _ => none⟩

/-- `int` of what the only group of a pattern captured. -/
def intOf : List Text → ℕ
  | [n] => ofDec n
  | _ => 0

/-- A datagram with a packet of a type. -/
def countType (ptype : Text) (dgramSize : ℕ) (stats : PacketStats) : PacketStats :=
  if ptype = "Initial".toList then
    { stats with
      initialPackets := stats.initialPackets + 1
      initialBytesSent := stats.initialBytesSent + dgramSize }
  else if ptype = "Handshake".toList then
    { stats with
      handshakePackets := stats.handshakePackets + 1
      handshakeBytesSent := stats.handshakeBytesSent + dgramSize }
  else stats

/-- The packet type of a line that is sent. -/
def addType (line : Text) (dgramSize : ℕ) (stats : PacketStats) : PacketStats :=
  match search packetTypePattern line with
  | some ([ptype], _) => countType ptype dgramSize stats
  | _ => stats

/-- The frames of a line that is sent. -/
def addFrames (line : Text) (stats : PacketStats) : PacketStats :=
  { stats with
    cryptoBytesSent := ((findall cryptoFramePattern line).map intOf).foldl (· + ·)
      stats.cryptoBytesSent
    paddingBytesSent := ((findall paddingFramePattern line).map intOf).foldl (· + ·)
      stats.paddingBytesSent }

/-- The branch of a line that is sent. -/
def addSent (line : Text) (stats : PacketStats) : PacketStats :=
  match search datagramSentPattern line with
  | some ([n], _) =>
    addFrames line (addType line (ofDec n)
      { stats with packetsSent := stats.packetsSent + 1, bytesSent := stats.bytesSent + ofDec n })
  | _ => stats

/-- `float` of digits and points; `ValueError` where it is not a number. -/
def floatOf (val : Text) : Option ℚ :=
  if val.count '.' ≤ 1 ∧ ∃ c ∈ val, isDec c = true then some (float val) else none

/-- `stats.internals[key] = float(val)`. -/
def setInternal (stats : PacketStats) : List Text → Option PacketStats
  | [key, val] => (floatOf val).map fun v =>
    { stats with internals := Function.update stats.internals key (some v) }
  | _ => some stats

/-- One round of the loop over the lines. -/
def addStats (stats : PacketStats) (rawLine : Text) : Option PacketStats :=
  (findall internalPattern (strip rawLine)).foldlM setInternal (addSent (strip rawLine) stats)

/-- `parse_packet_log`, with the text of the log if it exists. -/
def parsePacketLog : Option Text → Option PacketStats
  | none => some .new
  | some content => (readLines content).foldlM addStats .new

/-! ### What is in a log -/

/-- The packet that a line says was sent. -/
def sentOf : Line → Option PacketLine
  | .packet l => if l.event.isSend then some l else none
  | .internal _ => none

/-- The value that an item prints. -/
def printedValue : Item → Option (Text × ℚ)
  | .metric m (some value) => some (m.name.toList, float (fprintf 0 3 (quicTimingToMs value)))
  | .handshakeLatency (some us) =>
    some ("handshakeLatency".toList, float (fprintf 0 2 (fl (fl us / 1000))))
  | _ => none

/-- The values that a line prints. -/
def printedValues : Line → List (Text × ℚ)
  | .packet _ => []
  | .internal l => l.items.filterMap printedValue

/-- The value of a name that comes last. -/
def lastOf (values : List (Text × ℚ)) (name : Text) : Option ℚ :=
  ((values.filter (·.1 = name)).getLast?).map Prod.snd

/-- The packets of a type. -/
def ofType (t : PktType) (packets : List PacketLine) : List PacketLine :=
  packets.filter (·.event.packetType = some t)

/-- The sum of the sizes printed for the frames of a name. -/
def frameBytes (name : String) (packets : List PacketLine) : ℕ :=
  (((packets.flatMap (·.specs)).filter (·.name = name)).map FrameSpec.size).sum

def datagramBytes (packets : List PacketLine) : ℕ := (packets.map (·.event.datagramSize)).sum

/-- The statistics of the lines of a log. -/
def statsOf (log : List Line) : PacketStats :=
  let sent := log.filterMap sentOf
  { packetsSent := sent.length
    bytesSent := datagramBytes sent
    cryptoBytesSent := frameBytes "CRYPTO" sent
    paddingBytesSent := frameBytes "PADDING" sent
    initialPackets := (ofType .initial sent).length
    initialBytesSent := datagramBytes (ofType .initial sent)
    handshakePackets := (ofType .handshake sent).length
    handshakeBytesSent := datagramBytes (ofType .handshake sent)
    internals := lastOf (log.flatMap printedValues) }

/-! ### The parts of a line -/

/-- The stamp and the blank after it. -/
def stampPart (l : Line) : Text := "[".toList ++ l.stamp ++ " ms] ".toList

/-- The role and the kind. -/
def rolePart (l : Line) : Text :=
  "[".toList ++ (roleName l.isServer).toList ++ " ".toList ++ l.kind.toList ++ "] ".toList

theorem text_parts (l : Line) : l.text = stampPart l ++ rolePart l ++ l.rest := by
  simp [Line.text, stampPart, rolePart]

/-- All that a packet line has before its frames. -/
def beforeFrames (l : PacketLine) : Text :=
  stampPart (.packet l) ++ rolePart (.packet l) ++
    (sizePart l ++ deltaPart l.delta ++ packetPart l) ++ [lbrace]

/-- What it has after them. -/
def afterFrames (l : PacketLine) : Text :=
  [rbrace] ++ ("  ".toList ++ packetLogAppendCreditFields l.event)

theorem packetText_shape (s a f c : Text) :
    s ++ (a ++ lbrace :: (" ".toList ++ f ++ " ".toList ++ [rbrace]) ++ c) =
      s ++ a ++ [lbrace] ++ " ".toList ++ f ++ " ".toList ++ ([rbrace] ++ c) := by
  simp

variable (l : PacketLine)

theorem packetText_eq : (Line.packet l).text =
    beforeFrames l ++ " ".toList ++ " | ".toList.intercalate l.frames ++ " ".toList ++
      afterFrames l := by
  rw [text_parts]
  change _ ++ l.rest = _
  rw [rest_eq, framesPart]
  exact packetText_shape _ _ _ _

theorem heads_stampPart (l : Line) : Heads (stampPart l) :=
  ((by decide : Heads _).append (heads_stamp l)).append (by decide)

theorem heads_rolePart (l : Line) : Heads (rolePart l) :=
  ((((by decide : Heads _).append (heads_roleName _)).append (by decide)).append
    (heads_kind l)).append (by decide)

theorem heads_before : Heads (stampPart (.packet l) ++ rolePart (.packet l) ++
    (sizePart l ++ deltaPart l.delta ++ packetPart l)) := by
  have hsize : Heads (sizePart l) :=
    (heads_field (by decide) ((heads_dec _).append (by decide))).append (by decide)
  have hdelta : Heads (deltaPart l.delta) := by
    unfold deltaPart
    split
    · exact (heads_field (by decide) (heads_deltaText _)).append (by decide)
    · decide
  have hpacket : Heads (packetPart l) :=
    ((((by decide : Heads _).append (heads_dec _)).append (by decide)).append
      (heads_typeName _)).append (by decide)
  exact ((heads_stampPart _).append (heads_rolePart _)).append
    ((hsize.append hdelta).append hpacket)

theorem not_mem_heads {s : Text} (h : Heads s) {c : Char} (hc : headMark c = false) : c ∉ s := by
  intro hm
  rw [h c hm] at hc
  cases hc

theorem not_mem_before {c : Char} (hc : headMark c = false) (hb : c ≠ lbrace) (l : PacketLine) :
    c ∉ beforeFrames l := by
  rw [beforeFrames, List.mem_append, not_or]
  exact ⟨not_mem_heads (heads_before l) hc, by simpa using hb⟩

theorem not_mem_after {c : Char} (hc : headMark c = false) (hb : c ≠ rbrace) (l : PacketLine) :
    c ∉ afterFrames l := by
  have hs : Heads ("  ".toList ++ packetLogAppendCreditFields l.event) :=
    (by decide : Heads _).append (heads_creditFields _)
  rw [afterFrames, List.mem_append, not_or]
  exact ⟨by simpa using hb, not_mem_heads hs hc⟩

/-- The frames of a line as specifications, and `none` for the text of bytes that are none. -/
def framesOf (l : PacketLine) : List (Option FrameSpec) :=
  l.specs.map some ++ if l.haveFrames then [] else [none]

def frameText : Option FrameSpec → Text
  | some spec => spec.text
  | none => "UNKNOWN".toList

theorem frames_eq : l.frames = (framesOf l).map frameText := by
  unfold PacketLine.frames framesOf
  rw [List.map_append, List.map_map]
  cases l.haveFrames <;> rfl

theorem flatMap_framesOf {α : Type*} (f : FrameSpec → List α) (l : PacketLine) :
    (framesOf l).flatMap (fun o => o.elim [] f) = l.specs.flatMap f := by
  unfold framesOf
  cases l.haveFrames <;> simp [List.flatMap_map]

/-! ### The names -/

/-- The characters of names. -/
def StatChar (c : Char) : Prop := c ∉ ":=\n\r".toList

instance (c : Char) : Decidable (StatChar c) := inferInstanceAs (Decidable (¬ _))

/-- What the names that libcrypto has for signature algorithms are taken to be. -/
structure StatNames (lib : X509Lib) : Prop where
  chars : ∀ nid name, lib.objNid2sn nid = some name → ∀ c ∈ name, StatChar c
  start : ∀ nid name, lib.objNid2sn nid = some name → matchStart msRe name = none

theorem statChar_of_wordChar {c : Char} (h : wordChar c = true) : StatChar c := by
  intro hm
  have hne : ∀ c ∈ ":=\n\r".toList, wordChar c = false := by decide
  rw [hne c hm] at h
  cases h

theorem StatNames.namesOf {lib : X509Lib} (h : StatNames lib) : NamesOf StatChar lib :=
  ⟨fun _ => statChar_of_wordChar, h.chars⟩

/-! ### Datagrams -/

/-- What a datagram field of a line that is sent starts with. -/
def sentWord (isServer : Bool) : Text :=
  "[".toList ++ (roleName isServer).toList ++ " SENT] [DATAGRAM-SIZE : ".toList

theorem sentWord_prefix (s : Text) (h : results datagramSentPattern s ≠ []) :
    ∃ w ∈ [sentWord false, sentWord true], w <+: s := by
  obtain ⟨x, hx, h⟩ := exists_of_seq h
  obtain ⟨y, hy, h⟩ := exists_of_seq h
  obtain ⟨z, hz, -⟩ := exists_of_seq h
  rw [eq_of_mem_lit hx]
  rcases List.mem_append.mp hy with hy | hy <;> rw [eq_of_mem_lit hy, eq_of_mem_lit hz]
  · exact ⟨sentWord false, by simp, z.2, by simp [sentWord, roleName]⟩
  · exact ⟨sentWord true, by simp, z.2, by simp [sentWord, roleName]⟩

/-- No datagram field that is sent starts in the text. -/
abbrev Unsent (s : Text) : Prop := ∀ isServer, apart (sentWord isServer) s = true

theorem Unsent.append {s t : Text} (hs : Unsent s) (ht : Unsent t) : Unsent (s ++ t) :=
  fun isServer => apart_append (ht isServer) (hs isServer)

theorem unsent_of_not_mem {s : Text} (h : '[' ∉ s) : Unsent s := fun _ => apart_of_head h

theorem Unsent.skips {s : Text} (h : Unsent s) : Skips datagramSentPattern s :=
  skips_of_forall_apart sentWord_prefix (by simpa using ⟨h false, h true⟩)

theorem over_stamp {p : Char → Prop} (hd : ∀ c, isDec c = true → p c) (hdot : p '.') (hb : p ' ')
    (l : Line) : Over p l.stamp := by
  obtain ⟨f, -, he⟩ := l.stamp_eq
  rw [he]
  exact over_padLeft (over_decimal hd hdot _ _ _) hb _

theorem stamp_ne_nil (l : Line) : l.stamp ≠ [] := by
  obtain ⟨f, -, he⟩ := l.stamp_eq
  rw [he]
  simp [padLeft, decimal]

theorem unsent_stampPart (l : Line) : Unsent (stampPart l) := by
  have hchars : Over (fun c => c ∉ "[CS".toList) l.stamp :=
    over_stamp (fun c hc => (by decide : ∀ c ∈ "0123456789".toList, c ∉ "[CS".toList) c
      (mem_digits hc)) (by decide) (by decide) l
  obtain ⟨d, s, hs⟩ := List.exists_cons_of_ne_nil (stamp_ne_nil l)
  have hrest : '[' ∉ d :: (s ++ " ms] ".toList) := by
    rw [← List.cons_append, ← hs, List.mem_append, not_or]
    exact ⟨fun hm => hchars _ hm (by decide), by decide⟩
  have hd : d ∉ "[CS".toList := hchars d (by simp [hs])
  intro isServer
  rw [stampPart, hs]
  cases isServer
  · exact apart_cons_cons (fun he : 'C' = d => hd (he ▸ by decide)) (apart_of_head hrest)
  · exact apart_cons_cons (fun he : 'S' = d => hd (he ▸ by decide)) (apart_of_head hrest)

theorem matchStart_datagram (isServer : Bool) (n : ℕ) (rest : Text) :
    matchStart datagramSentPattern (sentWord isServer ++ (dec n ++ ("B]".toList ++ rest))) =
      some ([dec n], rest) := by
  have hsize : matchStart (.seq (.group (.rep isDec 1)) (.lit "B]".toList))
      (dec n ++ ("B]".toList ++ rest)) = some ([dec n], rest) :=
    matchStart_seq (matchStart_group (matchStart_rep (fun _ hc => isDec_of_mem_dec hc)
      (List.length_pos_iff.mpr (dec_ne_nil n)) (by simp; decide))) (matchStart_lit _ _)
  rw [sentWord, List.append_assoc, List.append_assoc]
  exact matchStart_seq_nil (matchStart_lit _ _) (matchStart_seq_nil (matchStart_role isServer _)
    (matchStart_seq_nil (matchStart_lit _ _) hsize))

theorem sent_shape (r n tail : Text) :
    "[".toList ++ r ++ " ".toList ++ "SENT".toList ++ "] ".toList ++
        ('[' :: ("DATAGRAM-SIZE : ".toList ++ n ++ "B] ".toList) ++ tail) =
      "[".toList ++ r ++ " SENT] [DATAGRAM-SIZE : ".toList ++ (n ++ ("B]".toList ++
        (" ".toList ++ tail))) := by
  simp

/-- **The datagram of a line that is sent.** -/
theorem search_datagram_sent {l : PacketLine} (h : l.event.isSend = true) :
    ∃ rest, search datagramSentPattern (Line.packet l).text =
      some ([dec l.event.datagramSize], rest) := by
  have hkind : (Line.packet l).kind.toList = "SENT".toList := by
    rw [Line.kind, h]
    rfl
  have hrest : (Line.packet l).rest = sizePart l ++ (deltaPart l.delta ++ packetPart l ++
      framesPart l ++ ("  ".toList ++ packetLogAppendCreditFields l.event)) := by
    change l.rest = _
    rw [rest_eq]
    simp only [List.append_assoc]
  rw [text_parts, List.append_assoc, (unsent_stampPart _).skips, rolePart, hkind, hrest,
    sizePart_eq, sent_shape]
  exact ⟨_, search_of_matchStart (matchStart_datagram _ _ _)⟩

/-! ### Lines that are not sent -/

theorem unsent_value {v : Text} (h : IsValue v) : Unsent v :=
  unsent_of_not_mem fun hm => (h.chars _ hm).1 rfl

theorem unsent_field {name : String} {v : Text}
    (hn : Unsent ("[".toList ++ name.toList ++ " : ".toList)) (hv : IsValue v) :
    Unsent (field name v) :=
  (hn.append (unsent_value hv)).append (by decide)

theorem unsent_credits (event : PacketLogEvent) : Unsent (packetLogAppendCreditFields event) := by
  obtain ⟨hb, ha, hc⟩ := isValue_serverCredit event
  obtain ⟨hd, he⟩ := isValue_clientCredit event
  unfold packetLogAppendCreditFields
  split_ifs
  · exact ((((unsent_field (by decide) hb).append (by decide)).append
      (unsent_field (by decide) ha)).append (by decide)).append (unsent_field (by decide) hc)
  · exact ((unsent_field (by decide) hd).append (by decide)).append (unsent_field (by decide) he)

theorem unsent_fields : Unsent (sizePart l ++ deltaPart l.delta ++ packetPart l) := by
  have hsize : Unsent (sizePart l) :=
    (unsent_field (by decide) (isValue_bytes _)).append (by decide)
  have hdelta : Unsent (deltaPart l.delta) := by
    unfold deltaPart
    split
    · exact (unsent_field (by decide) (isValue_deltaText _)).append (by decide)
    · decide
  have hpacket : '[' ∉ packetPart l := by
    have ht : '[' ∉ l.event.typeName.toList := fun hm =>
      absurd ((typeName_word l.event).2 _ hm) (by decide)
    unfold packetPart
    simp only [List.mem_append, not_or]
    exact ⟨⟨⟨⟨by decide, not_mem_dec (by decide)⟩, by decide⟩, ht⟩, by decide⟩
  exact (hsize.append hdelta).append (unsent_of_not_mem hpacket)

/-- What is known of the specifications of a packet line. -/
structure Clear (l : PacketLine) : Prop where
  colon : ∀ spec ∈ l.specs, IsSpec (· ≠ ':') spec
  equals : ∀ spec ∈ l.specs, IsSpec (· ≠ '=') spec
  line : ∀ spec ∈ l.specs, IsSpec LineChar spec

theorem not_mem_frames {l : PacketLine} (h : Clear l) :
    ':' ∉ lbrace :: (" ".toList ++ " | ".toList.intercalate l.frames ++ " ".toList) := by
  have hmark (c : Char) (hc : frameMark c = true) : c ≠ ':' := by
    rintro rfl
    revert hc
    decide
  have hframes : ∀ f ∈ l.frames, Over (· ≠ ':') f :=
    l.forall_frames (fun spec hs => over_specText hmark (h.colon spec hs) fun _ => by decide)
      (by decide)
  have hover : Over (· ≠ ':') (" | ".toList.intercalate l.frames) :=
    over_intercalate (by decide) hframes
  intro hm
  simp only [List.mem_cons, List.mem_append] at hm
  rcases hm with hm | (hm | hm) | hm
  · revert hm; decide
  · revert hm; decide
  · exact hover _ hm rfl
  · revert hm; decide

theorem framesPart_closed : framesPart l =
    lbrace :: (" ".toList ++ " | ".toList.intercalate l.frames ++ " ".toList) ++ [rbrace] := by
  rw [framesPart, List.cons_append]

theorem unsent_framesPart {l : PacketLine} (h : Clear l) : Unsent (framesPart l) := by
  intro isServer
  rw [framesPart_closed]
  refine apart_closed ?_ ?_ (by decide) (not_mem_frames h)
  · cases isServer <;> decide
  · cases isServer <;> decide

theorem search_datagram_nil : search datagramSentPattern [] = none := by decide

theorem Unsent.search_eq_none {s : Text} (h : Unsent s) : search datagramSentPattern s = none := by
  have hs := h.skips []
  rwa [List.append_nil, search_datagram_nil] at hs

theorem unsent_rolePart {l : Line} (h : l.kind ≠ "SENT") : Unsent (rolePart l) := by
  have hkind : l.kind ∈ ["RECEIVED", "INTERNAL"] := by
    cases l with
    | packet l => cases hs : l.event.isSend <;> simp_all [Line.kind, directionName]
    | internal l => simp [Line.kind]
  unfold rolePart
  clear h
  generalize l.isServer = isServer
  revert isServer
  generalize l.kind = kind at hkind ⊢
  revert kind
  decide +kernel

theorem search_datagram_received {l : PacketLine} (hc : Clear l) (h : l.event.isSend = false) :
    search datagramSentPattern (Line.packet l).text = none := by
  have hkind : (Line.packet l).kind ≠ "SENT" := by
    rw [Line.kind, h]
    decide
  rw [text_parts]
  change search _ (_ ++ l.rest) = _
  rw [rest_eq]
  exact Unsent.search_eq_none (((unsent_stampPart _).append (unsent_rolePart hkind)).append
    (((unsent_fields l).append (unsent_framesPart hc)).append
      ((by decide : Unsent "  ".toList).append (unsent_credits _))))

/-! ### Packet types -/

theorem packetType_mark (s : Text) (h : results packetTypePattern s ≠ []) :
    ∃ e t, s = e ++ ':' :: t ∧ ∀ c ∈ e, isDec c = true ∨ c ∈ "PACKET ".toList := by
  obtain ⟨x, hx, h⟩ := exists_of_seq h
  obtain ⟨y, hy, h⟩ := exists_of_seq h
  obtain ⟨z, hz, -⟩ := exists_of_seq h
  obtain ⟨d, hd, -, hp⟩ := exists_of_mem_rep hy
  refine ⟨"PACKET ".toList ++ d ++ " ".toList, ' ' :: z.2, ?_, fun c hc => ?_⟩
  · rw [eq_of_mem_lit hx, hd, eq_of_mem_lit hz]
    simp
  · simp only [List.mem_append] at hc
    rcases hc with (hc | hc) | hc
    · exact .inr hc
    · exact .inl (hp c hc)
    · exact .inr (by rw [List.mem_singleton.mp hc]; decide)

/-- The letters that the type of a packet starts with. -/
def typeWord (l : PacketLine) : Text := l.event.typeName.toList.takeWhile Char.isAlpha

theorem matchStart_packetType {l : PacketLine} (h : typeWord l ≠ []) (rest : Text) :
    ∃ rest', matchStart packetTypePattern (packetPart l ++ rest) = some ([typeWord l], rest') := by
  have hnum (t : Text) : matchStart (.rep isDec 1)
      (dec l.event.packetNumber ++ (" : ".toList ++ t)) = some ([], " : ".toList ++ t) :=
    matchStart_rep (fun _ hc => isDec_of_mem_dec hc) (List.length_pos_iff.mpr (dec_ne_nil _))
      (by simp; decide)
  have hstop : ∀ c ∈ (l.event.typeName.toList.dropWhile Char.isAlpha ++ (" ".toList ++ rest)).head?,
      Char.isAlpha c = false := by
    intro c hc
    rcases hd : l.event.typeName.toList.dropWhile Char.isAlpha with _ | ⟨d, s⟩
    · rw [hd] at hc
      obtain rfl : ' ' = c := by simpa using hc
      decide
    · rw [hd] at hc
      obtain rfl : d = c := by simpa using hc
      have hnot := List.head?_dropWhile_not Char.isAlpha l.event.typeName.toList
      rw [hd] at hnot
      simpa using hnot
  have htype : matchStart (.group (.rep Char.isAlpha 1)) (typeWord l ++
      (l.event.typeName.toList.dropWhile Char.isAlpha ++ (" ".toList ++ rest))) =
        some ([typeWord l], l.event.typeName.toList.dropWhile Char.isAlpha ++
          (" ".toList ++ rest)) :=
    matchStart_group (matchStart_rep (fun _ hc => List.mem_takeWhile_imp hc)
      (List.length_pos_iff.mpr h) hstop)
  have he : packetPart l ++ rest =
      "PACKET ".toList ++ (dec l.event.packetNumber ++ (" : ".toList ++ (typeWord l ++
        (l.event.typeName.toList.dropWhile Char.isAlpha ++ (" ".toList ++ rest))))) := by
    unfold packetPart typeWord
    rw [← List.append_assoc (List.takeWhile _ _), List.takeWhile_append_dropWhile]
    simp only [List.append_assoc]
  rw [he]
  exact ⟨_, matchStart_seq_nil (matchStart_lit _ _) (matchStart_seq_nil (hnum _)
    (matchStart_seq_nil (matchStart_lit _ _) htype))⟩

theorem results_packetType_nil {l : PacketLine} (h : typeWord l = []) (rest : Text) :
    results packetTypePattern (packetPart l ++ rest) = [] := by
  by_contra hne
  obtain ⟨x, hx, hne⟩ := exists_of_seq hne
  obtain ⟨y, hy, hne⟩ := exists_of_seq hne
  obtain ⟨z, hz, hne⟩ := exists_of_seq hne
  obtain ⟨d, hd, -, hdec⟩ := exists_of_mem_rep hy
  have he := eq_of_mem_lit hx
  rw [hd, eq_of_mem_lit hz] at he
  -- both numbers end at the first blank
  have hcut : dec l.event.packetNumber ++ ' ' :: (": ".toList ++ l.event.typeName.toList ++
      " ".toList ++ rest) = d ++ ' ' :: (": ".toList ++ z.2) := by
    unfold packetPart at he
    simpa using he
  have hblank : ' ' ∉ d := fun hm => absurd (hdec _ hm) (by decide)
  obtain ⟨-, he⟩ := cut_eq (not_mem_dec (by decide)) hblank hcut
  obtain ⟨u, hu⟩ := List.exists_mem_of_ne_nil _ hne
  obtain ⟨v, hv, -⟩ := exists_of_mem_group hu
  obtain ⟨e, hz2, hlen, halpha⟩ := exists_of_mem_rep hv
  obtain ⟨c, w, hw⟩ := List.exists_cons_of_ne_nil (typeName_word l.event).1
  obtain ⟨c', e, rfl⟩ := List.exists_cons_of_ne_nil (List.length_pos_iff.mp hlen)
  obtain rfl : c = c' := by
    rw [hz2, hw, List.append_assoc, List.append_assoc] at he
    exact (List.cons.inj (List.append_cancel_left he)).1
  rw [typeWord, hw, List.takeWhile_cons_of_pos (halpha c (by simp))] at h
  cases h

theorem not_mem_fields :
    'P' ∉ stampPart (.packet l) ++ rolePart (.packet l) ++ (sizePart l ++ deltaPart l.delta) := by
  have hstamp : 'P' ∉ stampPart (.packet l) := by
    have h : Over (· ≠ 'P') (Line.packet l).stamp :=
      over_stamp (fun c hc => (by decide : ∀ c ∈ "0123456789".toList, c ≠ 'P') c (mem_digits hc))
        (by decide) (by decide) _
    simp only [stampPart, List.mem_append, not_or]
    exact ⟨⟨by decide, fun hm => h _ hm rfl⟩, by decide⟩
  have hrole : 'P' ∉ rolePart (.packet l) := by
    unfold rolePart Line.isServer Line.kind
    dsimp only
    generalize l.event.isServer = isServer
    generalize l.event.isSend = isSend
    revert isServer isSend
    decide
  rw [List.mem_append, List.mem_append, not_or, not_or]
  exact ⟨⟨hstamp, hrole⟩, fun hm => head_chars (.inl rfl) l _ hm rfl⟩

theorem skips_credits (event : PacketLogEvent) :
    Skips packetTypePattern ("  ".toList ++ packetLogAppendCreditFields event) := by
  have hfield {name : String} {v : Text} (hn : apart "PACKET ".toList
      ("[".toList ++ name.toList ++ " : ".toList) = true) (hv : 'P' ∉ v) :
      apart "PACKET ".toList (field name v) = true :=
    apart_append (by decide) (apart_append (apart_of_head hv) hn)
  have hcredit (have_ unlimited : Bool) (credit : ℕ) : 'P' ∉ creditText have_ unlimited credit := by
    unfold creditText
    split_ifs
    · decide
    · rw [List.mem_append, not_or]
      exact ⟨not_mem_dec (by decide), by decide⟩
    · decide
  refine skips_of_apart (apart_append ?_ (by decide))
  unfold packetLogAppendCreditFields
  split_ifs
  · have hamp : 'P' ∉ event.serverCredit.2.1 := by
      unfold PacketLogEvent.serverCredit
      dsimp only
      split_ifs <;> decide
    exact apart_append (hfield (by decide) (hcredit _ _ _)) (apart_append (by decide) (apart_append
      (hfield (by decide) hamp) (apart_append (by decide) (hfield (by decide) (hcredit _ _ _)))))
  · have hc : 'P' ∉ event.clientCredit.1 ∧ 'P' ∉ event.clientCredit.2 := by
      unfold PacketLogEvent.clientCredit
      split_ifs <;> decide
    exact apart_append (hfield (by decide) hc.2) (apart_append (by decide)
      (hfield (by decide) hc.1))

theorem skips_framesPart {l : PacketLine} (h : Clear l) :
    Skips packetTypePattern (framesPart l) := by
  rw [framesPart_closed]
  refine skips_of_mark packetType_mark ?_ (by decide) (not_mem_frames h)
  decide

theorem packetPart_cons : ∃ t, packetPart l = 'P' :: t ∧ 'P' ∉ t := by
  have htype : 'P' ∉ l.event.typeName.toList := by
    unfold PacketLogEvent.typeName
    rcases l.event.packetType with _ | t
    · decide
    · cases t <;> decide
  refine ⟨"ACKET ".toList ++ dec l.event.packetNumber ++ " : ".toList ++ l.event.typeName.toList ++
    " ".toList, rfl, ?_⟩
  simp only [List.mem_append, not_or]
  exact ⟨⟨⟨⟨by decide, not_mem_dec (by decide)⟩, by decide⟩, htype⟩, by decide⟩

/-- **The type of a packet** is read as the letters it starts with. -/
theorem search_packetType {l : PacketLine} (h : Clear l) :
    (search packetTypePattern (Line.packet l).text).map Prod.fst =
      if typeWord l = [] then none else some [typeWord l] := by
  have htext : (Line.packet l).text = stampPart (.packet l) ++ rolePart (.packet l) ++
      (sizePart l ++ deltaPart l.delta) ++ (packetPart l ++ (framesPart l ++
        ("  ".toList ++ packetLogAppendCreditFields l.event))) := by
    rw [text_parts]
    change _ ++ l.rest = _
    rw [rest_eq]
    simp only [List.append_assoc]
  have hskip : Skips packetTypePattern
      (stampPart (.packet l) ++ rolePart (.packet l) ++ (sizePart l ++ deltaPart l.delta)) :=
    skips_of_apart (apart_of_head (not_mem_fields l))
  rw [htext, hskip]
  split_ifs with hw
  · obtain ⟨t, ht, hP⟩ := packetPart_cons l
    have hnil := results_packetType_nil hw (framesPart l ++ ("  ".toList ++
      packetLogAppendCreditFields l.event))
    have ht' : Skips packetTypePattern t := skips_of_apart (apart_of_head hP)
    rw [ht, List.cons_append] at hnil ⊢
    rw [search_cons hnil, ht', skips_framesPart h]
    have hend := skips_credits l.event []
    rw [List.append_nil] at hend
    rw [hend]
    rfl
  · obtain ⟨rest, hm⟩ := matchStart_packetType hw (framesPart l ++ ("  ".toList ++
      packetLogAppendCreditFields l.event))
    rw [search_of_matchStart hm]
    rfl

theorem addType_eq {line : Text} {groups : Option (List Text)} (n : ℕ) (stats : PacketStats) :
    (search packetTypePattern line).map Prod.fst = groups → addType line n stats =
      match groups with
      | some [ptype] => countType ptype n stats
      | _ => stats := by
  rintro rfl
  unfold addType
  rcases search packetTypePattern line with _ | ⟨_ | ⟨ptype, _ | _⟩, rest⟩ <;> rfl

/-- The type of a packet as it is counted. -/
def countOf (t : Option PktType) (n : ℕ) (stats : PacketStats) : PacketStats :=
  match t with
  | some .initial => countType "Initial".toList n stats
  | some .handshake => countType "Handshake".toList n stats
  | _ => stats

/-- What the type of a packet adds. -/
theorem addType_line {l : PacketLine} (h : Clear l) (n : ℕ) (stats : PacketStats) :
    addType (Line.packet l).text n stats = countOf l.event.packetType n stats := by
  rw [addType_eq n stats (search_packetType h)]
  unfold typeWord PacketLogEvent.typeName
  rcases l.event.packetType with _ | t
  · rfl
  · cases t <;> rfl

end PapQuic.Script.LogStats
