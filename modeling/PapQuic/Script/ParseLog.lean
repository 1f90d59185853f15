import PapQuic.Script.PacketLine

/-! # Reading a log back

`parse_log` of `scripts/generate_packet_diagram.py` goes over the lines of a log, takes those whose
header `LINE_RE` matches, and makes an event of each one that belongs to the expected role.

`LINE_RE` wants a digit right after the bracket, but the stamp is printed with `%12.8f`: below 100
ms there are blanks in front of it, and the line is passed over. So exactly the lines from 100 ms on
are read (`parseLog_log`). -/

namespace PapQuic.Script.ParseLog

open Lib.Printf Lib.Double Lib.Re Lib.Run Lib.TextFile Log.Metadata Log.Clock Log.Lines
open Log.Output Script.Fields Script.PacketLine

/-! ### The script -/

/-- `LINE_RE` after the header. -/
def restRe : Regex :=
  .seq (.lit "]".toList) (.seq (.rep isSpace 0) (.seq (.group (.rep (· ≠ '\n') 0)) .atEnd))

/-- The time stamp in `LINE_RE`. -/
def stampRe : Regex := .seq (.rep isDec 1) (.seq (.lit ".".toList) (.rep isDec 1))

def roleRe : Regex := .alt (.lit "CLIENT".toList) (.lit "SERVER".toList)

def kindRe : Regex :=
  .alt (.lit "SENT".toList) (.alt (.lit "RECEIVED".toList) (.lit "INTERNAL".toList))

/-- `LINE_RE`. -/
def lineRe : Regex :=
  .seq (.lit "[".toList) (.seq (.group stampRe) (.seq (.lit " ms] [".toList)
    (.seq (.group roleRe) (.seq (.lit " ".toList) (.seq (.group kindRe) restRe)))))

/-- `float` of digits with a point between them. -/
def float (s : Text) : ℚ :=
  let whole := s.takeWhile (· ≠ '.')
  let fraction := (s.dropWhile (· ≠ '.')).drop 1
  fl (ofDec (whole ++ fraction) / 10 ^ fraction.length)

/-- `InternalEvent`. -/
structure InternalEvent where
  role : Role
  timestamp : ℚ
  label : Text
  body : Text
  deriving DecidableEq

/-- `strip("[]")`. -/
def stripBrackets (s : Text) : Text :=
  let bracket (c : Char) : Bool := c = '[' || c = ']'
  (s.dropWhile bracket).rdropWhile bracket

/-- `parse_internal_line`. -/
def parseInternalLine (role : Role) (ts : ℚ) (rest : Text) : InternalEvent :=
  if "[".toList <+: rest ∧ ']' ∈ rest then
    ⟨role, ts, stripBrackets (rest.takeWhile (· ≠ ']')),
      strip ((rest.dropWhile (· ≠ ']')).drop 1)⟩
  else ⟨role, ts, rest, []⟩

def roleText : Role → Text
  | .client => "CLIENT".toList
  | .server => "SERVER".toList

/-- `packets` and `internals`. -/
structure Events where
  packets : List PacketEvent
  internals : List InternalEvent
  deriving DecidableEq

/-- What a line of the expected role adds. -/
def addEvent (role : Role) (out : Events) (kind : Text) (ts : ℚ) (rest : Text) : Events :=
  let packet (kind : Kind) : Events :=
    { out with packets := out.packets ++ [parsePacketLine role kind ts rest] }
  if kind = "SENT".toList then packet .sent
  else if kind = "RECEIVED".toList then packet .received
  else if kind = "INTERNAL".toList then
    { out with internals := out.internals ++ [parseInternalLine role ts rest] }
  else out

/-- One round of the loop over the lines. -/
def addLine (expectedRole : Role) (out : Events) (rawLine : Text) : Events :=
  if rstrip rawLine = [] then out
  else
    match matchStart lineRe (rstrip rawLine) with
    | some ([ts, role, kind, rest], _) =>
      if role ≠ roleText expectedRole then out
      else addEvent expectedRole out kind (float ts) (strip rest)
    | _ => out

/-- `parse_log`, with the text of the log. -/
def parseLog (content : Text) (expectedRole : Role) : Events :=
  (readLines content).foldl (addLine expectedRole) ⟨[], []⟩

/-! ### The header -/

/-- The role of a line. -/
def lineRole (l : Line) : Role := if l.isServer then .server else .client

/-- From 100 ms on, the stamp has no blanks in front. -/
theorem stamp_unpadded {l : Line} (h : 100 ≤ displayedMs l.ticks) :
    ∃ f < 10 ^ 8, l.stamp = decimal (displayedMs l.ticks) 8 f := by
  obtain ⟨f, hf, he⟩ := l.stamp_eq
  have hlen : 2 < (dec (displayedMs l.ticks)).length := (lt_length_dec_iff (by omega)).mpr h
  refine ⟨f, hf, ?_⟩
  rw [he, padLeft, length_decimal (by omega) hf, show 12 - _ = 0 by omega]
  rfl

/-- Below 100 ms, it starts with a blank. -/
theorem stamp_padded {l : Line} (h : displayedMs l.ticks < 100) : ∃ s, l.stamp = ' ' :: s := by
  obtain ⟨f, hf, he⟩ := l.stamp_eq
  have hlen : (dec (displayedMs l.ticks)).length ≤ 2 := length_dec_le (by omega) h
  rw [he, padLeft_of_lt (by rw [length_decimal (by omega) hf]; omega)]
  exact ⟨_, rfl⟩

theorem matchStart_stamp (m f : ℕ) (tail : Text) :
    matchStart stampRe (decimal m 8 f ++ (" ms] [".toList ++ tail)) =
      some ([], " ms] [".toList ++ tail) := by
  have hwhole (t : Text) : matchStart (.rep isDec 1) (dec m ++ (".".toList ++ t)) =
      some ([], ".".toList ++ t) :=
    matchStart_rep (fun c hc => isDec_of_mem_dec hc) (List.length_pos_iff.mpr (dec_ne_nil m))
      (by simp; decide)
  have hfraction : matchStart (.rep isDec 1)
      ((List.replicate (8 - (dec f).length) '0' ++ dec f) ++ (" ms] [".toList ++ tail)) =
        some ([], " ms] [".toList ++ tail) := by
    refine matchStart_rep (fun c hc => ?_) (List.length_pos_iff.mpr ?_) (by simp; decide)
    · rcases List.mem_append.mp hc with hc | hc
      · rw [List.eq_of_mem_replicate hc]
        decide
      · exact isDec_of_mem_dec hc
    · simp [dec_ne_nil]
  have he : decimal m 8 f ++ (" ms] [".toList ++ tail) = dec m ++ (".".toList ++
      ((List.replicate (8 - (dec f).length) '0' ++ dec f) ++ (" ms] [".toList ++ tail))) := by
    simp only [decimal, List.append_assoc]
  rw [he]
  exact matchStart_seq (hwhole _) (matchStart_seq (matchStart_lit _ _) hfraction)

theorem matchStart_role (isServer : Bool) (tail : Text) :
    matchStart roleRe ((roleName isServer).toList ++ tail) = some ([], tail) := by
  cases isServer with
  | false => exact matchStart_alt_left (matchStart_lit "CLIENT".toList tail) _
  | true =>
    rw [roleRe, matchStart_alt_right]
    · exact matchStart_lit "SERVER".toList tail
    · exact results_lit_nil (v := "SERVER".toList) (by decide) (by decide) tail

theorem matchStart_kind (l : Line) (tail : Text) :
    matchStart kindRe (l.kind.toList ++ tail) = some ([], tail) := by
  have hne {w : Text} (v : Text) (h : ¬ w <+: v) (hlen : w.length ≤ v.length) :
      results (.lit w) (v ++ tail) = [] := results_lit_nil h hlen tail
  cases l with
  | internal l =>
    change matchStart kindRe ("INTERNAL".toList ++ tail) = _
    rw [kindRe, matchStart_alt_right (hne _ (by decide) (by decide)),
      matchStart_alt_right (hne _ (by decide) (by decide)), matchStart_lit]
  | packet l =>
    change matchStart kindRe ((directionName l.event.isSend).toList ++ tail) = _
    cases l.event.isSend with
    | true => exact matchStart_alt_left (matchStart_lit "SENT".toList tail) _
    | false =>
      change matchStart kindRe ("RECEIVED".toList ++ tail) = _
      rw [kindRe, matchStart_alt_right (hne _ (by decide) (by decide))]
      exact matchStart_alt_left (matchStart_lit _ _) _

/-! ### The rest of a line -/

theorem trimmed_field (name : String) (v : Text) : Trimmed (field name v) :=
  ⟨⟨'[', _, rfl, by decide⟩, ⟨_, ']', rfl, by decide⟩⟩

theorem trimmed_creditFields (event : PacketLogEvent) :
    Trimmed (packetLogAppendCreditFields event) := by
  unfold packetLogAppendCreditFields
  split_ifs
  · have h := (trimmed_field "CREDIT-BEFORE" event.serverCredit.1).append
      (" ".toList ++ field "AMPLIFICATION-FACTOR" event.serverCredit.2.1 ++ " ".toList)
      (trimmed_field "CREDIT AFTER" event.serverCredit.2.2)
    simpa only [List.append_assoc] using h
  · have h := (trimmed_field "CREDIT" event.clientCredit.1).append " ".toList
      (trimmed_field "AMPLIFICATION-FACTOR" event.clientCredit.2)
    simpa only [List.append_assoc] using h

theorem trimmed_item (item : Item) : Trimmed item.text := by
  have hname (m : Metric) : Trimmed m.name.toList := by
    cases m <;> exact trimmed_of_forall (by decide +kernel) (by decide +kernel)
  unfold Item.text
  split
  · rename_i m value
    have h := (hname m).append ("=".toList ++ fprintf 0 3 (quicTimingToMs value))
      (trimmed_of_forall (s := "ms".toList) (by decide) (by decide))
    simpa only [List.append_assoc] using h
  · exact (hname _).append "=".toList (trimmed_of_forall (s := "N/A".toList) (by decide)
      (by decide))
  · rename_i us
    have h := (trimmed_of_forall (s := "handshakeLatency=".toList) (by decide) (by decide)).append
      (fprintf 0 2 (fl (fl us / 1000)))
      (trimmed_of_forall (s := "ms".toList) (by decide) (by decide))
    simpa only [List.append_assoc] using h
  · exact trimmed_of_forall (by decide) (by decide)
  · exact trimmed_of_forall (by decide) (by decide)

theorem itemsText_eq (item : Item) (items : List Item) :
    itemsText (item :: items) =
      " ".toList ++ " | ".toList.intercalate ((item :: items).map Item.text) := by
  have hjoin : ∀ (items : List Item) (t : Text),
      t ++ (items.map fun i => " | ".toList ++ i.text).flatten =
        " | ".toList.intercalate (t :: items.map Item.text) := by
    intro items
    induction items with
    | nil => simp
    | cons i items ih =>
      intro t
      rw [List.map_cons, List.map_cons, List.intercalate_cons_cons, ← ih i.text,
        List.flatten_cons]
      simp only [List.append_assoc]
  rw [itemsText, List.append_assoc, hjoin, List.map_cons]

theorem trimmed_rest (l : Line) : Trimmed l.rest := by
  cases l with
  | packet l =>
    have h := (trimmed_field "DATAGRAM-SIZE" (dec l.event.datagramSize ++ "B".toList)).append
      (" ".toList ++ deltaPart l.delta ++ packetPart l ++ framesPart l ++ "  ".toList)
      (trimmed_creditFields l.event)
    change Trimmed l.rest
    rw [rest_eq, sizePart]
    simpa only [List.append_assoc] using h
  | internal l =>
    have hbracket : Trimmed "[".toList := trimmed_of_forall (by decide) (by decide)
    change Trimmed l.rest
    rw [InternalLine.rest]
    rcases l.items with _ | ⟨item, items⟩
    · have h := hbracket.append l.label.text.toList
        (trimmed_of_forall (s := "]".toList) (by decide) (by decide))
      simpa only [itemsText, List.append_nil, List.append_assoc] using h
    · rw [itemsText_eq]
      have hitems : ∀ t ∈ (item :: items).map Item.text, Trimmed t := by
        intro t ht
        obtain ⟨i, -, rfl⟩ := List.mem_map.mp ht
        exact trimmed_item i
      have h := hbracket.append (l.label.text.toList ++ "]".toList ++ " ".toList)
        (trimmed_intercalate " | ".toList (by simp) hitems)
      simpa only [List.append_assoc] using h

/-- What an INTERNAL line is read back as. -/
def printedInternal (role : Role) (ts : ℚ) (l : InternalLine) : InternalEvent :=
  ⟨role, ts, l.label.text.toList, " | ".toList.intercalate (l.items.map Item.text)⟩

/-- **INTERNAL lines are read back as they were printed**: the label, and the items. -/
theorem parseInternalLine_rest (role : Role) (ts : ℚ) (l : InternalLine) :
    parseInternalLine role ts l.rest = printedInternal role ts l := by
  have hrest : l.rest = ("[".toList ++ l.label.text.toList) ++ (']' :: itemsText l.items) := by
    simp [InternalLine.rest]
  have hopen : ∀ c ∈ "[".toList ++ l.label.text.toList, decide (c ≠ ']') = true := by
    cases l.label <;> (unfold Label.text; decide)
  have hlabel : stripBrackets ("[".toList ++ l.label.text.toList) = l.label.text.toList := by
    cases l.label <;> (unfold Label.text; decide)
  have hbody : strip (itemsText l.items) = " | ".toList.intercalate (l.items.map Item.text) := by
    rcases l.items with _ | ⟨item, items⟩
    · rfl
    · rw [itemsText_eq]
      have h := strip_append (w := " ".toList) (v := [])
        (trimmed_intercalate " | ".toList (l := (item :: items).map Item.text) (by simp) (by
          intro t ht
          obtain ⟨i, -, rfl⟩ := List.mem_map.mp ht
          exact trimmed_item i)) (by decide) (by simp)
      rwa [List.append_nil] at h
  have htake : l.rest.takeWhile (· ≠ ']') = "[".toList ++ l.label.text.toList := by
    rw [hrest, takeWhile_append hopen (by simp)]
  have hdrop : (l.rest.dropWhile (· ≠ ']')).drop 1 = itemsText l.items := by
    rw [hrest, List.dropWhile_append_of_pos hopen]
    simp
  have hcond : "[".toList <+: l.rest ∧ ']' ∈ l.rest := by
    rw [hrest]
    exact ⟨⟨_, rfl⟩, by simp⟩
  rw [parseInternalLine, if_pos hcond, htake, hdrop, hlabel, hbody, printedInternal]

/-! ### Which lines match -/

theorem text_shape (s r k t : Text) :
    "[".toList ++ s ++ " ms] [".toList ++ r ++ " ".toList ++ k ++ "] ".toList ++ t =
      "[".toList ++ (s ++ (" ms] [".toList ++ (r ++ (" ".toList ++ (k ++ ("]".toList ++
        (" ".toList ++ t))))))) := by
  simp

/-- From 100 ms on, a line is taken apart as it was put together. -/
theorem matchStart_line {l : Line} (hl : IsLine LineChar l) (h : 100 ≤ displayedMs l.ticks) :
    matchStart lineRe l.text =
      some ([l.stamp, (roleName l.isServer).toList, l.kind.toList, l.rest], []) := by
  obtain ⟨f, -, hstamp⟩ := stamp_unpadded h
  have hrest : ∀ c ∈ l.rest, decide (c ≠ '\n') = true := by
    intro c hc
    have := (oneLine_text hl c (by rw [text_eq]; exact List.mem_append_right _ hc)).1
    simpa using this
  have hchars : matchStart (.seq (.group (.rep (· ≠ '\n') 0)) .atEnd) (l.rest ++ []) =
      some ([l.rest], []) :=
    matchStart_seq (matchStart_group (matchStart_rep hrest (Nat.zero_le _) (by simp))) rfl
  rw [List.append_nil] at hchars
  have hspace : matchStart (.rep isSpace 0) (" ".toList ++ l.rest) = some ([], l.rest) := by
    obtain ⟨c, t, he, hc⟩ := (trimmed_rest l).start
    exact matchStart_rep isSpace_of_mem_blank (Nat.zero_le _) (by rw [he]; simpa using hc)
  have htail : matchStart restRe ("]".toList ++ (" ".toList ++ l.rest)) = some ([l.rest], []) :=
    matchStart_seq (matchStart_lit _ _) (matchStart_seq hspace hchars)
  have hkind := matchStart_seq (matchStart_group (matchStart_kind l _)) htail
  have hrole := matchStart_seq (matchStart_group (matchStart_role l.isServer _))
    (matchStart_seq (matchStart_lit " ".toList _) hkind)
  have htime := matchStart_seq (matchStart_group (matchStart_stamp (displayedMs l.ticks) f _))
    (matchStart_seq (matchStart_lit " ms] [".toList _) hrole)
  rw [← hstamp] at htime
  have hwhole := matchStart_seq (matchStart_lit "[".toList _) htime
  have he : l.text = "[".toList ++ (l.stamp ++ (" ms] [".toList ++ ((roleName l.isServer).toList ++
      (" ".toList ++ (l.kind.toList ++ ("]".toList ++ (" ".toList ++ l.rest))))))) :=
    text_shape _ _ _ _
  rw [he]
  exact hwhole

/-- Below 100 ms, there is no match. -/
theorem matchStart_early {l : Line} (h : displayedMs l.ticks < 100) :
    matchStart lineRe l.text = none := by
  obtain ⟨s, hs⟩ := stamp_padded h
  have hdigit : ∀ c, decide (c = ' ') = true → isDec c = false := by
    intro c hc
    rw [of_decide_eq_true hc]
    rfl
  have hblank : Rejects (.group stampRe) (· = ' ') := ((rejects_rep hdigit 0).seq _).group
  have he : l.text = "[".toList ++
      ((' ' :: s) ++ (" ms] [".toList ++ ((roleName l.isServer).toList ++
      (" ".toList ++ (l.kind.toList ++ ("]".toList ++ (" ".toList ++ l.rest))))))) := by
    rw [← hs]
    exact text_shape _ _ _ _
  rw [he, List.cons_append, matchStart, lineRe,
    results_lit_append_nil (hblank.seq _ _ _ (by decide)), List.head?_nil]

theorem trimmed_text (l : Line) : Trimmed l.text := by
  have hbracket : Trimmed "[".toList := trimmed_of_forall (by decide) (by decide)
  have h := hbracket.append (l.stamp ++ " ms] [".toList ++ (roleName l.isServer).toList ++
    " ".toList ++ l.kind.toList ++ "] ".toList) (trimmed_rest l)
  simpa only [Line.text, List.append_assoc] using h

theorem rstrip_line (l : Line) : rstrip (l.text ++ ['\n']) = l.text :=
  rstrip_append (trimmed_text l) (by decide)

theorem matchStart_iff {l : Line} (hl : IsLine LineChar l) :
    (matchStart lineRe (rstrip (l.text ++ ['\n']))).isSome ↔ 100 ≤ displayedMs l.ticks := by
  rw [rstrip_line]
  rcases Nat.lt_or_ge (displayedMs l.ticks) 100 with h | h
  · simp [matchStart_early h, h]
  · simp [matchStart_line hl h, h]

/-! ### What is read of a log -/

def packetKind (l : PacketLine) : Kind := if l.event.isSend then .sent else .received

/-- The event of a packet line, with the role, the kind and the time that are printed on it. -/
def packetOf : Line → Option PacketEvent
  | .packet l => some (parsePacketLine (lineRole (.packet l)) (packetKind l)
      (float (Line.packet l).stamp) l.rest)
  | .internal _ => none

/-- The event of an INTERNAL line, with the role and the time that are printed on it. -/
def internalOf : Line → Option InternalEvent
  | .packet _ => none
  | .internal l => some (printedInternal (lineRole (.internal l)) (float (Line.internal l).stamp) l)

/-- The events of some lines. -/
def eventsOf (lines : List Line) : Events :=
  ⟨lines.filterMap packetOf, lines.filterMap internalOf⟩

theorem length_eventsOf (lines : List Line) :
    (eventsOf lines).packets.length + (eventsOf lines).internals.length = lines.length := by
  induction lines with
  | nil => rfl
  | cons l lines ih =>
    simp only [eventsOf] at ih ⊢
    cases l <;> simp only [List.filterMap_cons, packetOf, internalOf, List.length_cons] <;> omega

/-- The lines of a role. -/
def ofRole (role : Role) (lines : List Line) : List Line :=
  lines.filter fun l => lineRole l = role

/-- The lines that are printed without blanks in the stamp. -/
def unpadded (lines : List Line) : List Line :=
  lines.filter fun l => 100 ≤ displayedMs l.ticks

theorem roleText_eq (l : Line) : (roleName l.isServer).toList = roleText (lineRole l) := by
  unfold lineRole
  cases l.isServer <;> rfl

theorem roleText_injective : Function.Injective roleText := by
  intro a b h
  cases a <;> cases b <;> first | rfl | exact absurd h (by decide)

theorem addEvent_line (l : Line) (done : List Line) :
    addEvent (lineRole l) (eventsOf done) l.kind.toList (float l.stamp) l.rest =
      eventsOf (done ++ [l]) := by
  cases l with
  | packet l =>
    have hone : eventsOf (done ++ [.packet l]) = ⟨(eventsOf done).packets ++
        [parsePacketLine (lineRole (.packet l)) (packetKind l)
          (float (Line.packet l).stamp) l.rest],
        (eventsOf done).internals⟩ := by
      simp [eventsOf, packetOf, internalOf]
    rw [hone, packetKind]
    change addEvent _ _ (directionName l.event.isSend).toList _ l.rest = _
    rcases l.event.isSend with _ | _
    · change addEvent _ _ "RECEIVED".toList _ _ = _
      rw [addEvent, if_neg (by decide), if_pos rfl]
      rfl
    · change addEvent _ _ "SENT".toList _ _ = _
      rw [addEvent, if_pos rfl]
      rfl
  | internal l =>
    have hone : eventsOf (done ++ [.internal l]) = ⟨(eventsOf done).packets,
        (eventsOf done).internals ++
          [printedInternal (lineRole (.internal l)) (float (Line.internal l).stamp) l]⟩ := by
      simp [eventsOf, packetOf, internalOf]
    rw [hone, ← parseInternalLine_rest]
    change addEvent _ _ "INTERNAL".toList _ l.rest = _
    rw [addEvent, if_neg (by decide), if_neg (by decide), if_pos rfl]

/-- One line adds its event, if it is of the role and its stamp is not padded. -/
theorem addLine_line {l : Line} (hl : IsLine LineChar l) (role : Role) (done : List Line) :
    addLine role (eventsOf done) (l.text ++ ['\n']) =
      eventsOf (done ++ unpadded (ofRole role [l])) := by
  have hne : l.text ≠ [] := by simp [Line.text]
  rw [addLine, rstrip_line, if_neg hne]
  rcases Nat.lt_or_ge (displayedMs l.ticks) 100 with h | h
  · have hnone : unpadded (ofRole role [l]) = [] := by
      rw [unpadded, List.filter_eq_nil_iff]
      intro m hm
      rw [List.mem_singleton.mp (List.mem_of_mem_filter hm)]
      simpa using h
    rw [matchStart_early h, hnone, List.append_nil]
  · rw [matchStart_line hl h]
    dsimp only
    rw [roleText_eq]
    by_cases hrole : lineRole l = role
    · have hone : unpadded (ofRole role [l]) = [l] := by
        simp [unpadded, ofRole, hrole, h]
      subst hrole
      rw [if_neg (not_not.mpr rfl), hone, strip_of_trimmed (trimmed_rest l), addEvent_line]
    · have hnone : unpadded (ofRole role [l]) = [] := by
        simp [unpadded, ofRole, hrole]
      rw [if_pos (roleText_injective.ne hrole), hnone, List.append_nil]

/-- **What `parse_log` reads of a log**: the lines of the role whose stamp is not padded. -/
theorem parseLog_log {log : List Line} (h : ∀ l ∈ log, IsLine LineChar l) (role : Role) :
    parseLog (writeLines (log.map Line.text)) role = eventsOf (unpadded (ofRole role log)) := by
  have hrun : ∀ (rest done : List Line), (∀ l ∈ rest, IsLine LineChar l) →
      (rest.map fun l => l.text ++ ['\n']).foldl (addLine role) (eventsOf done) =
        eventsOf (done ++ unpadded (ofRole role rest)) := by
    intro rest
    induction rest with
    | nil =>
      intro done _
      simp [unpadded, ofRole]
    | cons l rest ih =>
      intro done hrest
      rw [List.map_cons, List.foldl_cons, addLine_line (hrest l (by simp)),
        ih _ fun m hm => hrest m (by simp [hm]), List.append_assoc]
      simp only [unpadded, ofRole, ← List.filter_append, List.singleton_append]
  rw [parseLog, readLines_log h]
  exact hrun log [] h

/-- **Which logs are read completely**: those whose lines of the role were all written when the wall
clock, modulo 100 seconds, was at 100 ms or later. One line is read exactly when it was. -/
theorem parseLog_complete_iff (lib : X509Lib)
    (hlib : ∀ nid name, lib.objNid2sn nid = some name → OneLine name) (steps : List SessionStep)
    (role : Role) :
    let log := (run (Session.step lib) .new steps).lines
    let events := parseLog (writeLines (log.map Line.text)) role
    (∀ l ∈ log, (matchStart lineRe (rstrip (l.text ++ ['\n']))).isSome ↔
      100 ≤ displayedMs l.ticks) ∧ ((events = eventsOf (ofRole role log) ∧
          events.packets.length + events.internals.length = (ofRole role log).length) ↔
        ∀ l ∈ ofRole role log, 100 ≤ displayedMs l.ticks) := by
  intro log events
  have hlog : ∀ l ∈ log, IsLine LineChar l := (prints_names (namesOf_lineChar hlib) steps).lines
  have hevents : events = eventsOf (unpadded (ofRole role log)) := parseLog_log hlog role
  refine ⟨fun l hl => matchStart_iff (hlog l hl), ?_⟩
  constructor
  · rintro ⟨-, hcount⟩
    rw [hevents, length_eventsOf, unpadded, List.length_filter_eq_length_iff] at hcount
    intro l hl
    simpa using hcount l hl
  · intro h
    have hall : unpadded (ofRole role log) = ofRole role log :=
      List.filter_eq_self.mpr fun l hl => by simpa using h l hl
    rw [hevents, hall]
    exact ⟨rfl, length_eventsOf _⟩

/-- A packet with a PING that a server receives at a given time. -/
def pingAt (now : OsslTime) : List SessionStep :=
  [.packet ⟨now, fun _ => true, true, true, none⟩ { cutEvent with payload := [1] }]

theorem parseLog_complete_iff_ping :
    let log := (run (Session.step noX509) .new (pingAt 1700000000123000000)).lines
    let events := parseLog (writeLines (log.map Line.text)) .server
    events.packets.length = 1 ∧ events = eventsOf (ofRole .server log) := by
  refine ⟨by decide +kernel, ?_⟩
  have hlib (nid : ℕ) (name : Text) (h : noX509.objNid2sn nid = some name) : OneLine name := by
    cases h
  exact ((parseLog_complete_iff noX509 hlib (pingAt 1700000000123000000) .server).2.mpr
    (by decide +kernel)).1

/-- A line that is written at 5 ms is not read. -/
theorem parseLog_early_line :
    let log := (run (Session.step noX509) .new (pingAt 1700000000005000000)).lines
    (ofRole .server log).length = 1 ∧
      parseLog (writeLines (log.map Line.text)) .server = ⟨[], []⟩ := by
  decide +kernel

end PapQuic.Script.ParseLog
