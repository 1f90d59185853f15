import PapQuic.Log.Connection
import PapQuic.Script.Fields

/-! # The amplification that the CSV reports

`calculate_server_amplification` of `scripts/run_packet_count.py` reads the log of a server up to
the first Handshake packet it received, and adds up the credit changes on the lines: those that take
as bytes sent, a third of those that give as bytes received. It is modelled in exact arithmetic.

What it adds up belongs to some first part of the log (`accumulate_first`), so the books of the log
bound it: the server is never seen to send more than three times what it received. -/

namespace PapQuic.Script.Amplification

open Lib.Printf Lib.Re Lib.Run Lib.TextFile Wire.Packet Txp.Generate Log Log.Metadata Log.Clock
open Log.Lines Log.Timing Log.Ledger Log.Output Log.Connection Script.Fields

/-! ### The script -/

/-- `[+-]`. -/
def isSign (c : Char) : Bool := c = '+' || c = '-'

/-- `DELTA_CREDIT_PATTERN`. -/
def deltaCreditPattern : Regex :=
  .seq (.lit "[DELTA-CREDIT".toList)
    (colon (.seq (.group (.seq (Regex.opt (.cls isSign)) (.rep isDec 1))) (.lit "B]".toList)))

/-- `PACKET_TYPE_RECEIVED_PATTERN`. -/
def packetTypeReceivedPattern : Regex :=
  .seq (.lit "[SERVER RECEIVED]".toList) (.seq (.rep (· ≠ '\n') 0) (.seq (.lit "PACKET ".toList)
    (.seq (.rep isDec 1) (.seq (.lit " : ".toList) (.group (.rep Char.isAlpha 1))))))

/-- `int` of digits with an optional sign. -/
def int : Text → ℤ
  | '+' :: s => ofDec s
  | '-' :: s => -ofDec s
  | s => ofDec s

/-- `server_credit_send` and `server_credit_received`. -/
structure Sums where
  send : ℚ
  received : ℚ

/-- The line of the first Handshake packet received. -/
def stops (line : Text) : Bool :=
  "[SERVER RECEIVED]".toList <:+: line &&
    match search packetTypeReceivedPattern line with
    | some ([type], _) => type = "Handshake".toList
    | _ => false

/-- What a line adds. -/
def addLine (t : Sums) (line : Text) : Sums :=
  match search deltaCreditPattern line with
  | some ([value], _) =>
    let delta := int value
    if delta < 0 then { t with send := t.send + |(delta : ℚ)| }
    else if delta > 0 then { t with received := t.received + delta / 3 }
    else t
  | _ => t

/-- The loop over the lines. -/
def accumulate : Sums → List Text → Sums
  | t, [] => t
  | t, line :: lines => if stops line then t else accumulate (addLine t line) lines

/-- `calculate_server_amplification`, with the text of the log when there is one:
`server_credit_send`, `server_credit_received` and `server_amplification_realized`. -/
def calculateServerAmplification : Option Text → ℚ × ℚ × ℚ
  | none => (0, 0, 0)
  | some content =>
    let t := accumulate ⟨0, 0⟩ (readLines content)
    (t.send, t.received, if t.received = 0 then 0 else t.send / t.received)

/-! ### What the script reads off a line -/

/-- A change of the credit without its unit. -/
def signed (delta : ℤ) : Text := (if delta ≥ 0 then "+".toList else "-".toList) ++ dec delta.natAbs

theorem int_signed (delta : ℤ) : int (signed delta) = delta := by
  unfold signed
  split_ifs with h
  · change (ofDec (dec delta.natAbs) : ℤ) = delta
    rw [ofDec_dec]
    omega
  · change -(ofDec (dec delta.natAbs) : ℤ) = delta
    rw [ofDec_dec]
    omega

theorem matchStart_signed (delta : ℤ) (tail : Text) :
    matchStart (.seq (.group (.seq (Regex.opt (.cls isSign)) (.rep isDec 1))) (.lit "B]".toList))
      (signed delta ++ ("B]".toList ++ tail)) = some ([signed delta], tail) := by
  have hdigits : matchStart (.rep isDec 1) (dec delta.natAbs ++ ("B]".toList ++ tail)) =
      some ([], "B]".toList ++ tail) :=
    matchStart_rep (fun c hc => isDec_of_mem_dec hc) (List.length_pos_iff.mpr (dec_ne_nil _))
      (by simp; decide)
  have hsign : matchStart (.seq (Regex.opt (.cls isSign)) (.rep isDec 1))
      (signed delta ++ ("B]".toList ++ tail)) = some ([], "B]".toList ++ tail) := by
    unfold signed
    split_ifs
    · exact matchStart_seq (matchStart_alt_left (matchStart_cls (by decide) _) _) hdigits
    · exact matchStart_seq (matchStart_alt_left (matchStart_cls (by decide) _) _) hdigits
  exact matchStart_seq (matchStart_group hsign) (matchStart_lit _ _)

theorem matchStart_deltaCredit (delta : ℤ) (tail : Text) :
    matchStart deltaCreditPattern (field "DELTA-CREDIT" (deltaText delta) ++ tail) =
      some ([signed delta], tail) := by
  have hhead : ∀ c ∈ (signed delta ++ ("B]".toList ++ tail)).head?, isSpace c = false := by
    unfold signed
    split_ifs <;> simp <;> decide
  have h := matchStart_seq (matchStart_lit "[DELTA-CREDIT".toList _)
    (matchStart_colon (matchStart_signed delta tail) hhead)
  rw [field_append]
  have he : deltaText delta ++ ']' :: tail = signed delta ++ ("B]".toList ++ tail) := by
    simp [deltaText, signed]
  rw [he]
  exact h

/-- The field of a packet line is the first that matches. -/
theorem search_packet {l : PacketLine} {delta : ℤ} (h : l.delta = some delta) :
    ∃ tail, search deltaCreditPattern ((Line.packet l).text ++ ['\n']) =
      some ([signed delta], tail) := by
  obtain ⟨tail, htail⟩ : ∃ tail, l.rest ++ ['\n'] =
      sizePart l ++ (field "DELTA-CREDIT" (deltaText delta) ++ tail) := by
    simp only [PacketLine.rest, sizePart, h, List.append_assoc]
    exact ⟨_, rfl⟩
  refine ⟨tail, ?_⟩
  rw [deltaCreditPattern, text_eq, List.append_assoc,
    search_calm (startsWith_delta _) _ (calm_header _)]
  change search _ (l.rest ++ ['\n']) = _
  rw [htail, search_sizePart]
  exact search_of_matchStart (matchStart_deltaCredit delta tail)

theorem item_chars (item : Item) : ∀ c ∈ item.text, c ≠ '[' := by
  have hnum (w prec : ℕ) (v : ℚ) : ∀ c ∈ fprintf w prec v, c ≠ '[' := by
    intro c hc
    rcases mem_padLeft hc with rfl | hc
    · decide
    · rcases mem_decimal hc with hc | rfl
      · rintro rfl
        exact absurd hc (by decide)
      · decide
  have hname (m : Metric) : ∀ c ∈ m.name.toList, c ≠ '[' := by
    cases m <;> (unfold Metric.name; decide)
  unfold Item.text
  split
  · exact List.forall_mem_append.mpr ⟨List.forall_mem_append.mpr
      ⟨List.forall_mem_append.mpr ⟨hname _, by decide⟩, hnum _ _ _⟩, by decide⟩
  · exact List.forall_mem_append.mpr ⟨hname _, by decide⟩
  · exact List.forall_mem_append.mpr
      ⟨List.forall_mem_append.mpr ⟨by decide, hnum _ _ _⟩, by decide⟩
  · decide
  · decide

/-- An INTERNAL line has no such field. -/
theorem search_internal (l : InternalLine) :
    search deltaCreditPattern ((Line.internal l).text ++ ['\n']) = none := by
  have hlabel : calm '[' (· = 'D') ("[".toList ++ l.label.text.toList ++ "]".toList) = true := by
    cases l.label <;> (unfold Label.text; decide)
  have hitems : ∀ c ∈ itemsText l.items, c ≠ '[' := by
    rcases l.items with _ | ⟨item, items⟩
    · simp [itemsText]
    · refine List.forall_mem_append.mpr
        ⟨List.forall_mem_append.mpr ⟨by decide, item_chars item⟩, fun c hc => ?_⟩
      obtain ⟨s, hs, hc⟩ := List.mem_flatten.mp hc
      obtain ⟨i, -, rfl⟩ := List.mem_map.mp hs
      exact List.forall_mem_append.mpr ⟨by decide, item_chars i⟩ c hc
  have hcalm : calm '[' (· = 'D') ((Line.internal l).text ++ ['\n']) = true :=
    calm_append (calm_append (calm_header _) (calm_append hlabel (calm_of_not_mem hitems)))
      (by decide)
  exact search_eq_none (startsWith_delta _) hcalm

/-! ### What the script adds up -/

/-- Three times the bytes received, less the bytes sent. -/
def Sums.balance (t : Sums) : ℚ := 3 * t.received - t.send

structure Sums.Nonneg (t : Sums) : Prop where
  send : 0 ≤ t.send
  received : 0 ≤ t.received

/-- A line of a server adds the change it shows. -/
theorem addLine_line {l : Line} (h : IsServerLine l) {t : Sums} (ht : t.Nonneg) :
    (addLine t (l.text ++ ['\n'])).balance = t.balance + shown l ∧
      (addLine t (l.text ++ ['\n'])).Nonneg := by
  cases l with
  | internal l =>
    rw [addLine, search_internal]
    exact ⟨by simp [shown], ht⟩
  | packet l =>
    obtain ⟨delta, hdelta⟩ := Option.isSome_iff_exists.mp h.2
    obtain ⟨tail, htail⟩ := search_packet hdelta
    simp only [addLine, htail, int_signed, shown, hdelta, Option.getD_some]
    split_ifs with hneg hpos
    · have hq : (delta : ℚ) < 0 := by exact_mod_cast hneg
      refine ⟨?_, add_nonneg ht.send (abs_nonneg _), ht.received⟩
      simp only [Sums.balance, abs_of_neg hq]
      ring
    · have hq : (0 : ℚ) < delta := by exact_mod_cast hpos
      refine ⟨?_, ht.send, add_nonneg ht.received (by positivity)⟩
      simp only [Sums.balance]
      ring
    · have h0 : delta = 0 := by omega
      subst h0
      exact ⟨by simp, ht⟩

/-- **What the script adds up** is what some first part of the log shows. -/
theorem accumulate_first : ∀ {lines : List Line} {t : Sums}, (∀ l ∈ lines, IsServerLine l) →
    t.Nonneg → ∃ first, first <+: lines ∧
      (accumulate t (lines.map fun l => l.text ++ ['\n'])).balance = t.balance + total first ∧
      (accumulate t (lines.map fun l => l.text ++ ['\n'])).Nonneg
  | [], t, _, ht => ⟨[], List.nil_prefix, by simp [accumulate], ht⟩
  | l :: lines, t, h, ht => by
    rw [List.map_cons, accumulate]
    split_ifs
    · exact ⟨[], List.nil_prefix, by simp, ht⟩
    · obtain ⟨hb, hn⟩ := addLine_line (h l (by simp)) ht
      have hlines : ∀ m ∈ lines, IsServerLine m := fun m hm => h m (by simp [hm])
      obtain ⟨first, hf, hb', hn'⟩ := accumulate_first hlines hn
      refine ⟨l :: first, List.cons_prefix_cons.mpr ⟨rfl, hf⟩, ?_, hn'⟩
      rw [hb', hb, ← List.singleton_append, total_append, total_singleton]
      push_cast
      ring

theorem isLine_of_isServerLine {l : Line} (h : IsServerLine l) : IsLine LineChar l := by
  cases l with
  | packet l => exact h.1
  | internal l => trivial

/-- The sums of a log whose books are in order. -/
theorem amplification_of_sound {s : Session} {floor : ℤ} (h : Sound s floor) :
    let r := calculateServerAmplification (some (writeLines (s.lines.map Line.text)))
    r.1 ≤ 3 * r.2.1 ∧ 0 ≤ r.2.2 ∧ r.2.2 ≤ 3 := by
  obtain ⟨first, hf, hb, hn⟩ :=
    accumulate_first h.prints.lines (⟨le_refl 0, le_refl 0⟩ : (⟨0, 0⟩ : Sums).Nonneg)
  have htotal : (0 : ℚ) ≤ total first := by exact_mod_cast h.total_nonneg first hf
  simp only [calculateServerAmplification,
    readLines_log fun l hl => isLine_of_isServerLine (h.prints.lines l hl)]
  generalize accumulate ⟨0, 0⟩ (s.lines.map fun l => l.text ++ ['\n']) = t at hb hn
  have hle : t.send ≤ 3 * t.received := by
    simp only [Sums.balance] at hb
    linarith
  refine ⟨hle, ?_⟩
  have hr := hn.received
  split_ifs with h0
  · exact ⟨le_refl 0, by norm_num⟩
  · have hpos : 0 < t.received := lt_of_le_of_ne hr (Ne.symm h0)
    exact ⟨div_nonneg hn.send hr, (div_le_iff₀ hpos).mpr hle⟩

/-- **The CSV shows at most threefold amplification**, whatever is received and sent in whatever
order, when no line of a received packet is lost for lack of memory. -/
theorem amplification_le_three {lib : X509Lib}
    (hlib : ∀ nid name, lib.objNid2sn nid = some name → OneLine name)
    {steps : List ServerStep} (hn : received steps < sizeMax / 3)
    (hlines : ∀ x ∈ steps, x.keepsLine) :
    let log := writeLines ((run (step lib) .new steps).lines.map Line.text)
    let (send, received, realized) := calculateServerAmplification (some log)
    send ≤ 3 * received ∧ 0 ≤ realized ∧ realized ≤ 3 :=
  amplification_of_sound (run_sound (namesOf_lineChar hlib) hn hlines)

/-- An Initial packet with a PING is received in a datagram of 1200 bytes, and a Handshake packet
with a PING is sent. -/
def pings (lineAlloc : Bool) : List ServerStep :=
  let inp (lineAlloc : Bool) : LogInput :=
    ⟨1700000000123456789, fun _ => true, lineAlloc, true, none⟩
  [.handleFrames ⟨.initial, 0, 1200, [1]⟩ (inp lineAlloc),
    .generate (onePacket .handshake 1) fun _ => ⟨0, [1], inp true⟩]

theorem amplification_le_three_pings :
    let log := writeLines ((run (step noX509) .new (pings true)).lines.map Line.text)
    let (send, received, realized) := calculateServerAmplification (some log)
    (send, received, realized) = (1, 1200, 1 / 1200) ∧
      send ≤ 3 * received ∧ 0 ≤ realized ∧ realized ≤ 3 := by
  have hlib (nid : ℕ) (name : Text) (h : noX509.objNid2sn nid = some name) : OneLine name := by
    cases h
  exact ⟨by decide +kernel,
    amplification_le_three hlib (by decide) (by simp [pings, ServerStep.keepsLine])⟩

/-- That the lines of received packets are kept is needed: without such a line the CSV shows a byte
sent for none received. -/
theorem amplification_of_lost_line :
    let log := writeLines ((run (step noX509) .new (pings false)).lines.map Line.text)
    let (send, received, _) := calculateServerAmplification (some log)
    Connection.received (pings false) < sizeMax / 3 ∧ ¬ send ≤ 3 * received := by
  decide +kernel

end PapQuic.Script.Amplification
