import PapQuic.Script.ParseLog

/-! # INTERNAL lines in the diagram

`format_internal_block` of `scripts/generate_packet_diagram.py` makes the note of an INTERNAL event:
its label, and below it the items, one on each line. The items were joined with ` | `; the function
writes a slash for each bar and splits at the slashes.

A metric without a value is printed as `N/A`, which has a slash of its own and comes out in two
lines (`chunks_item`). So the items are shown as they were printed exactly if all of them have
values (`formatInternalBlock_eq_iff`). -/

namespace PapQuic.Script.InternalBlock

open Lib.Printf Lib.Re Log.Chars Log.Clock Log.Lines Log.Timing
open Script.PacketLine Script.ParseLog

/-! ### The script -/

/-- The loop over `body.split("/")`. -/
def chunks (body : Text) : List Text := ((body.splitOn '/').map strip).filter (· ≠ [])

/-- What one event adds to `lines`. -/
def blockLines (ev : InternalEvent) : List Text :=
  let title := strip ev.label
  let body := strip (ev.body.map fun c => if c = '|' then '/' else c)
  (if title = [] then [] else [title]) ++ if body = [] then [] else chunks body

/-- `format_internal_block`. -/
def formatInternalBlock (events : List InternalEvent) : List Text := events.flatMap blockLines

/-! ### Chunks -/

theorem chunks_append (a b : Text) : chunks (a ++ '/' :: b) = chunks a ++ chunks b := by
  unfold chunks List.splitOn
  rw [List.splitOnP_append_cons a b (by simp), List.map_append, List.filter_append]

/-- A text without a slash is one chunk, without the blanks around it. -/
theorem chunks_padded {t u v : Text} (ht : Trimmed t) (hs : '/' ∉ t) (hu : ∀ c ∈ u, c = ' ')
    (hv : ∀ c ∈ v, c = ' ') : chunks (u ++ t ++ v) = [t] := by
  have hno : ∀ c ∈ u ++ t ++ v, (c == '/') = false := by
    intro c hc
    rw [beq_eq_false_iff_ne]
    rintro rfl
    simp only [List.mem_append] at hc
    rcases hc with (hc | hc) | hc
    · exact absurd (hu _ hc) (by decide)
    · exact hs hc
    · exact absurd (hv _ hc) (by decide)
  have hstrip : strip (u ++ t ++ v) = t :=
    strip_append ht (fun c hc => by rw [hu c hc]; rfl) (fun c hc => by rw [hv c hc]; rfl)
  have hne : t ≠ [] := by
    obtain ⟨c, t', rfl, -⟩ := ht.start
    exact List.cons_ne_nil _ _
  unfold chunks List.splitOn
  rw [List.splitOnP_eq_singleton hno, List.map_singleton, hstrip]
  simp [hne]

/-! ### Items -/

/-- The item has a value: `N/A` is not printed for it. -/
def hasValue : Item → Bool
  | .metric _ value => value.isSome
  | .handshakeLatency us => us.isSome
  | .serverCreditUnlimited => true

/-- What stands before `=` in an item. -/
def itemName : Item → Text
  | .metric m _ => m.name.toList
  | .handshakeLatency _ => "handshakeLatency".toList
  | .serverCreditUnlimited => "serverCreditState".toList

/-- The chunks of an item. -/
def itemChunks (item : Item) : List Text :=
  if hasValue item then [item.text] else [itemName item ++ "=N".toList, "A".toList]

/-- The characters of items with values. -/
def valueMark (c : Char) : Bool := headMark c || c = '='

theorem valueMark_of_headMark (c : Char) (h : headMark c = true) : valueMark c = true := by
  simp [valueMark, h]

theorem over_name (m : Metric) : Over (valueMark · = true) m.name.toList := by
  cases m <;> (unfold Metric.name; decide)

theorem over_text {item : Item} (h : hasValue item = true) :
    Over (valueMark · = true) item.text := by
  have hnum (w p : ℕ) (x : ℚ) : Over (valueMark · = true) (fprintf w p x) :=
    (heads_fprintf w p x).mono valueMark_of_headMark
  unfold Item.text
  split
  · exact (((over_name _).append (by decide)).append (hnum _ _ _)).append (by decide)
  · cases h
  · exact (Over.append (by decide) (hnum _ _ _)).append (by decide)
  · cases h
  · decide

theorem notAvailable_shape (name : Text) :
    name ++ "=N/A".toList = name ++ "=N".toList ++ '/' :: "A".toList := by
  simp

theorem text_of_not_hasValue {item : Item} (h : hasValue item = false) :
    item.text = itemName item ++ "=N".toList ++ '/' :: "A".toList := by
  unfold Item.text
  split
  · cases h
  · exact notAvailable_shape _
  · cases h
  · rfl
  · cases h

theorem over_itemName (item : Item) :
    Over (fun c => valueMark c = true ∧ isSpace c = false) (itemName item ++ "=N".toList) := by
  refine Over.append ?_ (by decide)
  cases item with
  | metric m value =>
    change Over _ m.name.toList
    cases m <;> (unfold Metric.name; decide)
  | handshakeLatency us =>
    change Over _ "handshakeLatency".toList
    decide
  | serverCreditUnlimited =>
    change Over _ "serverCreditState".toList
    decide

theorem bar_not_mem_text (item : Item) : '|' ∉ item.text := by
  by_cases h : hasValue item = true
  · exact fun hm => absurd (over_text h _ hm) (by decide)
  · rw [text_of_not_hasValue (by simpa using h), List.mem_append, not_or]
    exact ⟨fun hm => absurd (over_itemName item _ hm).1 (by decide), by decide⟩

/-- **The chunks of an item** with blanks around it: the item, or the two halves of its `N/A`. -/
theorem chunks_item (item : Item) {u v : Text} (hu : ∀ c ∈ u, c = ' ') (hv : ∀ c ∈ v, c = ' ') :
    chunks (u ++ item.text ++ v) = itemChunks item := by
  unfold itemChunks
  split_ifs with h
  · exact chunks_padded (trimmed_item item) (fun hm => absurd (over_text h _ hm) (by decide)) hu hv
  · have hname := over_itemName item
    have hleft := chunks_padded (v := [])
      (trimmed_of_forall (by simp) fun c hc => (hname c hc).2)
      (fun hm => absurd (hname _ hm).1 (by decide)) hu (by simp)
    have hright := chunks_padded (t := "A".toList) (u := [])
      (trimmed_of_forall (by decide) (by decide)) (by decide) (by simp) hv
    rw [List.append_nil] at hleft
    rw [text_of_not_hasValue (by simpa using h), ← List.append_assoc, List.append_assoc _ _ v,
      List.cons_append, chunks_append, hleft, ← List.nil_append ("A".toList ++ v),
      ← List.append_assoc, hright]
    rfl

/-! ### Lines -/

/-- The body of an event with slashes for bars. -/
theorem map_bars (items : List Item) :
    (" | ".toList.intercalate (items.map Item.text)).map (fun c => if c = '|' then '/' else c) =
      " / ".toList.intercalate (items.map Item.text) := by
  have hitem (item : Item) : item.text.map (fun c => if c = '|' then '/' else c) = item.text := by
    conv_rhs => rw [← List.map_id item.text]
    refine List.map_congr_left fun c hc => if_neg ?_
    rintro rfl
    exact bar_not_mem_text item hc
  induction items with
  | nil => rfl
  | cons item items ih =>
    cases items with
    | nil => simpa using hitem item
    | cons next items =>
      simp only [List.map_cons, List.intercalate_cons_cons, List.map_append] at ih ⊢
      rw [hitem, ih]
      rfl

/-- The chunks of a list of items. -/
theorem chunks_items {v : Text} (hv : ∀ c ∈ v, c = ' ') : ∀ {items : List Item} {u : Text},
    items ≠ [] → (∀ c ∈ u, c = ' ') →
    chunks (u ++ " / ".toList.intercalate (items.map Item.text) ++ v) = items.flatMap itemChunks
  | [item], u, _, hu => by
    simpa using chunks_item item hu hv
  | item :: next :: items, u, _, hu => by
    have hshape : ∀ a b : Text, u ++ (a ++ " / ".toList ++ b) ++ v =
        (u ++ a ++ " ".toList) ++ '/' :: (" ".toList ++ b ++ v) := by
      simp
    have ih := chunks_items hv (u := " ".toList) (List.cons_ne_nil next items) (by decide)
    rw [List.map_cons, List.map_cons, List.intercalate_cons_cons, hshape, chunks_append,
      chunks_item item hu (by decide), List.flatMap_cons, ← ih, List.map_cons]

/-- **The note of an INTERNAL line**: the label, and the chunks of the items. -/
theorem formatInternalBlock_line (role : Role) (ts : ℚ) (l : InternalLine) :
    formatInternalBlock [parseInternalLine role ts l.rest] =
      l.label.text.toList :: l.items.flatMap itemChunks := by
  have htitle : strip l.label.text.toList = l.label.text.toList ∧ l.label.text.toList ≠ [] := by
    cases l.label <;> (unfold Label.text; decide)
  rw [parseInternalLine_rest, formatInternalBlock, List.flatMap_singleton, blockLines,
    printedInternal]
  simp only [map_bars, htitle.1, if_neg htitle.2, List.singleton_append, List.cons.injEq, true_and]
  rcases hi : l.items with _ | ⟨item, items⟩
  · rfl
  · have htrim : Trimmed (" / ".toList.intercalate ((item :: items).map Item.text)) :=
      trimmed_intercalate _ (by simp) (by
        intro t ht
        obtain ⟨i, -, rfl⟩ := List.mem_map.mp ht
        exact trimmed_item i)
    have hne : " / ".toList.intercalate ((item :: items).map Item.text) ≠ [] := by
      obtain ⟨c, t, he, -⟩ := htrim.start
      rw [he]
      exact List.cons_ne_nil _ _
    rw [strip_of_trimmed htrim, if_neg hne]
    have h := chunks_items (v := []) (u := []) (by simp) (List.cons_ne_nil item items) (by simp)
    rwa [List.nil_append, List.append_nil] at h

theorem length_itemChunks (item : Item) :
    (itemChunks item).length = if hasValue item then 1 else 2 := by
  unfold itemChunks
  split_ifs <;> rfl

/-- Items with values are shown as they were printed; any other one makes a line too many. -/
theorem flatMap_itemChunks_iff : ∀ items : List Item,
    items.flatMap itemChunks = items.map Item.text ↔ ∀ item ∈ items, hasValue item = true := by
  have hlen : ∀ items : List Item, items.length ≤ (items.flatMap itemChunks).length := by
    intro items
    induction items with
    | nil => simp
    | cons item items ih =>
      rw [List.flatMap_cons, List.length_append, length_itemChunks, List.length_cons]
      split_ifs <;> omega
  intro items
  induction items with
  | nil => simp
  | cons item items ih =>
    rw [List.flatMap_cons, List.map_cons, List.forall_mem_cons]
    by_cases h : hasValue item = true
    · rw [itemChunks, if_pos h, List.singleton_append, List.cons.injEq, ih]
      simp [h]
    · refine iff_of_false (fun he => ?_) fun hv => h hv.1
      have hl := congrArg List.length he
      rw [List.length_append, length_itemChunks, if_neg h, List.length_cons, List.length_map] at hl
      have := hlen items
      omega

/-- **The note shows the label and the items as they were printed, exactly if all items have
values.** -/
theorem formatInternalBlock_eq_iff (role : Role) (ts : ℚ) (l : InternalLine) :
    formatInternalBlock [parseInternalLine role ts l.rest] =
        l.label.text.toList :: l.items.map Item.text ↔
      ∀ item ∈ l.items, hasValue item = true := by
  rw [formatInternalBlock_line, List.cons.injEq, eq_self_iff_true, true_and, flatMap_itemChunks_iff]

/-- A client that has checked CertificateVerify sends a packet before `SSL_get_handshake_rtt` has a
result: the note of its HANDSHAKE DONE line has `A` in a line of its own. -/
theorem formatInternalBlock_notAvailable :
    let tm := (timingCall false 0 0 .init (.complete .clientCvCheck)).2
    let line : InternalLine := ⟨0, false, .handshakeDone, [.handshakeLatency none]⟩
    (maybeEmitInternal ⟨false, true, .handshake⟩ ⟨0, fun _ => true, true, true, none⟩ 0 tm
      .before).1 =
        [.internal line] ∧
      formatInternalBlock [parseInternalLine .client 0 line.rest] =
        ["HANDSHAKE DONE".toList, "handshakeLatency=N".toList, "A".toList] := by
  refine ⟨by rfl, by decide +kernel⟩

end PapQuic.Script.InternalBlock
