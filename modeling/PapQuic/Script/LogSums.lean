import PapQuic.Script.LogStats

/-! # The sizes of frames

`CRYPTO_FRAME_PATTERN` and `PADDING_FRAME_PATTERN` are looked for in a whole line. The first one is
lazy up to a `SIZE=`, with whatever the log writes about the handshake messages of the frame before
it; no annotation has a `SIZE=` in it, so a match ends with the frame it started in
(`findall_crypto`). The word of neither pattern is in any other part of the line. -/

namespace PapQuic.Script.LogSums

open Lib.Printf Lib.Re Lib.Scan Log.Names Log.Metadata Log.FrameList Log.Lines
open Log.Notes Log.Chars Log.Output Script.Frames Script.ParseLog
open Script.LogStats

/-! ### Annotations -/

/-- The fixed parts of the text of a CRYPTO frame between its parentheses. -/
def cryptoLiterals : List String :=
  [" ", " \x7b ", " , ", "ClientHello(KeyShare=", "ServerHello(KeyShare=", " , Cipher[0]=",
    " , Cipher=", "Certificate(LeafSig=", "  Leaf=", "CertificateVerify(Algorithm=", " Signature="]

/-- A word with an equals sign that is not in any of them and has none of the closing characters. -/
structure Foreign (w : Text) : Prop where
  equals : '=' ∈ w
  close : ∀ x ∈ [')', ',', '|', rbrace], x ∉ w
  literals : ∀ s ∈ cryptoLiterals, apart w s.toList = true

section

variable {w : Text}

/-- A text without an equals sign, up to a closing character. -/
theorem Foreign.closed (h : Foreign w) {s : Text} (hs : '=' ∉ s) {x : Char}
    (hx : x ∈ [')', ',', '|', rbrace]) : apart w (s ++ [x]) = true := by
  have hne : x ≠ '=' := by
    rintro rfl
    revert hx
    decide
  exact apart_closed h.equals (h.close x hx) hne hs

theorem not_mem_name {s : Text} (h : IsName (· ≠ '=') s) : '=' ∉ s := fun hm => h.chars _ hm rfl

/-- What comes after the equals sign of a key share. -/
theorem Foreign.share (h : Foreign w) {label : Text} (hl : IsName (· ≠ '=') label) (len : ℕ) :
    apart w (label ++ "(".toList ++ dec len ++ "B".toList ++ [')']) = true := by
  refine h.closed ?_ (by decide)
  simp only [List.mem_append, not_or]
  exact ⟨⟨⟨not_mem_name hl, by decide⟩, not_mem_dec (by decide)⟩, by decide⟩

theorem Foreign.bytes (h : Foreign w) (len : ℕ) :
    apart w (dec len ++ "B".toList ++ [')']) = true := by
  refine h.closed ?_ (by decide)
  simp only [List.mem_append, not_or]
  exact ⟨not_mem_dec (by decide), by decide⟩

theorem Foreign.item (h : Foreign w) {name : Text} (hn : IsName (· ≠ '=') name) :
    apart w (name ++ " ".toList ++ [',']) = true := by
  refine h.closed ?_ (by decide)
  rw [List.mem_append, not_or]
  exact ⟨not_mem_name hn, by decide⟩

theorem helloFragment_shape (name : String) (label sep cipher : Text) (len : ℕ) :
    name.toList ++ "(".toList ++ (keyShareText label len ++ sep ++ cipher) ++ ")".toList =
      name.toList ++ "(KeyShare=".toList ++
        (label ++ "(".toList ++ dec len ++ "B".toList ++ [')']) ++ sep ++ (cipher ++ [')']) := by
  unfold keyShareText
  simp

theorem certificate_shape (n f a s d : Text) :
    n ++ "(".toList ++ (f ++ a ++ (' ' :: ',' :: s) ++ (d ++ "B".toList)) ++ ")".toList =
      n ++ "(".toList ++ f ++ (a ++ " ".toList ++ [',']) ++ s ++ (d ++ "B".toList ++ [')']) := by
  simp

/-- The annotations of handshake messages. -/
theorem Foreign.annotated (h : Foreign w) {t : UInt8} {note : Text} (hn : IsNote (· ≠ '=') t note) :
    apart w (tlsHandshakeFragmentName t ++ "(".toList ++ note ++ ")".toList) = true := by
  cases hn with
  | @clientHello label cipher len hl hc =>
    have he := helloFragment_shape "ClientHello" label " , Cipher[0]=".toList cipher len
    change apart w ("ClientHello".toList ++ _ ++ _ ++ _) = true
    rw [he]
    exact apart_append (h.closed (not_mem_name hc) (by decide))
      (apart_append (h.literals _ (by decide))
      (apart_append (h.share hl len) (h.literals "ClientHello(KeyShare=" (by decide))))
  | @serverHello label cipher len hl hc =>
    have he := helloFragment_shape "ServerHello" label " , Cipher=".toList cipher len
    change apart w ("ServerHello".toList ++ _ ++ _ ++ _) = true
    rw [he]
    exact apart_append (h.closed (not_mem_name hc) (by decide))
      (apart_append (h.literals _ (by decide))
      (apart_append (h.share hl len) (h.literals "ServerHello(KeyShare=" (by decide))))
  | emptyCertificate =>
    change apart w ("Certificate(Empty certificate list".toList ++ [')']) = true
    exact h.closed (by decide) (by decide)
  | @certificate sigalg len hs =>
    have he := certificate_shape "Certificate".toList "LeafSig=".toList sigalg "  Leaf=".toList
      (dec len)
    rw [← List.append_assoc _ (dec len)] at he
    refine (congrArg (apart w) he).trans ?_
    exact apart_append (h.bytes len) (apart_append (h.literals _ (by decide)) (apart_append
      (h.item hs) (h.literals "Certificate(LeafSig=" (by decide))))
  | @certificateVerify name len hs =>
    have he := certificate_shape "CertificateVerify".toList "Algorithm=".toList name
      " Signature=".toList (dec len)
    refine (congrArg (apart w) he).trans ?_
    exact apart_append (h.bytes len) (apart_append (h.literals _ (by decide)) (apart_append
      (h.item hs) (h.literals "CertificateVerify(Algorithm=" (by decide))))

/-- A fragment and the blank and the mark after it. -/
theorem Foreign.fragment (h : Foreign w) {f : Text} (hf : IsFragment (· ≠ '=') f) {x : Char}
    (hx : x ∈ [')', ',', '|', rbrace]) : apart w (f ++ " ".toList ++ [x]) = true := by
  have hmark : apart w (" ".toList ++ [x]) = true := h.closed (by decide) hx
  cases hf with
  | annotated t hn =>
    rw [List.append_assoc]
    exact apart_append hmark (h.annotated hn)
  | unknown t =>
    rw [List.append_assoc]
    refine apart_append hmark (h.closed (x := ')') ?_ (by decide))
    rw [List.mem_append, not_or]
    exact ⟨by decide, fun hm => chars_hexPad (p := (· ≠ '='))
      (by rintro c hc rfl; revert hc; decide) _ hm rfl⟩
  | plain hw =>
    refine h.closed ?_ hx
    rw [List.mem_append, not_or]
    exact ⟨fun hm => absurd (List.all_eq_true.mp hw _ hm) (by decide), by decide⟩

theorem fragments_shape (f g : Text) :
    f ++ " | ".toList ++ g = f ++ " ".toList ++ ['|'] ++ " ".toList ++ g := by
  simp

theorem Foreign.fragments (h : Foreign w) : ∀ {fs : List Text}, fs ≠ [] →
    (∀ f ∈ fs, IsFragment (· ≠ '=') f) →
    apart w (" | ".toList.intercalate fs ++ (" ".toList ++ [rbrace])) = true
  | [f], _, hf => by
    rw [List.intercalate_singleton, ← List.append_assoc]
    exact h.fragment (hf f (by simp)) (by decide)
  | f :: g :: fs, _, hf => by
    have ih := h.fragments (List.cons_ne_nil g fs) fun e he => hf e (by simp [he])
    rw [List.intercalate_cons_cons, fragments_shape, List.append_assoc]
    exact apart_append ih (apart_append (h.literals " " (by decide))
      (h.fragment (hf f (by simp)) (by decide)))

/-- What a CRYPTO frame shows before its size. -/
theorem Foreign.fields (h : Foreign w) {fragments : List Text} {n : ℕ}
    (hs : IsSpec (· ≠ '=') (.crypto fragments n)) :
    apart w (FrameSpec.crypto fragments n).fields = true := by
  have he : (FrameSpec.crypto fragments n).fields = " \x7b ".toList ++
      (" | ".toList.intercalate fragments ++ (" ".toList ++ [rbrace])) ++ " , ".toList := by
    change " \x7b ".toList ++ _ ++ (" ".toList ++ [rbrace] ++ " , ".toList) = _
    simp only [List.append_assoc]
  rw [he]
  exact apart_append (h.literals " , " (by decide)) (apart_append (h.fragments hs.1 hs.2)
    (h.literals " \x7b " (by decide)))

end

/-! ### One frame -/

/-- What a pattern for a frame name finds in a specification. -/
def found (name : String) (spec : FrameSpec) : List (List Text) :=
  if spec.name = name then [[dec spec.size]] else []

theorem matchStart_size (n : ℕ) (rest : Text) :
    matchStart (.seq (.group (.rep isDec 1)) (.lit "B)".toList)) (dec n ++ ("B)".toList ++ rest)) =
      some ([dec n], rest) :=
  matchStart_seq (matchStart_group (matchStart_rep (fun _ hc => isDec_of_mem_dec hc)
    (List.length_pos_iff.mpr (dec_ne_nil n)) (by simp; decide))) (matchStart_lit _ _)

theorem cryptoText_shape (f d rest : Text) :
    "CRYPTO".toList ++ "--(".toList ++ f ++ "SIZE=".toList ++ d ++ "B)".toList ++ rest =
      "CRYPTO--(".toList ++ (f ++ ("SIZE=".toList ++ (d ++ ("B)".toList ++ rest)))) := by
  simp

theorem paddingText_shape (d rest : Text) :
    "PADDING".toList ++ "--(".toList ++ [] ++ "SIZE=".toList ++ d ++ "B)".toList ++ rest =
      "PADDING--(SIZE=".toList ++ (d ++ ("B)".toList ++ rest)) := by
  simp

theorem foreign_size : Foreign "SIZE=".toList := ⟨by decide, by decide, by decide⟩

theorem foreign_padding : Foreign "PADDING--(SIZE=".toList := ⟨by decide, by decide, by decide⟩

/-- **A CRYPTO frame is read up to its own size.** -/
theorem matchStart_crypto {fragments : List Text} {n : ℕ}
    (he : IsSpec (· ≠ '=') (.crypto fragments n)) (hl : IsSpec LineChar (.crypto fragments n))
    (rest : Text) :
    matchStart cryptoFramePattern ((FrameSpec.crypto fragments n).text ++ rest) =
      some ([dec n], rest) := by
  have hline : ∀ c ∈ (FrameSpec.crypto fragments n).fields, decide (c ≠ '\n') = true := by
    have hover := over_fields lineChar_of_frameMark hl fun _ =>
      (by decide : ('\x7b' ≠ '\n' ∧ '\x7b' ≠ '\r') ∧ '\x7d' ≠ '\n' ∧ '\x7d' ≠ '\r')
    exact fun c hc => decide_eq_true (hover c hc).1
  have hlazy : matchStart (.seq (.lazy (· ≠ '\n')) (.seq (.lit "SIZE=".toList)
      (.seq (.group (.rep isDec 1)) (.lit "B)".toList)))) ((FrameSpec.crypto fragments n).fields ++
        ("SIZE=".toList ++ (dec n ++ ("B)".toList ++ rest)))) = some ([dec n], rest) := by
    rw [matchStart, results_lazy_apart _ hline (foreign_size.fields he)]
    exact matchStart_lazy_seq (matchStart_seq_nil (matchStart_lit _ _) (matchStart_size n rest))
  have htext : (FrameSpec.crypto fragments n).text ++ rest = _ := cryptoText_shape _ _ _
  rw [htext]
  exact matchStart_seq_nil (matchStart_lit _ _) hlazy

theorem matchStart_padding (n : ℕ) (rest : Text) :
    matchStart paddingFramePattern ((FrameSpec.padding n).text ++ rest) = some ([dec n], rest) := by
  have htext : (FrameSpec.padding n).text ++ rest = _ := paddingText_shape _ _
  rw [htext]
  exact matchStart_seq_nil (matchStart_lit _ _) (matchStart_size n rest)

/-- Words that start outside of the parentheses of a frame and end with the opening one or later. -/
theorem apart_afterFields {w s : Text} (hw : '(' ∈ w) (hx : ')' ∉ w) (hs : FieldMarks s) (n : ℕ) :
    apart w (s ++ "SIZE=".toList ++ dec n ++ "B".toList ++ [')']) = true := by
  refine apart_closed hw hx (by decide) ?_
  have hall : FieldMarks (s ++ "SIZE=".toList ++ dec n ++ "B".toList) :=
    ((hs.append (by decide)).append (fieldMarks_dec n)).append (by decide)
  intro hm
  exact absurd (hall _ hm) (by decide)

theorem text_shape (n f d : Text) :
    n ++ "--(".toList ++ f ++ "SIZE=".toList ++ d ++ "B)".toList =
      n ++ "--(".toList ++ (f ++ "SIZE=".toList ++ d ++ "B".toList ++ [')']) := by
  simp

theorem paddingApart_shape (n f d : Text) :
    n ++ "--(".toList ++ f ++ "SIZE=".toList ++ d ++ "B)".toList =
      n ++ "--(".toList ++ f ++ ([] ++ "SIZE=".toList ++ d ++ "B".toList ++ [')']) := by
  simp

variable {spec : FrameSpec}

theorem apart_spec {w : Text} (hw : '(' ∈ w) (hx : ')' ∉ w)
    (hname : apart w (spec.name.toList ++ "--(".toList) = true) (hf : FieldMarks spec.fields) :
    apart w spec.text = true := by
  rw [FrameSpec.text, text_shape]
  exact apart_append (apart_afterFields hw hx hf spec.size) hname

theorem apart_cryptoName (h : spec.name ≠ "CRYPTO") :
    apart "CRYPTO--(".toList (spec.name.toList ++ "--(".toList) = true :=
  (by decide +kernel : ∀ name ∈ frameNames, name ≠ "CRYPTO" →
    apart "CRYPTO--(".toList (name.toList ++ "--(".toList) = true) _ (name_mem spec) h

theorem apart_paddingName (h : spec.name ≠ "PADDING") :
    apart "PADDING--(SIZE=".toList (spec.name.toList ++ "--(".toList) = true :=
  (by decide +kernel : ∀ name ∈ frameNames, name ≠ "PADDING" →
    apart "PADDING--(SIZE=".toList (name.toList ++ "--(".toList) = true) _ (name_mem spec) h

theorem crypto_of_name (h : spec.name = "CRYPTO") :
    ∃ fragments n, spec = .crypto fragments n := by
  cases spec <;> simp_all [FrameSpec.name]

theorem padding_of_name (h : spec.name = "PADDING") :
    ∃ n, spec = .padding n := by
  cases spec <;> simp_all [FrameSpec.name]

theorem text_ne_nil (spec : FrameSpec) : spec.text ≠ [] := by
  unfold FrameSpec.text
  simp

/-- **What `CRYPTO_FRAME_PATTERN` finds in a specification.** -/
theorem reads_crypto (he : IsSpec (· ≠ '=') spec) (hl : IsSpec LineChar spec) :
    Reads cryptoFramePattern spec.text (found "CRYPTO" spec) := by
  unfold found
  split_ifs with h
  · obtain ⟨fragments, n, rfl⟩ := crypto_of_name h
    exact reads_of_matchStart (text_ne_nil _) (matchStart_crypto he hl)
  · have hf : FieldMarks spec.fields := fieldMarks_fields (by rintro ⟨_, _, rfl⟩; exact h rfl)
    exact (skips_of_apart (apart_spec (by decide) (by decide) (apart_cryptoName h) hf)).reads

/-- **What `PADDING_FRAME_PATTERN` finds in a specification.** -/
theorem reads_padding (he : IsSpec (· ≠ '=') spec) :
    Reads paddingFramePattern spec.text (found "PADDING" spec) := by
  unfold found
  split_ifs with h
  · obtain ⟨n, rfl⟩ := padding_of_name h
    exact reads_of_matchStart (text_ne_nil _) (matchStart_padding n)
  · refine (skips_of_apart ?_).reads
    by_cases hc : ∃ fragments n, spec = .crypto fragments n
    · obtain ⟨fragments, n, rfl⟩ := hc
      have hsize := apart_afterFields (w := "PADDING--(SIZE=".toList) (s := []) (by decide)
        (by decide) (by decide) n
      have htext : (FrameSpec.crypto fragments n).text = _ := paddingApart_shape _ _ _
      rw [htext]
      exact apart_append hsize (apart_append (foreign_padding.fields he) (apart_paddingName h))
    · exact apart_spec (by decide) (by decide) (apart_paddingName h) (fieldMarks_fields hc)

/-! ### A whole line -/
theorem credits_closed (event : PacketLogEvent) :
    ∃ t, packetLogAppendCreditFields event = t ++ [']'] := by
  unfold packetLogAppendCreditFields
  split_ifs
  · exact ⟨_, (List.append_assoc _ _ _).symm⟩
  · exact ⟨_, (List.append_assoc _ _ _).symm⟩

/-- A word that starts outside of the parentheses of a frame. -/
structure FrameWord (w : Text) : Prop where
  paren : '(' ∈ w
  blank : ' ' ∉ w
  bracket : ']' ∉ w
  separator : apart w " | ".toList = true
  unknown : apart w "UNKNOWN".toList = true

theorem frameWord_crypto : FrameWord "CRYPTO--(".toList :=
  ⟨by decide, by decide, by decide, by decide, by decide⟩

theorem frameWord_padding : FrameWord "PADDING--(SIZE=".toList :=
  ⟨by decide, by decide, by decide, by decide, by decide⟩

theorem FrameWord.before {w : Text} (h : FrameWord w) (l : PacketLine) :
    apart w (beforeFrames l ++ " ".toList) = true :=
  apart_closed h.paren h.blank (by decide) (not_mem_before (by decide) (by decide) l)

theorem FrameWord.after {w : Text} (h : FrameWord w) (l : PacketLine) :
    apart w (" ".toList ++ afterFrames l) = true := by
  obtain ⟨t, ht⟩ := credits_closed l.event
  have he : " ".toList ++ afterFrames l = " ".toList ++ [rbrace] ++ "  ".toList ++ t ++ [']'] := by
    rw [afterFrames, ht]
    simp only [List.append_assoc]
  have hmem : '(' ∉ " ".toList ++ afterFrames l := by
    rw [List.mem_append, not_or]
    exact ⟨by decide, not_mem_after (by decide) (by decide) l⟩
  rw [he] at hmem ⊢
  exact apart_closed h.paren h.bracket (by decide) fun hm => hmem (List.mem_append_left _ hm)

/-- **A pattern for frames finds the frames of a line, and nothing else.** -/
theorem FrameWord.findall {w : Text} (h : FrameWord w) {b : Regex} {name : String} {l : PacketLine}
    (hspec : ∀ spec ∈ l.specs, Reads (.seq (.lit w) b) spec.text (found name spec)) :
    findall (.seq (.lit w) b) (Line.packet l).text = l.specs.flatMap (found name) := by
  have hframes : ∀ o ∈ framesOf l, Reads (.seq (.lit w) b) (frameText o)
      (o.elim [] (found name)) := by
    intro o ho
    rcases o with _ | spec
    · exact (skips_of_apart h.unknown).reads
    · refine hspec spec ?_
      unfold framesOf at ho
      cases l.haveFrames <;> simpa using ho
  have hall := ((skips_of_apart (b := b) (h.before l)).reads.append (reads_intercalate
    (skips_of_apart h.separator) hframes)).append (skips_of_apart (h.after l)).reads
  rw [flatMap_framesOf, ← frames_eq, List.nil_append, List.append_nil] at hall
  have hnil : search (.seq (.lit w) b) [] = none := by
    have hw : ¬ w <+: [] := fun hp => by simpa using hp.subset h.paren
    simp [search, matchStart, hw]
  rw [packetText_eq, List.append_assoc _ " ".toList (afterFrames l)]
  exact hall.findall hnil

theorem findall_crypto {l : PacketLine} (h : Clear l) :
    findall cryptoFramePattern (Line.packet l).text = l.specs.flatMap (found "CRYPTO") :=
  frameWord_crypto.findall fun spec hs => reads_crypto (h.equals spec hs) (h.line spec hs)

theorem findall_padding {l : PacketLine} (h : Clear l) :
    findall paddingFramePattern (Line.packet l).text = l.specs.flatMap (found "PADDING") :=
  frameWord_padding.findall fun spec hs => reads_padding (h.equals spec hs)

/-- The sizes that are found add up to those of the frames of the name. -/
theorem foldl_found (name : String) (specs : List FrameSpec) (n : ℕ) :
    ((specs.flatMap (found name)).map intOf).foldl (· + ·) n =
      n + ((specs.filter (·.name = name)).map FrameSpec.size).sum := by
  induction specs generalizing n with
  | nil => simp
  | cons spec specs ih =>
    rw [List.flatMap_cons, List.map_append, List.foldl_append, ih]
    by_cases hn : spec.name = name
    · simp [found, hn, intOf, Nat.add_assoc]
    · simp [found, hn]

/-- **What the frames of a line add.** -/
theorem addFrames_line {l : PacketLine} (h : Clear l) (stats : PacketStats) :
    addFrames (Line.packet l).text stats =
      { stats with
        cryptoBytesSent := stats.cryptoBytesSent + frameBytes "CRYPTO" [l]
        paddingBytesSent := stats.paddingBytesSent + frameBytes "PADDING" [l] } := by
  unfold addFrames frameBytes
  rw [findall_crypto h, findall_padding h, foldl_found, foldl_found, List.flatMap_singleton]

end PapQuic.Script.LogSums
