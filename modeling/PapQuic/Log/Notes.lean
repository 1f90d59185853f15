import PapQuic.Log.FrameList
import Mathlib.Tactic.IntervalCases

/-! # What the packet log can print

The annotations of handshake messages are texts of a few shapes (`IsNote`), made of fixed words and
of names: those of the tables, and those that libcrypto has for signature algorithms. None of them
is cut off by a buffer. A message with a label also has an annotation, so the label alone is never
printed. These facts hold in every state the log can reach (`Annotated`); with them every frame
specification that is printed has one of a few shapes as well (`IsSpec`).

The class `p` of the characters that names are made of is a parameter. -/

namespace PapQuic.Log.Notes

open Lib.Printf Lib.Consume Wire.Packet Log.Names Log.Metadata Log.Handshake Log.FrameList

/-! ### Names -/

/-- The characters of the names in the tables, and of numbers. -/
def wordChar (c : Char) : Bool := c.isAlphanum || c = '_' || c = '-' || c = '.'

/-- Names are made of characters of the class `p`. -/
structure NamesOf (p : Char → Prop) (lib : X509Lib) : Prop where
  word : ∀ c, wordChar c = true → p c
  objNid2sn : ∀ nid name, lib.objNid2sn nid = some name → ∀ c ∈ name, p c

/-- A name of at most 63 characters of the class. -/
structure IsName (p : Char → Prop) (w : Text) : Prop where
  chars : ∀ c ∈ w, p c
  length : w.length ≤ 63

/-- The names of a table are words that fit. -/
def WordTable (table : List NumName) : Prop :=
  ∀ e ∈ table, e.2.toList.all wordChar = true ∧ e.2.toList.length ≤ 63

/-- The names of a table: words of at most `m` characters that start with a letter. -/
def NameTable (m : ℕ) (table : List NumName) : Prop :=
  ∀ e ∈ table, e.2.toList.head?.any Char.isAlpha = true ∧ e.2.toList.all wordChar = true ∧
    e.2.toList.length ≤ m

theorem nameTable_kGroupNameMap : NameTable 31 kGroupNameMap := by
  unfold NameTable
  decide +kernel

theorem nameTable_kCipherNameMap : NameTable 28 kCipherNameMap := by
  unfold NameTable
  decide +kernel

theorem nameTable_kSigAlgNameMap : NameTable 31 kSigAlgNameMap := by
  unfold NameTable
  decide +kernel

theorem NameTable.wordTable {m : ℕ} {table : List NumName} (h : NameTable m table) (hm : m ≤ 63) :
    WordTable table :=
  fun e he => ⟨(h e he).2.1, (h e he).2.2.trans hm⟩

theorem mem_nameOf {table : List NumName} {id : ℕ} {name : Text} (h : nameOf table id = some name) :
    ∃ e ∈ table, e.2.toList = name := by
  obtain ⟨e, he, rfl⟩ := Option.map_eq_some_iff.mp h
  exact ⟨e, List.mem_of_find?_eq_some he, rfl⟩

variable {p : Char → Prop}

/-- A text cut to a buffer of at most 64 bytes. -/
theorem isName_take {w : Text} {size : ℕ} (h : ∀ c ∈ w, p c) (hs : size ≤ 64) :
    IsName p (w.take (size - 1)) := by
  refine ⟨fun c hc => h c (List.mem_of_mem_take hc), ?_⟩
  rw [List.length_take]
  omega

section

variable {p : Char → Prop} (hp : ∀ c, wordChar c = true → p c)
include hp

theorem isName_of_all {w : Text} (h : w.all wordChar = true) (hl : w.length ≤ 63) : IsName p w :=
  ⟨fun c hc => hp c (List.all_eq_true.mp h c hc), hl⟩

theorem isName_nameOf {table : List NumName} (ht : WordTable table) {id : ℕ} {name : Text}
    (h : nameOf table id = some name) : IsName p name := by
  obtain ⟨e, he, rfl⟩ := mem_nameOf h
  exact isName_of_all hp (ht e he).1 (ht e he).2

theorem chars_dec {n : ℕ} : ∀ c ∈ dec n, p c := by
  intro c h
  have hd : c.isDigit = true := isDec_of_mem_dec h
  exact hp c (by simp [wordChar, Char.isAlphanum, hd])

theorem chars_hexPad {w n : ℕ} : ∀ c ∈ hexPad w n, p c := by
  intro c h
  obtain ⟨k, hk, rfl⟩ := mem_hexPad h
  refine hp _ ?_
  interval_cases k <;> decide

theorem chars_hexName {w n : ℕ} : ∀ c ∈ "0x".toList ++ hexPad w n, p c := by
  intro c h
  rcases List.mem_append.mp h with h | h
  · exact (isName_of_all hp (w := "0x".toList) (by decide) (by decide)).chars c h
  · exact chars_hexPad hp c h

theorem isName_formatGroupName (groupId : ℕ) : IsName p (formatGroupName groupId 32) := by
  unfold formatGroupName
  split
  · rename_i name h
    exact isName_take (isName_nameOf hp (nameTable_kGroupNameMap.wordTable (by decide)) h).chars
      (by omega)
  · exact isName_take (chars_hexName hp) (by omega)

theorem isName_unknown : IsName p "UNKNOWN".toList := isName_of_all hp (by decide) (by decide)

theorem isName_tlsCipherName (cipher : ℕ) : IsName p (tlsCipherName cipher) := by
  unfold tlsCipherName
  rcases h : nameOf kCipherNameMap cipher with _ | name
  · exact isName_unknown hp
  · exact isName_nameOf hp (nameTable_kCipherNameMap.wordTable (by decide)) h

theorem isName_tlsSigalgName (scheme : ℕ) : IsName p (tlsSigalgName scheme 32) := by
  unfold tlsSigalgName
  rcases h : nameOf kSigAlgNameMap scheme with _ | name
  · exact isName_take (chars_hexName hp) (by omega)
  · exact isName_nameOf hp (nameTable_kSigAlgNameMap.wordTable (by decide)) h

end

theorem isName_leafSigalg {lib : X509Lib} (hp : NamesOf p lib) (leaf : Bytes) :
    IsName p (leafSigalg lib leaf) := by
  unfold leafSigalg
  split
  · exact isName_unknown hp.word
  · split
    · rename_i name h
      exact isName_take (hp.objNid2sn _ name h) (by omega)
    · refine isName_take (fun c hc => ?_) (by omega)
      rcases List.mem_append.mp hc with hc | hc
      · exact (isName_of_all hp.word (w := "NID-".toList) (by decide) (by decide)).chars c hc
      · exact chars_dec hp.word c hc

/-! ### Annotations -/

/-- The annotations that can be printed for a message type. -/
inductive IsNote (p : Char → Prop) : UInt8 → Text → Prop
  | clientHello {label cipher : Text} (len : ℕ) : IsName p label → IsName p cipher →
    IsNote p 1 (keyShareText label len ++ " , Cipher[0]=".toList ++ cipher)
  | serverHello {label cipher : Text} (len : ℕ) : IsName p label → IsName p cipher →
    IsNote p 2 (keyShareText label len ++ " , Cipher=".toList ++ cipher)
  | emptyCertificate : IsNote p 11 "Empty certificate list".toList
  | certificate {sigalg : Text} (len : ℕ) : IsName p sigalg →
    IsNote p 11 ("LeafSig=".toList ++ sigalg ++ " ,  Leaf=".toList ++ dec len ++ "B".toList)
  | certificateVerify {name : Text} (len : ℕ) : IsName p name →
    IsNote p 15 ("Algorithm=".toList ++ name ++ " , Signature=".toList ++
      (dec len ++ "B".toList))

/-! ### Parsed messages -/

section Parsers

variable {p : Char → Prop} {lib : X509Lib}

/-- The key share that the extension loops find. -/
structure IsKeyShare (p : Char → Prop) (label : Text) (len : ℕ) : Prop where
  label : IsName p label
  len : len < 2 ^ 16

/-- A key share in the extension loops: none yet, or one whose label was made for its group. -/
structure IsShare (label : Text) (len : ℕ) : Prop where
  label : label = [] ∨ ∃ groupId, label = formatGroupName groupId 32
  len : len < 2 ^ 16

theorem isShare_nil : IsShare [] 0 := ⟨.inl rfl, by norm_num⟩

theorem clientHelloExt_keyShare {e : ClientHelloExts} (h : IsShare e.keyshareLabel e.keyshareLen)
    (extType : ℕ) (extData : Bytes) :
    IsShare (clientHelloExt e extType extData).keyshareLabel
      (clientHelloExt e extType extData).keyshareLen := by
  unfold clientHelloExt
  split
  · split
    · rename_i group len hk
      iterate 2 obtain ⟨_, -, hk⟩ := Option.bind_eq_some_iff.mp hk
      obtain ⟨key, hkey, hk⟩ := Option.bind_eq_some_iff.mp hk
      cases hk
      exact ⟨.inr ⟨_, rfl⟩, length_lt_of_prefixed2 hkey⟩
    · exact h
  · exact h
  · exact h
  · split <;> exact h
  · exact h

theorem clientHelloExtLoop_keyShare :
    ∀ {n : ℕ} {extensions : Bytes} {e e' : ClientHelloExts},
      clientHelloExtLoop n extensions e = some e' → IsShare e.keyshareLabel e.keyshareLen →
      IsShare e'.keyshareLabel e'.keyshareLen
  | _, [], _, _, h, he => by
    rw [clientHelloExtLoop] at h
    cases h
    exact he
  | 0, _ :: _, _, _, h, _ => by cases h
  | n + 1, b :: extensions, e, e', h, he => by
    rw [clientHelloExtLoop] at h
    · obtain ⟨⟨extType, extData, rest⟩, -, h⟩ := Option.bind_eq_some_iff.mp h
      exact clientHelloExtLoop_keyShare h (clientHelloExt_keyShare he extType extData)
    · simp

theorem serverHelloExtLoop_keyShare :
    ∀ {n : ℕ} {extensions : Bytes} {e e' : Text × ℕ},
      serverHelloExtLoop n extensions e = some e' → IsShare e.1 e.2 → IsShare e'.1 e'.2
  | _, [], _, _, h, he => by
    rw [serverHelloExtLoop] at h
    cases h
    exact he
  | 0, _ :: _, _, _, h, _ => by cases h
  | n + 1, b :: extensions, e, e', h, he => by
    rw [serverHelloExtLoop] at h
    · obtain ⟨⟨extType, extData, rest⟩, -, h⟩ := Option.bind_eq_some_iff.mp h
      dsimp only at h
      split_ifs at h
      · split at h
        · cases h
          exact he
        · exact serverHelloExtLoop_keyShare h ⟨.inr ⟨_, rfl⟩, by norm_num⟩
        · split at h
          · cases h
            exact he
          · rename_i hkey
            cases h
            exact ⟨.inr ⟨_, rfl⟩, length_lt_of_prefixed2 hkey⟩
      · exact serverHelloExtLoop_keyShare h he
    · simp

/-- The labels of key shares in annotations. -/
def GroupLabel (label : Text) : Prop :=
  label = "UNKNOWN".toList ∨ ∃ groupId, label = formatGroupName groupId 32

theorem IsShare.groupLabel {label : Text} {len : ℕ} (h : IsShare label len) :
    GroupLabel (orDefault label "UNKNOWN") := by
  unfold orDefault
  split_ifs with hnil
  · exact .inl rfl
  · exact .inr (h.label.resolve_left hnil)

theorem isName_groupLabel (hp : ∀ c, wordChar c = true → p c) {label : Text}
    (h : GroupLabel label) : IsName p label := by
  rcases h with rfl | ⟨groupId, rfl⟩
  · exact isName_unknown hp
  · exact isName_formatGroupName hp groupId

/-- The annotations that the parsers make, with where their names come from. -/
inductive NoteOf (lib : X509Lib) : UInt8 → Text → Prop
  | clientHello {label : Text} (len cipher : ℕ) : GroupLabel label →
    NoteOf lib 1 (keyShareText label len ++ " , Cipher[0]=".toList ++ tlsCipherName cipher)
  | serverHello {label : Text} (len cipher : ℕ) : GroupLabel label →
    NoteOf lib 2 (keyShareText label len ++ " , Cipher=".toList ++ tlsCipherName cipher)
  | emptyCertificate : NoteOf lib 11 "Empty certificate list".toList
  | certificate (leaf : Bytes) :
    NoteOf lib 11 ("LeafSig=".toList ++ leafSigalg lib leaf ++ " ,  Leaf=".toList ++
      dec leaf.length ++ "B".toList)
  | certificateVerify (scheme len : ℕ) :
    NoteOf lib 15 ("Algorithm=".toList ++ tlsSigalgName scheme 32 ++ " , Signature=".toList ++
      (dec len ++ "B".toList))

theorem isNote_of_noteOf (hp : NamesOf p lib) {t : UInt8} {note : Text} (h : NoteOf lib t note) :
    IsNote p t note := by
  cases h with
  | clientHello len cipher hl =>
    exact .clientHello len (isName_groupLabel hp.word hl) (isName_tlsCipherName hp.word cipher)
  | serverHello len cipher hl =>
    exact .serverHello len (isName_groupLabel hp.word hl) (isName_tlsCipherName hp.word cipher)
  | emptyCertificate => exact .emptyCertificate
  | certificate leaf => exact .certificate _ (isName_leafSigalg hp leaf)
  | certificateVerify scheme len =>
    exact .certificateVerify len (isName_tlsSigalgName hp.word scheme)

theorem namesOf_true (lib : X509Lib) : NamesOf (fun _ => True) lib :=
  ⟨fun _ _ => trivial, fun _ _ _ _ _ => trivial⟩

theorem length_keyShareText {label : Text} {len : ℕ} (h : IsKeyShare p label len) :
    (keyShareText label len).length ≤ 80 := by
  have h1 := h.label.length
  have h2 := length_dec_le (n := len) (k := 5) (by omega) (by have := h.len; omega)
  unfold keyShareText
  simp only [List.length_append,
    show "KeyShare=".toList.length = 9 by decide,
    show "(".toList.length = 1 by decide,
    show "B)".toList.length = 2 by decide]
  omega

/-- The annotation of a hello message fits. -/
theorem length_helloNote {label s : Text} {len : ℕ} (hl : GroupLabel label) (hlen : len < 2 ^ 16)
    (hs : s.length ≤ 13) (cipher : ℕ) :
    (keyShareText label len ++ s ++ tlsCipherName cipher).length < 256 := by
  have hname : IsName (fun _ => True) label := isName_groupLabel (fun _ _ => trivial) hl
  have hc : IsName (fun _ => True) (tlsCipherName cipher) :=
    isName_tlsCipherName (fun _ _ => trivial) cipher
  have h1 := length_keyShareText ⟨hname, hlen⟩
  have h2 := hc.length
  rw [List.length_append, List.length_append]
  omega

/-- What a message leaves in its slot when it is parsed: no label and no note, or a label and a
note; only an empty certificate list has its note in the detail. -/
inductive RecordOf (notes : UInt8 → Text → Prop) (t : UInt8) : TlsHandshakeMetadata → Prop
  | plain (detail : Option Text) : (t = 11 ∨ t = 15 → False) → RecordOf notes t ⟨none, detail, none⟩
  | note (label detail : Option Text) {note : Text} : notes t note → note.length < 256 →
    RecordOf notes t ⟨label, detail, some note⟩
  | detail (label : Option Text) {note : Text} : t = 11 → notes t note → note.length < 256 →
    RecordOf notes t ⟨label, some note, none⟩

variable {r : TlsHandshakeMetadata}

theorem RecordOf.mono {notes notes' : UInt8 → Text → Prop} {t : UInt8} (h : RecordOf notes t r)
    (hn : ∀ note, notes t note → notes' t note) : RecordOf notes' t r := by
  cases h with
  | plain detail hne => exact .plain detail hne
  | note label detail h hl => exact .note label detail (hn _ h) hl
  | detail label ht h hl => exact .detail label ht (hn _ h) hl

theorem recorded_clientHello {body : Bytes} (h : packetLogParseClientHello body = some r) :
    RecordOf (NoteOf lib) 1 r := by
  iterate 3 obtain ⟨_, -, h⟩ := Option.bind_eq_some_iff.mp h
  obtain ⟨⟨ciphers, _⟩, -, h⟩ := Option.bind_eq_some_iff.mp h
  iterate 2 obtain ⟨_, -, h⟩ := Option.bind_eq_some_iff.mp h
  obtain ⟨e, he, h⟩ := Option.bind_eq_some_iff.mp h
  cases h
  have hk := clientHelloExtLoop_keyShare he isShare_nil
  have hlt := length_helloNote (s := " , Cipher[0]=".toList) hk.groupLabel hk.len (by decide)
    (((packetGetNet2 ciphers).map Prod.fst).getD 0)
  rw [snprintf_of_length_lt hlt]
  exact .note _ _ (.clientHello _ _ hk.groupLabel) hlt

theorem recorded_serverHello {body : Bytes} (h : packetLogParseServerHello body = some r) :
    RecordOf (NoteOf lib) 2 r := by
  iterate 3 obtain ⟨_, -, h⟩ := Option.bind_eq_some_iff.mp h
  obtain ⟨⟨cipher, _⟩, -, h⟩ := Option.bind_eq_some_iff.mp h
  iterate 2 obtain ⟨_, -, h⟩ := Option.bind_eq_some_iff.mp h
  obtain ⟨⟨label, len⟩, he, h⟩ := Option.bind_eq_some_iff.mp h
  cases h
  have hk := serverHelloExtLoop_keyShare he isShare_nil
  have hlt := length_helloNote (s := " , Cipher=".toList) hk.groupLabel hk.len (by decide) cipher
  rw [snprintf_of_length_lt hlt]
  exact .note _ _ (.serverHello _ _ hk.groupLabel) hlt

theorem recorded_certificate {body : Bytes} (h : packetLogParseCertificate lib body = some r) :
    RecordOf (NoteOf lib) 11 r := by
  iterate 3 obtain ⟨_, -, h⟩ := Option.bind_eq_some_iff.mp h
  dsimp only at h
  split_ifs at h
  · cases h
    exact .detail _ rfl .emptyCertificate (by decide)
  · obtain ⟨⟨leaf, _⟩, hleaf, h⟩ := Option.bind_eq_some_iff.mp h
    cases h
    have hd := length_dec_le (n := leaf.length) (k := 8) (by omega)
      (by have := length_lt_of_prefixed3 hleaf; omega)
    have hlt : ("LeafSig=".toList ++ leafSigalg lib leaf ++ " ,  Leaf=".toList ++
        dec leaf.length ++ "B".toList).length < 256 := by
      have := (isName_leafSigalg (namesOf_true lib) leaf).length
      simp only [List.length_append,
        show "LeafSig=".toList.length = 8 by decide,
        show " ,  Leaf=".toList.length = 9 by decide,
        show "B".toList.length = 1 by decide]
      omega
    rw [snprintf_of_length_lt hlt]
    exact .note _ _ (.certificate leaf) hlt

theorem recorded_certificateVerify {body : Bytes}
    (h : packetLogParseCertificateVerify body = some r) : RecordOf (NoteOf lib) 15 r := by
  obtain ⟨_, -, h⟩ := Option.bind_eq_some_iff.mp h
  obtain ⟨⟨scheme, _⟩, -, h⟩ := Option.bind_eq_some_iff.mp h
  obtain ⟨⟨signature, _⟩, hsig, h⟩ := Option.bind_eq_some_iff.mp h
  cases h
  have hs : IsName (fun _ => True) (tlsSigalgName scheme 32) :=
    isName_tlsSigalgName (fun _ _ => trivial) scheme
  have hd := length_dec_le (n := signature.length) (k := 5) (by omega)
    (by have := length_lt_of_prefixed2 hsig; omega)
  have hlt : ("Algorithm=".toList ++ tlsSigalgName scheme 32 ++ " , Signature=".toList ++
      (dec signature.length ++ "B".toList)).length < 160 := by
    have := hs.length
    simp only [List.length_append,
      show "Algorithm=".toList.length = 10 by decide,
      show " , Signature=".toList.length = 13 by decide,
      show "B".toList.length = 1 by decide]
    omega
  rw [snprintf_of_length_lt hlt]
  exact .note _ _ (.certificateVerify scheme _) (by omega)

/-- **What a message records.** -/
theorem recorded_parse {t : UInt8} {body : Bytes} (h : parseHandshakeMessage lib t body = some r) :
    RecordOf (NoteOf lib) t r := by
  unfold parseHandshakeMessage at h
  split at h
  · exact recorded_clientHello h
  · exact recorded_serverHello h
  · iterate 3 obtain ⟨_, -, h⟩ := Option.bind_eq_some_iff.mp h
    cases h
    exact .plain _ (by decide)
  · exact recorded_certificate h
  · exact recorded_certificateVerify h
  · cases h
    exact .plain _ (by decide)
  · cases h

end Parsers

/-! ### The metadata table -/

theorem strlcpy_of_length_lt {size : ℕ} {s : Text} (h : s.length < size) : strlcpy size s = s :=
  List.take_of_length_le (by omega)

/-- The annotations in the table. -/
def Noted (notes : UInt8 → Text → Prop) (tls : TlsMetadata) : Prop :=
  ∀ t note, slotNote tls t = some note → notes t note ∧ note.length < 256

theorem noted_noMetadata (notes : UInt8 → Text → Prop) : Noted notes noMetadata := by
  intro t note h
  simp [slotNote, noMetadata] at h

variable {tls : TlsMetadata} {notes : UInt8 → Text → Prop}

theorem noted_record (h : Noted notes tls) {t : UInt8} {r : TlsHandshakeMetadata}
    (hr : RecordOf notes t r) :
    Noted notes (packetLogRecordMetadata tls t r) := by
  intro t' note hn
  by_cases he : t' = t
  · subst he
    rw [slotNote_record] at hn
    cases hr with
    | plain detail hne =>
      have hif : ¬ (t' = 11 ∨ t' = 15) := hne
      refine h t' note ?_
      simpa [slotNote, hif] using hn
    | @note label detail new hnew hl =>
      obtain rfl : new = note := by simpa [strlcpy_of_length_lt hl] using hn
      exact ⟨hnew, hl⟩
    | @detail label new ht hnew hl =>
      subst ht
      rcases hold : (tls 11).packetNote with _ | old
      · have hlt : new.length < 512 := by omega
        obtain rfl : new = note := by simpa [hold, strlcpy_of_length_lt hlt] using hn
        exact ⟨hnew, hl⟩
      · refine h 11 note ?_
        simpa [slotNote, hold] using hn
  · refine h t' note ?_
    simpa [slotNote, packetLogRecordMetadata, he] using hn

theorem noted_process {lib : X509Lib} (hn : ∀ t note, NoteOf lib t note → notes t note)
    (h : Noted notes tls) (t : UInt8) (body : Bytes) :
    Noted notes (packetLogProcessHandshakeMessage lib tls t body) := by
  unfold packetLogProcessHandshakeMessage
  split
  · rename_i r hr
    exact noted_record h ((recorded_parse hr).mono fun note => hn t note)
  · exact h

/-- The slots of the table give annotations that can be printed, and those that give none have no
label. -/
structure Annotated (p : Char → Prop) (tls : TlsMetadata) : Prop where
  noted : Noted (IsNote p) tls
  unlabelled : ∀ t, slotNote tls t = none → (tls t).label = none

theorem annotated_noMetadata (p : Char → Prop) : Annotated p noMetadata :=
  ⟨noted_noMetadata _, fun _ _ => rfl⟩

theorem annotated_record (h : Annotated p tls) {t : UInt8} {r : TlsHandshakeMetadata}
    (hr : RecordOf (IsNote p) t r) :
    Annotated p (packetLogRecordMetadata tls t r) := by
  refine ⟨noted_record h.noted hr, fun t' hnone => ?_⟩
  have hold := h.unlabelled t'
  by_cases he : t' = t
  · subst he
    cases hr with
    | plain detail hne =>
      have hif : ¬ (t' = 11 ∨ t' = 15) := hne
      simp only [slotNote, packetLogRecordMetadata, Function.update_self, Option.map_none,
        Option.none_or, if_neg hif] at hold hnone ⊢
      exact hold hnone
    | note label detail => simp [slotNote, packetLogRecordMetadata] at hnone
    | detail label ht =>
      subst ht
      simp [slotNote, packetLogRecordMetadata] at hnone
  · simp only [slotNote, packetLogRecordMetadata, Function.update_of_ne he] at hold hnone ⊢
    exact hold hnone

theorem annotated_process {lib : X509Lib} (hp : NamesOf p lib) (h : Annotated p tls) (t : UInt8)
    (body : Bytes) :
    Annotated p (packetLogProcessHandshakeMessage lib tls t body) := by
  unfold packetLogProcessHandshakeMessage
  split
  · rename_i r hr
    exact annotated_record h ((recorded_parse hr).mono fun _ => isNote_of_noteOf hp)
  · exact h

/-! ### Fragments and specifications -/

/-- What can be printed for a handshake message, or for bytes that are none. -/
inductive IsFragment (p : Char → Prop) : Text → Prop
  | annotated (t : UInt8) {note : Text} : IsNote p t note →
    IsFragment p (tlsHandshakeFragmentName t ++ "(".toList ++ note ++ ")".toList)
  | unknown (t : UInt8) : IsFragment p ("UNKNOWN(0x".toList ++ hexPad 2 t.toNat ++ ")".toList)
  | plain {name : Text} : name.all wordChar = true → IsFragment p name

theorem all_tlsHandshakeFragmentName (t : UInt8) :
    (tlsHandshakeFragmentName t).all wordChar = true := by
  unfold tlsHandshakeFragmentName
  generalize hn : nameOf _ t.toNat = name
  rcases name with _ | name
  · decide
  · obtain ⟨e, he, rfl⟩ := mem_nameOf hn
    clear hn
    revert e
    decide +kernel

/-- The text for a message: its name with an annotation, if there is one. -/
def fragmentText (t : UInt8) : Option Text → Text
  | some note => tlsHandshakeFragmentName t ++ "(".toList ++ note ++ ")".toList
  | none =>
    if tlsHandshakeFragmentName t = "UNKNOWN".toList then
      "UNKNOWN(0x".toList ++ hexPad 2 t.toNat ++ ")".toList
    else tlsHandshakeFragmentName t

/-- A note that is selected is that of the slot. -/
theorem select_or_slotNote (h : Noted notes tls) (t : UInt8) (noted : Bool) :
    (if noted then packetLogSelectNote tls t else none).or (slotNote tls t) = slotNote tls t := by
  rcases hs : slotNote tls t with _ | note
  · simp [packetLogSelectNote, hs]
  · have hlen := (h t note hs).2
    cases noted <;> simp [packetLogSelectNote, hs, strlcpy_of_length_lt hlen]

/-- What is printed for a message has the annotation of its slot. -/
theorem emit_eq (h : Annotated p tls) (t : UInt8) (noted : Bool) :
    packetLogEmitHandshakeFragment tls t (if noted then packetLogSelectNote tls t else none) =
      fragmentText t (slotNote tls t) := by
  rw [packetLogEmitHandshakeFragment, select_or_slotNote h.noted]
  rcases hs : slotNote tls t with _ | note
  · rw [h.unlabelled t hs]
    rfl
  · rfl

theorem isFragment_emit (h : Annotated p tls) (t : UInt8) (noted : Bool) :
    IsFragment p (packetLogEmitHandshakeFragment tls t
      (if noted then packetLogSelectNote tls t else none)) := by
  rw [emit_eq h]
  rcases hs : slotNote tls t with _ | note
  · unfold fragmentText
    split_ifs
    · exact .unknown t
    · exact .plain (all_tlsHandshakeFragmentName t)
  · exact .annotated t (h.noted t note hs).1

/-- What the log keeps: a property of the table that no message destroys, and what then holds of
everything that is printed for handshake bytes. -/
structure Kept (lib : X509Lib) (table : TlsMetadata → Prop) (good : Text → Prop) : Prop where
  process : ∀ {tls : TlsMetadata} (t : UInt8) (body : Bytes), table tls →
    table (packetLogProcessHandshakeMessage lib tls t body)
  emit : ∀ {tls : TlsMetadata} (t : UInt8) (noted : Bool), table tls →
    good (packetLogEmitHandshakeFragment tls t (if noted then packetLogSelectNote tls t else none))
  word : ∀ {w : Text}, w.all wordChar = true → good w

theorem kept_annotated {lib : X509Lib} (hp : NamesOf p lib) :
    Kept lib (Annotated p) (IsFragment p) :=
  ⟨fun t body h => annotated_process hp h t body,
    fun t noted h => isFragment_emit h t noted, .plain⟩

section Kept

variable {lib : X509Lib} {table : TlsMetadata → Prop} {good : Text → Prop}

theorem Kept.runCall (hk : Kept lib table good) {o : HsOut}
    (h : table o.tls ∧ ∀ f ∈ o.fragments, good f) (call : HsCall) :
    table (runCall lib o call).tls ∧ ∀ f ∈ (runCall lib o call).fragments, good f := by
  have hadd {f : Text} (hf : good f) : ∀ g ∈ o.fragments ++ [f], good g :=
    List.forall_mem_append.mpr ⟨h.2, by simpa using hf⟩
  cases call with
  | process t body => exact ⟨hk.process t body h.1, h.2⟩
  | event => exact h
  | fragment t noted => exact ⟨h.1, hadd (hk.emit t noted h.1)⟩
  | handshakeData => exact ⟨h.1, hadd (hk.word (by decide))⟩

theorem Kept.runCalls (hk : Kept lib table good) : ∀ (calls : List HsCall) {o : HsOut},
    (table o.tls ∧ ∀ f ∈ o.fragments, good f) →
    table (runCalls lib o calls).tls ∧ ∀ f ∈ (runCalls lib o calls).fragments, good f
  | [], _, h => h
  | call :: calls, _, h => hk.runCalls calls (hk.runCall h call)

/-- The fragments of a CRYPTO frame are good, and there is one. -/
def SpecOf (good : Text → Prop) : FrameSpec → Prop
  | .crypto fragments _ => fragments ≠ [] ∧ ∀ f ∈ fragments, good f
  | _ => True

theorem Kept.logFrame (hk : Kept lib table good) (alloc : Bool) (event : EventKey) {s : SpecState}
    (h : table s.log.tlsMetadata) (size : ℕ) (frame : LoggedFrame) :
    SpecOf good (logFrame lib alloc event s size frame).1 ∧
      table (logFrame lib alloc event s size frame).2.log.tlsMetadata := by
  cases frame with
  | crypto f =>
    have hf : (∀ g ∈ (packetLogAppendCryptoFragments lib alloc event s f.data).1, good g) ∧
        table (packetLogAppendCryptoFragments lib alloc event s f.data).2.log.tlsMetadata := by
      have hr := hk.runCalls
        (packetLogAppendHandshakeBytes alloc (s.log.hsState event) f.data).1
        (o := ⟨s.log.tlsMetadata, s.mask, []⟩) ⟨h, by simp⟩
      unfold packetLogAppendCryptoFragments
      split
      · exact ⟨hr.2, hr.1⟩
      · exact ⟨hr.2, hr.1⟩
      · exact ⟨List.forall_mem_singleton.mpr (hk.word (by decide)), h⟩
      · exact ⟨List.forall_mem_singleton.mpr (hk.word (by decide)), h⟩
    refine ⟨?_, hf.2⟩
    show SpecOf good (.crypto (if _ then _ else _) size)
    split_ifs with hnil
    · exact ⟨by simp, List.forall_mem_singleton.mpr (hk.word (by decide))⟩
    · exact ⟨hnil, hf.1⟩
  | _ => exact ⟨trivial, h⟩

/-- **What a packet can print**, and what it leaves in the table. -/
theorem Kept.appendFrames (hk : Kept lib table good) {event : EventKey}
    {alloc : ℕ → Bool} {fuel : ℕ} {s : SpecState} {payload : Bytes} {r : FramesResult}
    (hr : packetLogAppendFrames lib event alloc fuel s payload = some r)
    (h : table s.log.tlsMetadata) :
    (∀ spec ∈ r.specs, SpecOf good spec) ∧ table r.state.log.tlsMetadata := by
  rw [appendFrames_eq_logFrames] at hr
  obtain ⟨o, -, rfl⟩ := Option.map_eq_some_iff.mp hr
  exact handle_invariant (fun s : SpecState => table s.log.tlsMetadata)
    (fun i _ f hs => hk.logFrame (alloc i) event hs f.2 f.1) 0 s o.1 h

end Kept

/-- The specifications that can be printed. -/
abbrev IsSpec (p : Char → Prop) : FrameSpec → Prop := SpecOf (IsFragment p)

/-- The names of frames. -/
def frameNames : List String :=
  ["PADDING", "ACK", "CRYPTO", "STREAM", "PING", "NEW_TOKEN", "NEW_CONNECTION_ID",
    "CONNECTION_CLOSE", "PATH_CHALLENGE", "PATH_RESPONSE", "HANDSHAKE_DONE", "UNKNOWN"]

theorem name_mem (spec : FrameSpec) : spec.name ∈ frameNames := by
  cases spec <;> simp [FrameSpec.name, frameNames]

/-- A frame name is a word. -/
theorem all_name (spec : FrameSpec) : spec.name.toList.all wordChar = true :=
  (by decide +kernel : ∀ name ∈ frameNames, name.toList.all wordChar = true) _ (name_mem spec)

end PapQuic.Log.Notes
