import PapQuic.Log.Output
import PapQuic.Script.Frames

/-! # The sizes that are searched for in the logs

`extract_tls_sizes` of `scripts/run_packet_count.py` searches the logs for the first place where a
size is printed. For the sizes of the hello messages this is the first CRYPTO frame whose list of
fragments starts with the name of the message (`sizeIn_log`): a single frame, also where the
message is spread over several. -/

namespace PapQuic.Script.HelloSize

open Lib.Printf Lib.Re Lib.TextFile Log.FrameList Log.Lines Log.Notes Log.Chars
open Log.Output Script.Frames

/-! ### The script -/

/-- `KeyShare=[^(]+\((\d+)B\)` after a name. -/
def keysharePattern (name : String) : Regex :=
  .seq (.lit name.toList) (.seq (.lazy (· ≠ '\n')) (.seq (.lit "KeyShare=".toList)
    (.seq (.rep (· ≠ '(') 1) (.seq (.lit "(".toList)
      (.seq (.group (.rep isDec 1)) (.lit "B)".toList))))))

/-- `CLIENT_KEYSHARE_PATTERN`. -/
def clientKeysharePattern : Regex := keysharePattern "ClientHello"

/-- `SERVER_KEYSHARE_PATTERN`. -/
def serverKeysharePattern : Regex := keysharePattern "ServerHello"

/-- `LEAF_CERT_PATTERN`. -/
def leafCertPattern : Regex :=
  .seq (.lit "Leaf=".toList) (.seq (.group (.rep isDec 1)) (.lit "B".toList))

/-- `SIGNATURE_PATTERN`. -/
def signaturePattern : Regex :=
  .seq (.lit "Signature=".toList) (.seq (.group (.rep isDec 1)) (.lit "B".toList))

/-- `\}\s*,\s*SIZE=(\d+)B\)`. -/
def sizeRe : Regex :=
  .seq (.lit [rbrace]) (.seq (.rep isSpace 0) (.seq (.lit ",".toList) (.seq (.rep isSpace 0)
    (.seq (.lit "SIZE=".toList) (.seq (.group (.rep isDec 1)) (.lit "B)".toList))))))

/-- What the patterns for the hello messages have after the brace. -/
def fragmentRe (name : String) : Regex :=
  .seq (.rep isSpace 0) (.seq (.lit name.toList) (.seq (.lazy (· ≠ '\n')) sizeRe))

/-- `CRYPTO--\(\s*\{\s*`, the name and the rest. -/
def helloSizePattern (name : String) : Regex := opened "CRYPTO--(".toList lbrace (fragmentRe name)

/-- `CLIENT_HELLO_SIZE_PATTERN`. -/
def clientHelloSizePattern : Regex := helloSizePattern "ClientHello"

/-- `SERVER_HELLO_SIZE_PATTERN`. -/
def serverHelloSizePattern : Regex := helloSizePattern "ServerHello"

/-- `int(m.group(1))` of a match. -/
def intGroup (r : Regex) (content : Text) : Option ℕ :=
  match search r content with
  | some (n :: _, _) => some (ofDec n)
  | _ => none

structure TlsSizes where
  clientKeyshare : ℕ
  serverKeyshare : ℕ
  clientHello : ℕ
  serverHello : ℕ
  signature : ℕ
  serverCert : ℕ
  deriving DecidableEq, Repr

/-- The size that a pattern finds in a log, or 0; a log that does not exist is `none`. -/
def sizeIn (r : Regex) (log : Option Text) : ℕ :=
  (log.bind fun content => intGroup r (translateNewlines content)).getD 0

/-- `extract_tls_sizes`. -/
def extractTlsSizes (clientLog serverLog : Option Text) : TlsSizes where
  clientKeyshare := sizeIn clientKeysharePattern clientLog
  serverKeyshare := sizeIn serverKeysharePattern clientLog
  clientHello := sizeIn clientHelloSizePattern clientLog
  serverHello := sizeIn serverHelloSizePattern clientLog
  signature := sizeIn signaturePattern serverLog
  serverCert := sizeIn leafCertPattern serverLog

/-! ### One CRYPTO frame -/

/-- The characters of names: neither braces nor line breaks. -/
def PieceChar (c : Char) : Prop := c ≠ lbrace ∧ c ≠ rbrace ∧ c ≠ '\n' ∧ c ≠ '\r'

instance (c : Char) : Decidable (PieceChar c) := inferInstanceAs (Decidable (_ ∧ _))

theorem pieceChar_of_specMark (c : Char) (h : specMark c = true) : PieceChar c := by
  refine ⟨?_, ?_, ?_, ?_⟩ <;> rintro rfl <;> revert h <;> decide

theorem pieceChar_of_frameMark (c : Char) (h : frameMark c = true) : PieceChar c :=
  pieceChar_of_specMark c (specMark_of_frameMark h)

/-- The fragments of a frame start with the name. -/
def startsWithName (name : String) (fragments : List Text) : Bool :=
  name.toList.isPrefixOf ((" | ".toList.intercalate fragments).dropWhile isSpace)

/-- The size that a pattern finds in a specification. -/
def shown (name : String) : FrameSpec → Option ℕ
  | .crypto fragments n => if startsWithName name fragments then some n else none
  | _ => none

theorem size_of_shown {name : String} {spec : FrameSpec} {n : ℕ} (h : shown name spec = some n) :
    spec.size = n := by
  cases spec with
  | crypto fragments k =>
    rw [shown] at h
    split_ifs at h
    exact Option.some.inj h
  | _ => cases h

/-- A name that is no problem for a search: it has no spaces and no braces. -/
structure IsWord (name : String) : Prop where
  ne_nil : name.toList ≠ []
  chars : ∀ c ∈ name.toList, isSpace c = false ∧ c ≠ rbrace

theorem isWord_clientHello : IsWord "ClientHello" := ⟨by decide, by decide⟩

theorem isWord_serverHello : IsWord "ServerHello" := ⟨by decide, by decide⟩

/-- A blank where the pattern has `\s*`. -/
theorem matchStart_blank {b : Regex} {w : Text} (hne : w ≠ []) (hw : ∀ c ∈ w, isSpace c = false)
    {t rest : Text} {groups : List Text} (hb : matchStart b t = some (groups, rest)) :
    matchStart (.seq (.rep isSpace 0) (.seq (.lit w) b)) (" ".toList ++ (w ++ t)) =
      some (groups, rest) := by
  have hrep : matchStart (.rep isSpace 0) (" ".toList ++ (w ++ t)) = some ([], w ++ t) :=
    matchStart_rep (by decide) (by simp) (forall_head_append hne hw t)
  exact matchStart_seq_nil hrep (matchStart_seq_nil (matchStart_lit w t) hb)

theorem matchStart_sizeRe (n : ℕ) (rest : Text) :
    matchStart sizeRe ([rbrace] ++ (" ".toList ++ (",".toList ++ (" ".toList ++ ("SIZE=".toList ++
      (dec n ++ ("B)".toList ++ rest))))))) = some ([dec n], rest) := by
  have hgroup : matchStart (.group (.rep isDec 1)) (dec n ++ ("B)".toList ++ rest)) =
      some ([dec n], "B)".toList ++ rest) :=
    matchStart_group (matchStart_rep (fun c hc => isDec_of_mem_dec hc)
      (List.length_pos_of_ne_nil (dec_ne_nil n))
      (forall_head_append (by decide) (by decide) rest))
  refine matchStart_seq_nil (matchStart_lit [rbrace] _) ?_
  refine matchStart_blank (by decide) (by decide) ?_
  refine matchStart_blank (by decide) (by decide) ?_
  exact matchStart_seq hgroup (matchStart_lit "B)".toList rest)

theorem rejects_sizeRe : Rejects sizeRe (· ≠ rbrace) := (rejects_lit [] (by decide)).seq _

/-- What the list of fragments of a frame is printed as, from the brace on. -/
def afterBrace (fragments : List Text) (n : ℕ) (rest : Text) : Text :=
  " ".toList ++ (" | ".toList.intercalate fragments ++ (" ".toList ++ ([rbrace] ++ (" ".toList ++
    (",".toList ++ (" ".toList ++ ("SIZE=".toList ++ (dec n ++ ("B)".toList ++ rest)))))))))

theorem prefix_of_prefix_append {w f t : Text} {c : Char} (hc : c ∉ w) (h : w <+: f ++ c :: t) :
    w <+: f := by
  obtain ⟨u, hu⟩ := h
  rcases List.append_eq_append_iff.mp hu with ⟨d, hd, -⟩ | ⟨d, hd, hd'⟩
  · exact ⟨d, hd.symm⟩
  · rcases d with _ | ⟨e, d⟩
    · exact ⟨[], by simpa using hd⟩
    · obtain rfl : c = e := (List.cons.inj hd').1
      exact absurd (hd ▸ by simp) hc

section Frame

variable {name : String} {fragments : List Text}

theorem results_afterBrace (hn : IsWord name) (n : ℕ) (rest : Text) :
    results (fragmentRe name) (afterBrace fragments n rest) =
      results (.seq (.lit name.toList) (.seq (.lazy (· ≠ '\n')) sizeRe))
        ((afterBrace fragments n rest).dropWhile isSpace) := by
  obtain ⟨c, w, hw⟩ := List.exists_cons_of_ne_nil hn.ne_nil
  have hc : isSpace c = false := (hn.chars c (by simp [hw])).1
  refine results_rep_seq_eq (Rejects.seq ?_ _) _
  rw [hw]
  exact rejects_lit w hc

/-- **A frame whose fragments start with the name**: its size is found. -/
theorem matchStart_fragmentRe (hn : IsWord name) (hf : ∀ f ∈ fragments, Over PieceChar f)
    (h : startsWithName name fragments = true) (n : ℕ) (rest : Text) :
    matchStart (fragmentRe name) (afterBrace fragments n rest) = some ([dec n], rest) := by
  rw [matchStart, results_afterBrace hn, ← matchStart]
  obtain ⟨g, hg⟩ := List.isPrefixOf_iff_prefix.mp h
  have hover : Over PieceChar (" | ".toList.intercalate fragments) :=
    over_intercalate (by decide) hf
  have hgchars : ∀ c ∈ g ++ " ".toList, (decide (c ≠ '\n') = true) ∧
      ∀ s, results sizeRe (c :: s) = [] := by
    intro c hc
    have hp : PieceChar c := by
      rcases List.mem_append.mp hc with hc | hc
      · have hmem : c ∈ (" | ".toList.intercalate fragments).dropWhile isSpace :=
          hg ▸ List.mem_append_right _ hc
        exact hover c ((List.dropWhile_sublist _).subset hmem)
      · rw [List.mem_singleton.mp hc]
        decide
    exact ⟨by simpa using hp.2.2.1, fun s => rejects_sizeRe c s (by simpa using hp.2.1)⟩
  have hne : (" | ".toList.intercalate fragments).dropWhile isSpace ≠ [] := by
    rw [← hg]
    simp [hn.ne_nil]
  -- the lazy repetition takes the rest of the fragments: the first closing brace is the frame's own
  rw [afterBrace, List.dropWhile_append_of_pos (by decide), List.dropWhile_append,
    if_neg (by simpa using hne), ← hg, List.append_assoc]
  refine matchStart_seq_nil (matchStart_lit name.toList _) ?_
  rw [← List.append_assoc, matchStart, results_lazy_seq _ hgchars, ← matchStart]
  exact matchStart_lazy_seq (matchStart_sizeRe n rest)

theorem results_fragmentRe (hn : IsWord name) (h : startsWithName name fragments = false) (n : ℕ)
    (rest : Text) : results (fragmentRe name) (afterBrace fragments n rest) = [] := by
  rw [results_afterBrace hn]
  refine results_seq_nil ?_ _
  rw [results_lit, if_neg]
  have hnot : ¬ name.toList <+: (" | ".toList.intercalate fragments).dropWhile isSpace := by
    rw [← List.isPrefixOf_iff_prefix]
    exact Bool.eq_false_iff.mp h
  rw [afterBrace, List.dropWhile_append_of_pos (by decide), List.dropWhile_append]
  split_ifs with hnil
  · -- only the blank before the brace is left
    intro hw
    have hw : name.toList <+: [] := prefix_of_prefix_append (c := rbrace)
      (fun hm => (hn.chars _ hm).2 rfl) hw
    exact hn.ne_nil (List.prefix_nil.mp hw)
  · intro hw
    exact hnot (prefix_of_prefix_append (c := ' ')
      (fun hm => absurd (hn.chars _ hm).1 (by decide)) hw)

end Frame

/-! ### The whole log -/

theorem opens_crypto : Opens "CRYPTO--(".toList lbrace := ⟨by decide, by decide, by decide⟩

/-- A piece of a list of frames in which the size `v` is found, if there is one. -/
def Passes (name : String) (t : Text) (v : Option ℕ) : Prop :=
  ∀ b rest, lbrace ∉ b →
    intGroup (helloSizePattern name) (b ++ (t ++ rest)) =
      v.or (intGroup (helloSizePattern name) rest)

section Log

variable {name : String}

theorem intGroup_congr {r : Regex} {s t : Text} (h : search r s = search r t) :
    intGroup r s = intGroup r t := by
  unfold intGroup
  rw [h]

/-- Text without braces that ends neither with a space nor within the word. -/
theorem passes_closed {t : Text} {x : Char} (ht : lbrace ∉ t ++ [x]) (hx : x ∉ "CRYPTO--(".toList)
    (hs : isSpace x = false) : Passes name (t ++ [x]) none := by
  intro b rest hb
  have hmem : lbrace ∉ (b ++ t) ++ [x] := by
    rw [List.append_assoc]
    simp only [List.mem_append, not_or]
    exact ⟨hb, by simpa using ht⟩
  rw [Option.none_or]
  refine intGroup_congr ?_
  have h := opens_crypto.search_closed (r := fragmentRe name) hx hs rest hmem
  have he : b ++ (t ++ [x] ++ rest) = (b ++ t) ++ ([x] ++ rest) := by simp
  rw [he]
  exact h

theorem crypto_shape (i d rest : Text) :
    "CRYPTO".toList ++ "--(".toList ++ (" \x7b ".toList ++ i ++ " \x7d , ".toList) ++
        "SIZE=".toList ++ d ++ "B)".toList ++ rest =
      "CRYPTO--(".toList ++ (" ".toList ++ lbrace ::
        (" ".toList ++ (i ++ (" ".toList ++ ([rbrace] ++
        (" ".toList ++ (",".toList ++ (" ".toList ++ ("SIZE=".toList ++ (d ++ ("B)".toList ++
          rest))))))))))) := by
  simp [lbrace, rbrace]

theorem specText_crypto (fragments : List Text) (n : ℕ) (rest : Text) :
    (FrameSpec.crypto fragments n).text ++ rest =
      "CRYPTO--(".toList ++ (" ".toList ++ lbrace :: afterBrace fragments n rest) :=
  crypto_shape _ _ _

theorem closed_shape (i d rest : Text) :
    " ".toList ++ (i ++ (" ".toList ++ ([rbrace] ++ (" ".toList ++ (",".toList ++ (" ".toList ++
        ("SIZE=".toList ++ (d ++ ("B)".toList ++ rest))))))))) =
      (" ".toList ++ i ++ " \x7d , SIZE=".toList ++ d ++ "B".toList) ++ ([')'] ++ rest) := by
  simp [rbrace]

theorem specText_closed (spec : FrameSpec) : spec.text =
    (spec.name.toList ++ "--(".toList ++ spec.fields ++ "SIZE=".toList ++ dec spec.size ++
      "B".toList) ++ [')'] := by
  rw [FrameSpec.text, List.append_assoc _ "B".toList]
  rfl

theorem not_mem_of_over {s : Text} (h : Over PieceChar s) : lbrace ∉ s := fun hm => (h _ hm).1 rfl

/-- Nothing more is found in a frame. -/
theorem search_afterBrace {fragments : List Text} (hf : ∀ f ∈ fragments, Over PieceChar f) (n : ℕ)
    (rest : Text) : search (helloSizePattern name) (afterBrace fragments n rest) =
      search (helloSizePattern name) rest := by
  have hmem : lbrace ∉ (" ".toList ++ " | ".toList.intercalate fragments ++
      " \x7d , SIZE=".toList ++ dec n ++ "B".toList) ++ [')'] := by
    have hi := not_mem_of_over (over_intercalate (by decide) hf : Over PieceChar
      (" | ".toList.intercalate fragments))
    have hd : lbrace ∉ dec n := not_mem_dec (by decide)
    simp only [List.mem_append, not_or]
    exact ⟨⟨⟨⟨⟨by decide, hi⟩, by decide⟩, hd⟩, by decide⟩, by decide⟩
  rw [afterBrace, closed_shape]
  exact opens_crypto.search_closed (by decide) (by decide) rest hmem

/-- **A specification.** -/
theorem passes_spec (hn : IsWord name) {spec : FrameSpec} (h : IsSpec PieceChar spec) :
    Passes name spec.text (shown name spec) := by
  by_cases hc : ∃ fragments n, spec = .crypto fragments n
  · obtain ⟨fragments, n, rfl⟩ := hc
    have hf : ∀ f ∈ fragments, Over PieceChar f :=
      fun f hf => over_fragment pieceChar_of_frameMark (h.2 f hf)
    intro b rest hb
    have hs := opens_crypto.search_opened (r := fragmentRe name) (w := " ".toList) hb (by decide)
      (afterBrace fragments n rest)
    rw [specText_crypto, shown]
    split_ifs with hname
    · rw [matchStart_fragmentRe hn hf hname, Option.some_or] at hs
      rw [intGroup, helloSizePattern, hs, Option.some_or]
      exact congrArg some (ofDec_dec n)
    · have hnil := results_fragmentRe hn (Bool.eq_false_iff.mpr hname) n rest
      rw [matchStart, hnil, List.head?_nil, Option.none_or] at hs
      rw [Option.none_or]
      exact intGroup_congr (hs.trans (search_afterBrace hf n rest))
  · have hover : Over PieceChar spec.text :=
      over_specText pieceChar_of_frameMark h fun hc' => absurd hc' hc
    have hnone : shown name spec = none := by
      cases spec with
      | crypto fragments n => exact absurd ⟨_, _, rfl⟩ hc
      | _ => rfl
    rw [hnone, specText_closed]
    rw [specText_closed] at hover
    exact passes_closed (not_mem_of_over hover) (by decide) (by decide)

/-- Marks without parentheses, up to a character that is not in the word. -/
theorem intGroup_marks {s : Text} (hs : '(' ∉ s) {rest : Text}
    (hrest : ∀ c ∈ rest.head?, c ∉ "CRYPTO--(".toList) :
    intGroup (helloSizePattern name) (s ++ rest) = intGroup (helloSizePattern name) rest :=
  intGroup_congr (opens_crypto.search_without (y := '(') (by decide) hrest hs)

theorem intGroup_cons {c : Char} (hc : c ∉ "CRYPTO--(".toList) (rest : Text) :
    intGroup (helloSizePattern name) (c :: rest) = intGroup (helloSizePattern name) rest :=
  intGroup_congr (opens_crypto.search_cons hc rest)

/-- The text up to the end of a line. -/
theorem intGroup_line {s : Text} (hs : '(' ∉ s) (rest : Text) :
    intGroup (helloSizePattern name) (s ++ '\n' :: rest) =
      intGroup (helloSizePattern name) rest := by
  rw [intGroup_marks hs (by simp), intGroup_cons (by decide)]

theorem findSome_cons (q : Text × Option ℕ) (ps : List (Text × Option ℕ)) :
    (q :: ps).findSome? Prod.snd = q.2.or (ps.findSome? Prod.snd) := by
  rw [List.findSome?_cons]
  cases q.2 <;> rfl

/-- **A list of pieces**: the first size is found. -/
theorem intGroup_pieces {tail : Text} (htail : '(' ∉ tail) (rest : Text) :
    ∀ (ps : List (Text × Option ℕ)) {b : Text}, (∀ q ∈ ps, Passes name q.1 q.2) → lbrace ∉ b →
      '(' ∉ b →
      intGroup (helloSizePattern name)
          (b ++ (" | ".toList.intercalate (ps.map Prod.fst) ++ (tail ++ '\n' :: rest))) =
        (ps.findSome? Prod.snd).or (intGroup (helloSizePattern name) rest)
  | [], b, _, _, hb' => by
    have hmem : '(' ∉ b ++ tail := by simp [hb', htail]
    have he : b ++ (" | ".toList.intercalate (List.map Prod.fst ([] : List (Text × Option ℕ))) ++
        (tail ++ '\n' :: rest)) = (b ++ tail) ++ '\n' :: rest := by simp
    rw [he, intGroup_line hmem, List.findSome?_nil, Option.none_or]
  | [q], b, h, hb, _ => by
    rw [List.map_singleton, List.intercalate_singleton, h q (by simp) b _ hb, intGroup_line htail,
      findSome_cons, List.findSome?_nil, Option.or_none]
  | q :: q' :: ps, b, h, hb, _ => by
    have ih := intGroup_pieces htail rest (q' :: ps) (b := " | ".toList)
      (fun x hx => h x (by simp [hx])) (by decide) (by decide)
    have he : b ++ (" | ".toList.intercalate ((q :: q' :: ps).map Prod.fst) ++
          (tail ++ '\n' :: rest)) =
        b ++ (q.1 ++ (" | ".toList ++ (" | ".toList.intercalate ((q' :: ps).map Prod.fst) ++
          (tail ++ '\n' :: rest)))) := by
      rw [List.map_cons, List.map_cons, List.intercalate_cons_cons]
      simp only [List.append_assoc]
    rw [he, h q (by simp) b _ hb, ih, findSome_cons q, Option.or_assoc]

/-- The specifications of a line. -/
def specsOf : Line → List FrameSpec
  | .packet l => l.specs
  | .internal _ => []

/-- The pieces of a packet line with the sizes in them. -/
def pieces (name : String) (l : PacketLine) : List (Text × Option ℕ) :=
  l.specs.map (fun spec => (spec.text, shown name spec)) ++
    if l.haveFrames then [] else [("UNKNOWN".toList, none)]

theorem map_fst_pieces (l : PacketLine) : (pieces name l).map Prod.fst = l.frames := by
  simp only [pieces, PacketLine.frames, List.map_append, List.map_map]
  congr 1
  split_ifs <;> rfl

theorem findSome_pieces (l : PacketLine) :
    (pieces name l).findSome? Prod.snd = l.specs.findSome? (shown name) := by
  rw [pieces, List.findSome?_append, List.findSome?_map]
  have hnone : (if l.haveFrames then [] else [("UNKNOWN".toList, (none : Option ℕ))]).findSome?
      Prod.snd = none := by
    split_ifs <;> rfl
  rw [hnone, Option.or_none]
  rfl

theorem passes_pieces (hn : IsWord name) {l : PacketLine}
    (h : ∀ spec ∈ l.specs, IsSpec PieceChar spec) : ∀ q ∈ pieces name l, Passes name q.1 q.2 := by
  intro q hq
  rcases List.mem_append.mp hq with hq | hq
  · obtain ⟨spec, hs, rfl⟩ := List.mem_map.mp hq
    exact passes_spec hn (h spec hs)
  · split_ifs at hq
    · cases hq
    · rw [List.mem_singleton.mp hq]
      exact passes_closed (t := "UNKNOW".toList) (x := 'N') (by decide) (by decide) (by decide)

theorem not_mem_of_marks {s : Text} (h : Marks s) : '(' ∉ s :=
  fun hm => absurd (h _ hm) (by decide)

theorem line_shape (h f i c rest : Text) :
    h ++ (f ++ " \x7b ".toList ++ i ++ " \x7d  ".toList ++ c) ++ '\n' :: rest =
      (h ++ f ++ " ".toList) ++ lbrace :: (" ".toList ++ (i ++ ((" \x7d  ".toList ++ c) ++
        '\n' :: rest))) := by
  simp [lbrace]

/-- **A line of the log.** -/
theorem intGroup_text (hn : IsWord name) {l : Line} (h : IsLine PieceChar l) (rest : Text) :
    intGroup (helloSizePattern name) (l.text ++ '\n' :: rest) =
      ((specsOf l).findSome? (shown name)).or (intGroup (helloSizePattern name) rest) := by
  cases l with
  | internal l =>
    have hmem : '(' ∉ (Line.internal l).text :=
      not_mem_of_marks ((heads_header _).marks.append (marks_internal l))
    rw [intGroup_line hmem]
    rfl
  | packet l =>
    have htail : '(' ∉ " \x7d  ".toList ++ packetLogAppendCreditFields l.event := by
      simp only [List.mem_append, not_or]
      exact ⟨by decide, not_mem_of_marks (heads_creditFields _).marks⟩
    have hp := intGroup_pieces htail rest (pieces name l) (b := " ".toList) (passes_pieces hn h)
      (by decide) (by decide)
    rw [map_fst_pieces, findSome_pieces] at hp
    have hhead :=
      not_mem_of_marks (((heads_header (.packet l)).marks.append (heads_fields l).marks).append
      (by decide : Marks " ".toList))
    refine (congrArg _ (line_shape _ _ _ _ rest)).trans ?_
    refine (intGroup_marks hhead (by simp [lbrace])).trans ?_
    rw [intGroup_cons (by decide), hp]
    rfl

theorem intGroup_nil : intGroup (helloSizePattern name) [] = none := by
  rw [intGroup, helloSizePattern, opens_crypto.search_eq_none (by simp)]

theorem intGroup_log (hn : IsWord name) : ∀ {log : List Line}, (∀ l ∈ log, IsLine PieceChar l) →
    intGroup (helloSizePattern name) (writeLines (log.map Line.text)) =
      (log.flatMap specsOf).findSome? (shown name)
  | [], _ => intGroup_nil
  | l :: log, h => by
    have ih := intGroup_log hn fun m hm => h m (List.mem_cons_of_mem l hm)
    have he : writeLines ((l :: log).map Line.text) =
        l.text ++ '\n' :: writeLines (log.map Line.text) := by
      simp [writeLines]
    rw [he, intGroup_text hn (h l (by simp)), ih, List.flatMap_cons, List.findSome?_append]

/-- **The size that is found**: that of the first CRYPTO frame whose fragments start with the
name. -/
theorem sizeIn_log (hn : IsWord name) {log : List Line} (h : ∀ l ∈ log, IsLine PieceChar l)
    (h' : ∀ l ∈ log, IsLine LineChar l) :
    sizeIn (helloSizePattern name) (some (writeLines (log.map Line.text))) =
      ((log.flatMap specsOf).findSome? (shown name)).getD 0 := by
  have hone : ∀ s ∈ log.map Line.text, OneLine s := by
    intro s hs
    obtain ⟨l, hl, rfl⟩ := List.mem_map.mp hs
    exact oneLine_text (h' l hl)
  rw [sizeIn, Option.bind_some, translateNewlines_writeLines hone, intGroup_log hn h]

end Log

end PapQuic.Script.HelloSize
