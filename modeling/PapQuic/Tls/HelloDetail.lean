import PapQuic.Tls.KeyShare
import PapQuic.Log.Notes

/-! # The details of a ClientHello

The detail that `packet_log_parse_client_hello` records lists the names of the first signature
schemes, versions and groups that the client offers. The version list is read behind its length. The
other two are handed to the formatters with the length still in front of them, which is printed as
if it were the first scheme, or the first group (`clientHello_detail_iff`). -/

namespace PapQuic.Tls.HelloDetail

open Lib.Printf Lib.Run Wire.Packet Log.Names Log.Metadata Log.Notes Tls.Hello
open Tls.KeyShare

/-! ### Lists of names -/

/-- The names of the first `limit` code points, and `...` when there are more. -/
def listed (name : ℕ → Text) (limit : ℕ) (ns : List ℕ) : List Text :=
  (ns.take limit).map name ++ if limit < ns.length then ["...".toList] else []

/-- Texts with a comma between them. -/
def join (l : List Text) : Text := ", ".toList.intercalate l

/-- Names that are not empty, of at most `m` characters, without a comma and a closing bracket. -/
structure Namer (name : ℕ → Text) (m : ℕ) : Prop where
  ne_nil : ∀ n, name n ≠ []
  length_le : ∀ n, (name n).length ≤ m
  chars : ∀ n, Over (fun c => c ≠ ',' ∧ c ≠ ']') (name n)

theorem join_ne_nil {l : List Text} (hl : l ≠ []) (h : ∀ t ∈ l, t ≠ []) : join l ≠ [] := by
  obtain ⟨a, l, rfl⟩ := List.exists_cons_of_ne_nil hl
  have ha : a ≠ [] := h a (List.mem_cons_self ..)
  rw [join, intercalate_cons_flatMap]
  exact List.append_ne_nil_of_left_ne_nil ha _

/-- A token goes to the end of the list, as long as it fits. -/
theorem packetLogAppendToken_join {bufLen m : ℕ} {l : List Text} {t : Text}
    (hl : ∀ t ∈ l, t ≠ [] ∧ t.length ≤ m) (ht : t ≠ []) (htm : t.length ≤ m)
    (hbuf : (l.length + 1) * (m + 2) < bufLen) :
    packetLogAppendToken bufLen (join l) t = join (l ++ [t]) := by
  have hlen : (join l).length ≤ l.length * (m + 2) :=
    length_intercalate_le _ fun t ht => (hl t ht).2
  have hsep : ", ".toList.length = 2 := by decide
  rw [Nat.succ_mul] at hbuf
  rw [packetLogAppendToken, if_neg ht]
  by_cases h : l = []
  · subst h
    have hnil : join [] = [] := rfl
    rw [hnil, if_pos rfl, strlcat_of_length_lt (by rw [List.length_nil]; omega)]
    simp [join]
  · have hcomma : strlcat bufLen (join l) ", ".toList = join l ++ ", ".toList :=
      strlcat_of_length_lt (by omega)
    rw [if_neg (join_ne_nil h fun t ht => (hl t ht).1), hcomma,
      strlcat_of_length_lt (by rw [List.length_append]; omega), join, join,
      intercalate_concat _ _ h, List.append_assoc]

variable {name : ℕ → Text}

/-- **The loop of the formatters.** -/
theorem formatVector_points {m limit bufLen : ℕ} (hname : Namer name m) (hm : 3 ≤ m)
    (hbuf : (limit + 1) * (m + 2) < bufLen) {ns : List ℕ} (hns : ∀ n ∈ ns, n < 2 ^ 16) :
    ∀ {l : List Text}, (∀ t ∈ l, t ≠ [] ∧ t.length ≤ m) → l.length < limit ∨ ns = [] ∧
    l.length ≤ limit →
      formatVector name limit bufLen (points ns) l.length (join l) =
        join (l ++ listed name (limit - l.length) ns) := by
  induction ns with
  | nil =>
    intro l _ _
    simp [points, formatVector, listed]
  | cons n ns ih =>
    intro l hl hlimit
    have hlt : l.length < limit := by
      rcases hlimit with h | h
      · exact h
      · exact absurd h.1 (List.cons_ne_nil n ns)
    obtain ⟨hn, hns⟩ := List.forall_mem_cons.mp hns
    have hpoints : points (n :: ns) = UInt8.ofNat (n / 256) :: UInt8.ofNat n :: points ns := rfl
    have hnet : netOrder [UInt8.ofNat (n / 256), UInt8.ofNat n] = n := netOrder_u16 hn
    have hroom : ∀ {k}, k ≤ limit → (k + 1) * (m + 2) < bufLen := fun hk =>
      Nat.lt_of_le_of_lt (Nat.mul_le_mul_right _ (by omega)) hbuf
    have htoken : packetLogAppendToken bufLen (join l) (name n) = join (l ++ [name n]) :=
      packetLogAppendToken_join hl (hname.ne_nil n) (hname.length_le n) (hroom hlt.le)
    have hl' : ∀ t ∈ l ++ [name n], t ≠ [] ∧ t.length ≤ m := by
      intro t ht
      rcases List.mem_append.mp ht with ht | ht
      · exact hl t ht
      · rw [List.mem_singleton.mp ht]
        exact ⟨hname.ne_nil n, hname.length_le n⟩
    have hlen : (l ++ [name n]).length = l.length + 1 := by simp
    rw [hpoints, formatVector, hnet, htoken, length_points]
    split_ifs with hmore
    · -- the limit is reached and more code points follow
      have hone : limit - l.length = 1 := by omega
      rw [packetLogAppendToken_join hl' (by decide) (Nat.le_trans (by decide) hm)
        (by rw [hlen]; exact hroom hlt), hone, listed, if_pos (by simp; omega)]
      simp
    · have hsub : limit - (l.length + 1) = limit - l.length - 1 := by omega
      obtain ⟨k, hk⟩ : ∃ k, limit - l.length = k + 1 := ⟨limit - l.length - 1, by omega⟩
      have hstep := ih hns hl' (by
        rw [hlen]
        by_cases hnil : ns = []
        · exact Or.inr ⟨hnil, hlt⟩
        · have hpos := List.length_pos_of_ne_nil hnil
          exact Or.inl (by omega))
      rw [hlen] at hstep
      rw [hstep, hsub, hk, listed, listed]
      simp

theorem mem_listed {m limit : ℕ} (hname : Namer name m) {ns : List ℕ} {t : Text}
    (h : t ∈ listed name limit ns) : Over (fun c => c ≠ ',' ∧ c ≠ ']') t := by
  rcases List.mem_append.mp h with h | h
  · obtain ⟨n, -, rfl⟩ := List.mem_map.mp h
    exact hname.chars n
  · split at h
    · rw [List.mem_singleton.mp h]
      decide
    · exact absurd h (List.not_mem_nil)

theorem bracket_not_mem_join {m limit : ℕ} (hname : Namer name m) (ns : List ℕ) :
    ']' ∉ join (listed name limit ns) := by
  have hover : Over (fun c => c ≠ ']') (join (listed name limit ns)) :=
    over_intercalate (by decide) fun t ht => (mem_listed hname ht).mono fun _ h => h.2
  exact fun h => hover _ h rfl

theorem listed_ne_nil {limit : ℕ} (h0 : 0 < limit) {ns : List ℕ} (h : ns ≠ []) :
    listed name limit ns ≠ [] := by
  obtain ⟨n, ns, rfl⟩ := List.exists_cons_of_ne_nil h
  obtain ⟨limit, rfl⟩ : ∃ k, limit = k + 1 := ⟨limit - 1, by omega⟩
  simp [listed]

theorem length_join_listed_le {m limit : ℕ} (hname : Namer name m) (ns : List ℕ) :
    (join (listed name limit ns)).length ≤ limit * (m + 2) + 5 := by
  have hnames : (join ((ns.take limit).map name)).length ≤ limit * (m + 2) := by
    have hle : (join ((ns.take limit).map name)).length ≤
        ((ns.take limit).map name).length * (m + 2) :=
      length_intercalate_le _ (List.forall_mem_map.mpr fun n _ => hname.length_le n)
    refine hle.trans (Nat.mul_le_mul_right _ ?_)
    rw [List.length_map]
    exact List.length_take_le _ _
  have hdots : (", ".toList ++ "...".toList).length = 5 := by decide
  rw [listed]
  split
  · by_cases hnil : (ns.take limit).map name = []
    · rw [hnil]
      exact Nat.le_trans (by decide : 3 ≤ 5) (Nat.le_add_left _ _)
    · rw [join, intercalate_concat _ _ hnil, List.length_append, hdots]
      exact Nat.add_le_add_right hnames 5
  · rw [List.append_nil]
    exact Nat.le_trans hnames (Nat.le_add_right _ _)

/-! ### A number before the list -/

/-- A list is the same with an element put in front and the last one dropped when it has only that
element. -/
theorem cons_dropLast_eq_self {α : Type*} : ∀ {x : α} {l : List α}, l ≠ [] →
    (x :: l.dropLast = l ↔ ∀ y ∈ l, y = x)
  | _, [], h => absurd rfl h
  | x, [a], _ => by
    simp [eq_comm]
  | x, a :: b :: l, _ => by
    have ih := cons_dropLast_eq_self (x := a) (List.cons_ne_nil b l)
    rw [List.dropLast_cons_cons, List.cons.injEq, ih, List.forall_mem_cons (a := a)]
    constructor
    · rintro ⟨rfl, h⟩
      exact ⟨rfl, h⟩
    · rintro ⟨rfl, h⟩
      exact ⟨rfl, h⟩

/-- When an extra code point in front of a list goes unnoticed. -/
theorem listed_cons_eq_iff {limit : ℕ} (h0 : 0 < limit) (k : ℕ) {ns : List ℕ} (hne : ns ≠ []) :
    listed name limit (k :: ns) = listed name limit ns ↔
      limit < ns.length ∧ ∀ n ∈ ns.take limit, name n = name k := by
  obtain ⟨i, rfl⟩ : ∃ i, limit = i + 1 := ⟨limit - 1, by omega⟩
  by_cases hlen : i + 1 < ns.length
  · have htake : ns.take i = (ns.take (i + 1)).dropLast := (List.dropLast_take hlen).symm
    have hnil : (ns.take (i + 1)).map name ≠ [] := by
      obtain ⟨n, ns, rfl⟩ := List.exists_cons_of_ne_nil hne
      simp
    have hmore : i + 1 < (k :: ns).length := Nat.lt_succ_of_lt hlen
    rw [listed, listed, if_pos hlen, if_pos hmore, List.append_cancel_right_eq,
      List.take_succ_cons, List.map_cons, htake, List.map_dropLast, cons_dropLast_eq_self hnil,
      List.forall_mem_map]
    simp [hlen]
  · refine iff_of_false (fun h => ?_) fun h => hlen h.1
    -- one name more is listed
    have hcount := congrArg List.length h
    simp only [listed, List.length_append, List.length_map, List.length_take, if_neg hlen,
      List.length_nil, List.length_cons] at hcount
    split at hcount <;> simp at hcount <;> omega

/-! ### The three kinds of names -/

theorem plain_of_wordChar (c : Char) (h : wordChar c = true) : c ≠ ',' ∧ c ≠ ']' := by
  constructor
  · rintro rfl
    exact absurd h (by decide)
  · rintro rfl
    exact absurd h (by decide)

/-- The names of the tables are not empty and fit their buffer. -/
theorem length_nameOf {table : List NumName} {m : ℕ} (ht : NameTable m table) {id : ℕ} {name : Text}
    (h : nameOf table id = some name) : 0 < name.length ∧ name.length ≤ m := by
  obtain ⟨e, he, rfl⟩ := mem_nameOf h
  obtain ⟨hhead, -, hlen⟩ := ht e he
  refine ⟨List.length_pos_iff.mpr fun hnil => ?_, hlen⟩
  rw [hnil] at hhead
  cases hhead

theorem length_tlsCipherName_le (cipher : ℕ) : (tlsCipherName cipher).length ≤ 28 := by
  unfold tlsCipherName
  rcases h : nameOf kCipherNameMap cipher with _ | name
  · decide
  · exact (length_nameOf nameTable_kCipherNameMap h).2

theorem length_hexName (n : ℕ) : 0 < (snprintf 32 ("0x".toList ++ hexPad 4 n)).length ∧
    (snprintf 32 ("0x".toList ++ hexPad 4 n)).length ≤ 31 := by
  have h2 : "0x".toList.length = 2 := by decide
  rw [snprintf, List.length_take, List.length_append, h2]
  omega

theorem namer_formatGroupName : Namer (formatGroupName · 32) 31 := by
  have hlen : ∀ n, 0 < (formatGroupName n 32).length ∧ (formatGroupName n 32).length ≤ 31 := by
    intro n
    unfold formatGroupName
    split
    · rename_i name h
      have hn := length_nameOf nameTable_kGroupNameMap h
      rw [strlcpy, List.length_take]
      omega
    · exact length_hexName n
  exact ⟨fun n => List.ne_nil_of_length_pos (hlen n).1, fun n => (hlen n).2,
    fun n => (isName_formatGroupName plain_of_wordChar n).chars⟩

theorem namer_tlsSigalgName : Namer (tlsSigalgName · 32) 31 := by
  have hlen : ∀ n, 0 < (tlsSigalgName n 32).length ∧ (tlsSigalgName n 32).length ≤ 31 := by
    intro n
    unfold tlsSigalgName
    rcases h : nameOf kSigAlgNameMap n with _ | name
    · exact length_hexName n
    · exact length_nameOf nameTable_kSigAlgNameMap h
  exact ⟨fun n => List.ne_nil_of_length_pos (hlen n).1, fun n => (hlen n).2,
    fun n => (isName_tlsSigalgName plain_of_wordChar n).chars⟩

theorem namer_tlsVersionName : Namer tlsVersionName 7 := by
  have hname : ∀ n, tlsVersionName n ∈ ["TLS1.3".toList, "TLS1.2".toList, "TLS1.1".toList,
      "TLS1.0".toList, "UNKNOWN".toList] := by
    intro n
    unfold tlsVersionName
    rcases h : nameOf _ n with _ | name
    · decide
    · obtain ⟨e, he, rfl⟩ := mem_nameOf h
      clear h
      revert e
      decide
  have hall : ∀ t ∈ ["TLS1.3".toList, "TLS1.2".toList, "TLS1.1".toList, "TLS1.0".toList,
      "UNKNOWN".toList], t ≠ [] ∧ t.length ≤ 7 ∧ Over (fun c => c ≠ ',' ∧ c ≠ ']') t := by
    decide
  exact ⟨fun n => (hall _ (hname n)).1, fun n => (hall _ (hname n)).2.1,
    fun n => (hall _ (hname n)).2.2⟩

/-! ### What the loop finds -/

section Found

variable {ch : ClientHello}

theorem find_of_mem {e : ClientExt} (h : e ∈ ch.extensions) :
    ch.extensions.find? (·.extType = e.extType) = some e := by
  rcases hfind : ch.extensions.find? (·.extType = e.extType) with _ | x
  · exact absurd (List.find?_eq_none.mp hfind e h) (by simp)
  · have hx : x.extType = e.extType := by simpa using List.find?_some hfind
    rw [hfind, List.inj_on_of_nodup_map ch.distinct (List.mem_of_find?_eq_some hfind) h hx]

/-- A local of the parser that only one type of extension sets. -/
theorem found_of_mem {τ : Type*} (proj : ClientHelloExts → τ) (upd : τ → Extension → τ)
    {e : ClientExt} (h : e ∈ ch.extensions)
    (hin : ∀ s d, proj (clientHelloExt s e.extType d) = upd (proj s) (e.extType, d))
    (hout : ∀ s t d, t ≠ e.extType → proj (clientHelloExt s t d) = proj s) :
    proj ch.found = upd (proj {}) e.ext := by
  have hdistinct : (ch.extensions.map ClientExt.ext).Pairwise fun a b =>
      decide (a.1 = e.extType) = true → decide (b.1 = e.extType) = false := by
    refine pairwise_extType ?_ _
    rw [List.map_map]
    exact ch.distinct
  refine (run_once proj upd ?_ ?_ {} hdistinct).trans ?_
  · rintro s ⟨t, d⟩ ht
    obtain rfl : t = e.extType := by simpa using ht
    exact hin s d
  · rintro s ⟨t, d⟩ ht
    exact hout s t d (by simpa using ht)
  · rw [find_ext, find_of_mem h]
    rfl

variable {ns : List ℕ}

/-- A list that still has its length in front of it. -/
theorem formatVector_vec2 {m limit bufLen : ℕ} (hname : Namer name m) (hm : 3 ≤ m)
    (h0 : 0 < limit) (hbuf : (limit + 1) * (m + 2) < bufLen) (hns : ∀ n ∈ ns, n < 2 ^ 16)
    (hlen : (vec2 (points ns)).length < 2 ^ 16) :
    formatVector name limit bufLen (vec2 (points ns)) 0 [] =
      join (listed name limit (2 * ns.length :: ns)) := by
  have hpoints : vec2 (points ns) = points (2 * ns.length :: ns) := by
    rw [vec2, length_points]
    rfl
  have hlt : 2 * ns.length < 2 ^ 16 := by
    rw [length_vec2, length_points] at hlen
    omega
  rw [hpoints]
  exact formatVector_points hname hm hbuf (List.forall_mem_cons.mpr ⟨hlt, hns⟩) (l := []) (by simp)
    (Or.inl h0)

theorem found_sigalgsBuf (h : .signatureAlgorithms ns ∈ ch.extensions) :
    ch.found.sigalgsBuf = join (listed (tlsSigalgName · 32) 5 (2 * ns.length :: ns)) := by
  obtain ⟨-, hns, hlen⟩ : ns ≠ [] ∧ (∀ n ∈ ns, n < 2 ^ 16) ∧ (vec2 (points ns)).length < 2 ^ 16 :=
    ch.wellFormed _ h
  have hbuf := found_of_mem (·.sigalgsBuf) (fun _ e => packetLogFormatSigalgVector e.2 256) h
    (fun s d => rfl) ?_
  · rw [hbuf]
    exact formatVector_vec2 namer_tlsSigalgName (by decide) (by decide) (by decide) hns hlen
  · intro s t d ht
    unfold clientHelloExt
    split
    · split <;> rfl
    · exact absurd rfl ht
    · rfl
    · split <;> rfl
    · rfl

theorem found_groupsBuf (h : .supportedGroups ns ∈ ch.extensions) :
    ch.found.groupsBuf = join (listed (formatGroupName · 32) 5 (2 * ns.length :: ns)) := by
  obtain ⟨-, hns, hlen⟩ : ns ≠ [] ∧ (∀ n ∈ ns, n < 2 ^ 16) ∧ (vec2 (points ns)).length < 2 ^ 16 :=
    ch.wellFormed _ h
  have hbuf := found_of_mem (·.groupsBuf) (fun _ e => packetLogFormatGroupVector e.2 256) h
    (fun s d => rfl) ?_
  · rw [hbuf]
    exact formatVector_vec2 namer_formatGroupName (by decide) (by decide) (by decide) hns hlen
  · intro s t d ht
    unfold clientHelloExt
    split
    · split <;> rfl
    · rfl
    · exact absurd rfl ht
    · split <;> rfl
    · rfl

theorem found_versionsBuf (h : .supportedVersions ns ∈ ch.extensions) :
    ch.found.versionsBuf = join (listed tlsVersionName 4 ns) := by
  obtain ⟨-, hns, hlen⟩ : ns ≠ [] ∧ (∀ n ∈ ns, n < 2 ^ 16) ∧ (points ns).length < 2 ^ 8 :=
    ch.wellFormed _ h
  have hread := packetGetLengthPrefixed1_vec1 hlen []
  rw [List.append_nil] at hread
  have hbuf := found_of_mem (·.versionsBuf)
    (fun x e => ((packetGetLengthPrefixed1 e.2).map fun y =>
      packetLogFormatVersionList y.1 128).getD x)
    h ?_ ?_
  · rw [hbuf]
    change ((packetGetLengthPrefixed1 (vec1 (points ns))).map fun y =>
      packetLogFormatVersionList y.1 128).getD _ = _
    rw [hread]
    exact formatVector_points namer_tlsVersionName (by decide) (by decide) hns (l := []) (by simp)
      (Or.inl (by decide))
  · intro s d
    change (clientHelloExt s 43 d).versionsBuf = _
    unfold clientHelloExt
    simp only
    cases packetGetLengthPrefixed1 d <;> rfl
  · intro s t d ht
    unfold clientHelloExt
    split
    · split <;> rfl
    · rfl
    · rfl
    · exact absurd rfl ht
    · rfl

end Found

/-! ### The detail -/

/-- The share and the cipher suite, as they begin the detail. -/
def start (ch : ClientHello) : Text :=
  keyShareText (((firstShare ch).map fun s => formatGroupName s.group 32).getD "UNKNOWN".toList)
    ch.keyshareLen ++ " | Cipher[0]=".toList ++ ch.firstCipher

/-- The start and three lists. -/
def withLists (start sigalgs versions groups : Text) : Text :=
  start ++ (" | SigAlgs=[".toList ++ (sigalgs ++ ("] | Versions=[".toList ++
    (versions ++ ("] | Groups=[".toList ++ (groups ++ "]".toList))))))

/-- The detail with lists of the given code points: five schemes, four versions, five groups. -/
def detailOf (ch : ClientHello) (schemes versions groups : List ℕ) : Text :=
  withLists (start ch) (join (listed (tlsSigalgName · 32) 5 schemes))
    (join (listed tlsVersionName 4 versions)) (join (listed (formatGroupName · 32) 5 groups))

theorem appendList_eq {d buf : Text} {opening : String} (hne : buf ≠ [])
    (h : d.length + opening.toList.length + buf.length + 1 < 512) :
    appendList d opening buf = d ++ opening.toList ++ buf ++ "]".toList := by
  have hclose : "]".toList.length = 1 := by decide
  have h1 : strlcat 512 d opening.toList = d ++ opening.toList := strlcat_of_length_lt (by omega)
  have h2 : strlcat 512 (d ++ opening.toList) buf = d ++ opening.toList ++ buf :=
    strlcat_of_length_lt (by rw [List.length_append]; omega)
  rw [appendList, if_neg hne, h1, h2]
  exact strlcat_of_length_lt (by rw [List.length_append, List.length_append]; omega)

/-- Nothing is cut off. -/
theorem appendList_appendList {start sigalgs versions groups : Text} (h1 : start.length ≤ 89)
    (h2 : sigalgs.length ≤ 170) (h3 : versions.length ≤ 41) (h4 : groups.length ≤ 170)
    (hversions : versions ≠ []) (hgroups : groups ≠ []) :
    strlcpy 512 (appendList (appendList (snprintf 512 (start ++ " | SigAlgs=[".toList ++ sigalgs ++
      "]".toList)) " | Versions=[" versions) " | Groups=[" groups) =
      withLists start sigalgs versions groups := by
  have hopen : " | SigAlgs=[".toList.length = 12 := by decide
  have hopen2 : " | Versions=[".toList.length = 13 := by decide
  have hopen3 : " | Groups=[".toList.length = 11 := by decide
  have hclose : "]".toList.length = 1 := by decide
  have hmid2 : "] | Versions=[".toList = "]".toList ++ " | Versions=[".toList := by decide
  have hmid3 : "] | Groups=[".toList = "]".toList ++ " | Groups=[".toList := by decide
  have hfirst : (start ++ " | SigAlgs=[".toList ++ sigalgs ++ "]".toList).length ≤ 272 := by
    simp only [List.length_append, hopen, hclose]
    omega
  rw [snprintf_of_length_lt (by omega), appendList_eq hversions (by omega),
    appendList_eq hgroups
      (by simp only [List.length_append, hopen2, hopen3, hclose] at hfirst ⊢; omega)]
  refine (List.take_of_length_le ?_).trans ?_
  · simp only [List.length_append, hopen, hopen2, hopen3, hclose]
    omega
  · rw [withLists, hmid2, hmid3]
    simp only [List.append_assoc]

theorem start_eq (ch : ClientHello) :
    keyShareText (orDefault ch.found.keyshareLabel "UNKNOWN") ch.found.keyshareLen ++
      " | Cipher[0]=".toList ++ ch.firstCipher = start ch := by
  have hlabel : orDefault ch.found.keyshareLabel "UNKNOWN" =
      ((firstShare ch).map fun s => formatGroupName s.group 32).getD "UNKNOWN".toList := by
    have hfound := congrArg Prod.fst (found_keyShare ch)
    unfold orDefault
    rcases h : firstShare ch with _ | s
    · rw [h] at hfound
      exact if_pos hfound
    · rw [h] at hfound
      have hname : ch.found.keyshareLabel = formatGroupName s.group 32 := hfound
      rw [hname, if_neg (namer_formatGroupName.ne_nil s.group)]
      rfl
  rw [start, hlabel, (found_length ch).2.2]

theorem length_start_le (ch : ClientHello) : (start ch).length ≤ 89 := by
  have hcipher : " | Cipher[0]=".toList.length = 13 := by decide
  obtain ⟨hlabel, hlt, -⟩ := found_length ch
  have hshare := length_keyShareText_le (length_orDefault_lt hlabel) hlt
  have hname : ch.firstCipher.length ≤ 28 := length_tlsCipherName_le _
  rw [← start_eq, List.length_append, List.length_append, hcipher]
  omega

section Detail

variable (lib : X509Lib) (tls : TlsMetadata) {ch : ClientHello} {schemes versions groups : List ℕ}
  (hs : .signatureAlgorithms schemes ∈ ch.extensions)
  (hv : .supportedVersions versions ∈ ch.extensions) (hg : .supportedGroups groups ∈ ch.extensions)
include hs hv hg

/-- **What is recorded**: the length of a list of schemes or groups stands before its first
entry. -/
theorem clientHello_detail : (packetLogProcessHandshakeMessage lib tls 1 ch.body 1).detail =
    some (detailOf ch (2 * schemes.length :: schemes) versions (2 * groups.length :: groups)) := by
  have hversions : versions ≠ [] := (ch.wellFormed _ hv).1
  have hne : ∀ {name m limit ns}, Namer name m → 0 < limit → ns ≠ [] →
      join (listed name limit ns) ≠ [] := by
    intro name m limit ns hname h0 hns
    refine join_ne_nil (listed_ne_nil h0 hns) fun t ht => ?_
    rcases List.mem_append.mp ht with ht | ht
    · obtain ⟨n, -, rfl⟩ := List.mem_map.mp ht
      exact hname.ne_nil n
    · split at ht
      · rw [List.mem_singleton.mp ht]
        decide
      · exact absurd ht List.not_mem_nil
  have hsig := hne namer_tlsSigalgName (by decide : 0 < 5)
    (List.cons_ne_nil (2 * schemes.length) schemes)
  have hparse : parseHandshakeMessage lib 1 ch.body = _ := ch.packetLogParseClientHello_body
  rw [packetLogProcessHandshakeMessage, hparse]
  simp only [packetLogRecordMetadata, Function.update_self, clientHelloTexts, Option.map_some,
    Option.some_or]
  rw [found_sigalgsBuf hs, found_versionsBuf hv, found_groupsBuf hg, start_eq, orDefault,
    if_neg hsig, detailOf, appendList_appendList (length_start_le ch)
      (length_join_listed_le namer_tlsSigalgName _) (length_join_listed_le namer_tlsVersionName _)
      (length_join_listed_le namer_formatGroupName _)
      (hne namer_tlsVersionName (by decide) hversions)
      (hne namer_formatGroupName (by decide) (List.cons_ne_nil _ _))]

end Detail

/-- The list has more than five entries, and the first five have the name of the code point that is
the length of the list in bytes. -/
def LooksAlike (name : ℕ → Text) (ns : List ℕ) : Prop :=
  5 < ns.length ∧ ∀ n ∈ ns.take 5, name n = name (2 * ns.length)

instance (name : ℕ → Text) (ns : List ℕ) : Decidable (LooksAlike name ns) :=
  inferInstanceAs (Decidable (_ ∧ _))

theorem join_listed_inj {m limit : ℕ} (hname : Namer name m) (h0 : 0 < limit) {a b : List ℕ}
    (ha : a ≠ []) (hb : b ≠ []) (h : join (listed name limit a) = join (listed name limit b)) :
    listed name limit a = listed name limit b :=
  intercalate_inj (o := ',') (listed_ne_nil h0 ha) (listed_ne_nil h0 hb)
    (fun _ ht hm => (mem_listed hname ht _ hm).1 rfl)
    (fun _ ht hm => (mem_listed hname ht _ hm).1 rfl) h

theorem withLists_inj {start a b versions c d : Text} (ha : ']' ∉ a) (hb : ']' ∉ b)
    (h : withLists start a versions c = withLists start b versions d) : a = b ∧ c = d := by
  have hmid : "] | Versions=[".toList = ']' :: " | Versions=[".toList := by decide
  simp only [withLists, hmid, List.cons_append] at h
  obtain ⟨hab, hrest⟩ := cut_eq ha hb (List.append_cancel_left (List.append_cancel_left h))
  refine ⟨hab, ?_⟩
  have hcd := List.append_cancel_left (List.append_cancel_left (List.append_cancel_left hrest))
  exact List.append_cancel_right hcd

/-- **When the detail shows the lists of the ClientHello.** -/
theorem clientHello_detail_iff (lib : X509Lib) (tls : TlsMetadata) {ch : ClientHello}
    {schemes versions groups : List ℕ} (hs : .signatureAlgorithms schemes ∈ ch.extensions)
    (hv : .supportedVersions versions ∈ ch.extensions)
    (hg : .supportedGroups groups ∈ ch.extensions) :
    (packetLogProcessHandshakeMessage lib tls 1 ch.body 1).detail =
        some (detailOf ch schemes versions groups) ↔
      LooksAlike (tlsSigalgName · 32) schemes ∧ LooksAlike (formatGroupName · 32) groups := by
  have hschemes : schemes ≠ [] := (ch.wellFormed _ hs).1
  have hgroups : groups ≠ [] := (ch.wellFormed _ hg).1
  have hunnoticed : ∀ (name : ℕ → Text) {ns : List ℕ}, ns ≠ [] →
      (listed name 5 (2 * ns.length :: ns) = listed name 5 ns ↔ LooksAlike name ns) :=
    fun _ _ hne => listed_cons_eq_iff (by decide) _ hne
  rw [clientHello_detail lib tls hs hv hg, Option.some.injEq, ← hunnoticed _ hschemes,
    ← hunnoticed _ hgroups, detailOf, detailOf]
  constructor
  · intro h
    obtain ⟨hs, hg⟩ := withLists_inj (bracket_not_mem_join namer_tlsSigalgName _)
      (bracket_not_mem_join namer_tlsSigalgName _) h
    exact ⟨join_listed_inj namer_tlsSigalgName (by decide) (List.cons_ne_nil _ _) hschemes hs,
      join_listed_inj namer_formatGroupName (by decide) (List.cons_ne_nil _ _) hgroups hg⟩
  · rintro ⟨hs, hg⟩
    rw [hs, hg]

/-- A ClientHello with one group, two signature schemes and TLS 1.3. -/
def usualHello : ClientHello where
  legacyVersion := [3, 3]
  random := List.replicate 32 0
  sessionId := []
  cipherSuites := [0x13, 0x01]
  compressionMethods := [0]
  extensions := [.supportedGroups [0x001D], .signatureAlgorithms [0x0403, 0x0804],
    .supportedVersions [0x0304], .keyShare [⟨0x001D, List.replicate 32 7, by decide, by decide⟩]]
  version_len := by decide
  random_len := by decide
  session_lt := by decide
  ciphers_lt := by decide
  compression_lt := by decide
  wellFormed := by simp [ClientExt.WellFormed, KeyShareEntry.encode]
  distinct := by decide
  extensions_lt := by decide

theorem clientHello_detail_iff_usual :
    (packetLogProcessHandshakeMessage noX509 noMetadata 1 usualHello.body 1).detail =
        some (detailOf usualHello [0x0403, 0x0804] [0x0304] [0x001D]) ↔
      LooksAlike (tlsSigalgName · 32) [0x0403, 0x0804] ∧
        LooksAlike (formatGroupName · 32) [0x001D] :=
  clientHello_detail_iff noX509 noMetadata (by simp [usualHello]) (by simp [usualHello])
    (by simp [usualHello])

/-- The lengths 4 and 2 are printed as a scheme and as a group. -/
theorem clientHello_detail_lengths :
    (packetLogProcessHandshakeMessage noX509 noMetadata 1 usualHello.body 1).detail ≠
        some (detailOf usualHello [0x0403, 0x0804] [0x0304] [0x001D]) ∧
      (packetLogProcessHandshakeMessage noX509 noMetadata 1 usualHello.body 1).detail =
        some ("KeyShare=x25519(32B) | Cipher[0]=TLS_AES_128_GCM_SHA256 | ".toList ++
          "SigAlgs=[0x0004, ECDSA_secp256r1_SHA256, RSA_PSS_RSAE_SHA256] | ".toList ++
          "Versions=[TLS1.3] | Groups=[0x0002, x25519]".toList) ∧
      detailOf usualHello [0x0403, 0x0804] [0x0304] [0x001D] =
        "KeyShare=x25519(32B) | Cipher[0]=TLS_AES_128_GCM_SHA256 | ".toList ++
          "SigAlgs=[ECDSA_secp256r1_SHA256, RSA_PSS_RSAE_SHA256] | ".toList ++
          "Versions=[TLS1.3] | Groups=[x25519]".toList := by
  decide +kernel

end PapQuic.Tls.HelloDetail
