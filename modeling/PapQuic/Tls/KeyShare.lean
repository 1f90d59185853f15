import PapQuic.Tls.Hello
import PapQuic.Lib.Run

/-! # The length of the key share

`s_client` and the packet log both read the length of the key share from the hello messages, each
with a parser of its own: `parse_ch_keyshare_len` and `parse_sh_keyshare_len` of `apps/s_client.c`
on the whole message, `packet_log_parse_client_hello` and `packet_log_parse_server_hello` of
`ssl/quic/quic_debug.c` on its body. On every well-formed hello they agree with each other and with
the message (`keyshareLen_agree`). -/

namespace PapQuic.Tls.KeyShare

open Lib.Printf Lib.Run Wire.Packet Wire.Vlint Log.Names Log.Metadata Log.Stream Tls.Hello

/-! ### The parsers of `s_client` -/

/-- `get_u8`. -/
def getU8 : Bytes → Option (ℕ × Bytes)
  | a :: q => some (a.toNat, q)
  | _ => none

/-- `get_u16`. -/
def getU16 : Bytes → Option (ℕ × Bytes)
  | a :: b :: q => some (a.toNat <<< 8 ||| b.toNat, q)
  | _ => none

/-- `get_u24`. -/
def getU24 : Bytes → Option (ℕ × Bytes)
  | a :: b :: c :: q => some (a.toNat <<< 16 ||| b.toNat <<< 8 ||| c.toNat, q)
  | _ => none

/-- `skip_bytes`. -/
def skipBytes (q : Bytes) (n : ℕ) : Option Bytes := if q.length < n then none else some (q.drop n)

/-- The key share of a ClientHello: the length of the first entry. -/
def chShare (e : Bytes) : Option ℕ := do
  let (listLen, e) ← getU16 e
  if e.length < listLen then none
  else
    let (_, e) ← getU16 e
    let (keylen, _) ← getU16 e
    return keylen

/-- The key share of a ServerHello. -/
def shShare (e : Bytes) : Option ℕ := do
  let (_, e) ← getU16 e
  let (keylen, _) ← getU16 e
  return keylen

/-- The extensions loop: the first key share decides. An extension takes four bytes or more of
`extTotal`; as many bytes are left, so that the pattern always matches. -/
def extLoop (share : Bytes → Option ℕ) : ℕ → Bytes → ℕ → Option ℕ
  | 0, _, _ => none
  | n + 1, q, extTotal =>
    if extTotal < 4 then none
    else
      match q with
      | a :: b :: c :: d :: q =>
        let extType := a.toNat <<< 8 ||| b.toNat
        let extLen := c.toNat <<< 8 ||| d.toNat
        if extLen > extTotal - 4 then none
        else if extType = 0x0033 then share (q.take extLen)
        else extLoop share n (q.drop extLen) (extTotal - 4 - extLen)
      | _ => none

/-- The bytes of the extensions. -/
def extsOf (share : Bytes → Option ℕ) (q : Bytes) : Option ℕ := do
  let (extTotal, q) ← getU16 q
  if q.length < extTotal then none else extLoop share (extTotal + 1) q extTotal

/-- The handshake header and the fields up to the session id. -/
def helloStart (hsType : UInt8) (p : Bytes) : Option Bytes :=
  if p.length < 4 then none
  else if p.head? ≠ some hsType then none
  else do
    let (hsLen, q) ← getU24 (p.drop 1)
    if q.length < hsLen then none
    else
      let q ← skipBytes q 2
      let q ← skipBytes q 32
      let (u, q) ← getU8 q
      skipBytes q u

/-- `parse_ch_keyshare_len`. -/
def parseChKeyshareLen (p : Bytes) : ℕ :=
  (do
    let q ← helloStart 1 p
    let (u, q) ← getU16 q
    let q ← skipBytes q u
    let (u, q) ← getU8 q
    let q ← skipBytes q u
    extsOf chShare q : Option ℕ).getD 0

/-- `parse_sh_keyshare_len`. -/
def parseShKeyshareLen (p : Bytes) : ℕ :=
  (do
    let q ← helloStart 2 p
    let q ← skipBytes q 2
    let q ← skipBytes q 1
    extsOf shShare q : Option ℕ).getD 0

/-! ### What they read in an encoding -/

theorem getU16_u16 {n : ℕ} (h : n < 2 ^ 16) (rest : Bytes) :
    getU16 (u16 n ++ rest) = some (n, rest) := by
  have hnet : netOrder (u16 n) = n := netOrder_u16 h
  simpa [getU16, u16, netOrder] using hnet

theorem getU8_vec1 {b : Bytes} (h : b.length < 2 ^ 8) (rest : Bytes) :
    getU8 (vec1 b ++ rest) = some (b.length, b ++ rest) := by
  have hlen : (UInt8.ofNat b.length).toNat = b.length := by
    rw [toNat_ofNat_mod]
    omega
  simp [getU8, vec1, hlen]

theorem skipBytes_append {b : Bytes} {n : ℕ} (h : b.length = n) (rest : Bytes) :
    skipBytes (b ++ rest) n = some rest := by
  subst h
  simp [skipBytes]

theorem getU24_header (m : HsMessage) (rest : Bytes) :
    getU24 ((m.header ++ rest).drop 1) = some (m.body.length, rest) := by
  have hnet := netOrder_length m
  simpa [getU24, HsMessage.header, netOrder, Nat.shiftLeft_or_distrib, ← Nat.shiftLeft_add]
    using hnet

/-- What is left of a hello after the session id. -/
theorem helloStart_encode (m : HsMessage) {v r sid rest : Bytes}
    (h : m.body = (v ++ r) ++ (vec1 sid ++ rest)) (hv : v.length = 2) (hr : r.length = 32)
    (hs : sid.length < 2 ^ 8) : helloStart m.hsType m.encode = some rest := by
  have hhead : m.encode.head? = some m.hsType := rfl
  have hlen : ¬ m.encode.length < 4 := by
    rw [HsMessage.encode, List.length_append, length_header]
    omega
  rw [helloStart, if_neg hlen, if_neg (not_not.mpr hhead), HsMessage.encode, getU24_header]
  simp only [Option.bind_eq_bind, Option.bind_some, lt_irrefl, if_false]
  rw [h, List.append_assoc, skipBytes_append hv, Option.bind_some, skipBytes_append hr,
    Option.bind_some, getU8_vec1 hs, Option.bind_some]
  exact skipBytes_append rfl rest

/-- The loop looks up the extension 51. -/
theorem extLoop_encodeExts (share : Bytes → Option ℕ) {exts : List Extension} {n : ℕ}
    (h : ∀ e ∈ exts, Fits e) (hn : exts.length < n) :
    extLoop share n (encodeExts exts) (encodeExts exts).length =
      (exts.find? (·.1 = 51)).bind fun e => share e.2 := by
  induction exts generalizing n with
  | nil =>
    obtain _ | n := n
    · omega
    · rfl
  | cons e exts ih =>
    obtain _ | n := n
    · omega
    obtain ⟨he, h⟩ := List.forall_mem_cons.mp h
    have htype : netOrder (u16 e.1) = e.1 := netOrder_u16 he.1
    have hlen : netOrder (u16 e.2.length) = e.2.length := netOrder_u16 he.2
    simp only [netOrder, u16, List.foldl_cons, List.foldl_nil, Nat.zero_shiftLeft,
      Nat.zero_or] at htype hlen
    have hcons : encodeExts (e :: exts) = UInt8.ofNat (e.1 / 256) :: UInt8.ofNat e.1 ::
        UInt8.ofNat (e.2.length / 256) :: UInt8.ofNat e.2.length :: (e.2 ++ encodeExts exts) := by
      rw [encodeExts_cons]
      rfl
    have htotal : (encodeExts (e :: exts)).length = e.2.length + (encodeExts exts).length + 4 := by
      rw [hcons]
      simp only [List.length_cons, List.length_append]
    rw [htotal, hcons, extLoop, if_neg (by omega)]
    simp only [htype, hlen]
    rw [if_neg (by omega)]
    by_cases h51 : e.1 = 51
    · rw [if_pos h51, List.find?_cons_of_pos (by simpa using h51), List.take_left]
      rfl
    · rw [if_neg h51, List.find?_cons_of_neg (by simpa using h51), List.drop_left,
        ← ih h (by simpa using hn)]
      congr 1
      omega

theorem extsOf_encodeExts (share : Bytes → Option ℕ) {exts : List Extension}
    (h : ∀ e ∈ exts, Fits e) (hlt : (encodeExts exts).length < 2 ^ 16) :
    extsOf share (vec2 (encodeExts exts)) =
      (exts.find? (·.1 = 51)).bind fun e => share e.2 := by
  have hlen := length_le_encodeExts exts
  rw [extsOf, vec2, getU16_u16 hlt]
  simp only [Option.bind_eq_bind, Option.bind_some, lt_irrefl, if_false]
  exact extLoop_encodeExts share h (by omega)

/-! ### ClientHello -/

/-- The first share of a list, as the log reads it. -/
theorem firstKeyShare_vec2 {shares : List KeyShareEntry}
    (h : (vec2 (shares.flatMap KeyShareEntry.encode)).length < 2 ^ 16) :
    firstKeyShare (vec2 (shares.flatMap KeyShareEntry.encode)) =
      shares.head?.map fun s => (s.group, s.keyExchange.length) := by
  have hlt : (shares.flatMap KeyShareEntry.encode).length < 2 ^ 16 := by
    rw [length_vec2] at h
    omega
  have hread := packetGetLengthPrefixed2_vec2 hlt []
  rw [List.append_nil] at hread
  rw [firstKeyShare, hread]
  cases shares with
  | nil => rfl
  | cons s shares =>
    simp only [List.flatMap_cons, KeyShareEntry.encode, List.append_assoc, Option.bind_eq_bind,
      Option.bind_some, packetGetNet2_u16 s.group_lt, packetGetLengthPrefixed2_vec2 s.key_lt]
    rfl

/-- The first share of a list, as `s_client` reads it. -/
theorem chShare_vec2 {shares : List KeyShareEntry}
    (h : (vec2 (shares.flatMap KeyShareEntry.encode)).length < 2 ^ 16) :
    chShare (vec2 (shares.flatMap KeyShareEntry.encode)) =
      shares.head?.map fun s => s.keyExchange.length := by
  have hlt : (shares.flatMap KeyShareEntry.encode).length < 2 ^ 16 := by
    rw [length_vec2] at h
    omega
  rw [chShare, vec2, getU16_u16 hlt]
  simp only [Option.bind_eq_bind, Option.bind_some, lt_irrefl, if_false]
  cases shares with
  | nil => rfl
  | cons s shares =>
    simp only [List.flatMap_cons, KeyShareEntry.encode, vec2, List.append_assoc,
      getU16_u16 s.group_lt, getU16_u16 s.key_lt, Option.bind_some]
    rfl

/-- Of extensions with distinct types at most one has a given type. -/
theorem pairwise_extType {α : Type*} {extType : α → ℕ} {exts : List α}
    (h : (exts.map extType).Nodup) (t : ℕ) :
    exts.Pairwise fun a b => decide (extType a = t) = true → decide (extType b = t) = false := by
  refine (List.pairwise_map.mp h).imp fun {a b} hab => ?_
  simp only [decide_eq_true_eq, decide_eq_false_iff_not]
  intro ha hb
  exact hab (ha.trans hb.symm)

/-- A lookup that only an element with the property can answer, when at most one element has it. -/
theorem findSome?_eq_bind_find? {α β : Type*} {f : α → Option β} {p : α → Bool} {l : List α}
    (hf : ∀ a, p a = false → f a = none) (h : l.Pairwise fun a b => p a = true → p b = false) :
    l.findSome? f = (l.find? p).bind f := by
  induction l with
  | nil => rfl
  | cons a l ih =>
    obtain ⟨ha, h⟩ := List.pairwise_cons.mp h
    rcases hp : p a with _ | _
    · rw [List.find?_cons_of_neg (by simp [hp]), ← ih h, List.findSome?_cons, hf a hp]
    · have hnone : l.findSome? f = none :=
        List.findSome?_eq_none_iff.mpr fun b hb => hf b (ha b hb hp)
      rw [List.find?_cons_of_pos hp, List.findSome?_cons, hnone]
      cases hfa : f a <;> simp [hfa]

section ClientHello

variable (ch : ClientHello)

/-- The key share extension, if there is one. -/
theorem find_keyShare : ch.extensions.find? (·.extType = 51) = none ∨
    ∃ shares, ch.extensions.find? (·.extType = 51) = some (.keyShare shares) ∧
      (vec2 (shares.flatMap KeyShareEntry.encode)).length < 2 ^ 16 := by
  rcases hfind : ch.extensions.find? (·.extType = 51) with _ | e
  · exact Or.inl hfind
  have hwf : e.WellFormed := ch.wellFormed e (List.mem_of_find?_eq_some hfind)
  have h51 : e.extType = 51 := by simpa using List.find?_some hfind
  cases e with
  | keyShare shares => exact Or.inr ⟨shares, hfind, hwf⟩
  | signatureAlgorithms ns | supportedGroups ns | supportedVersions ns =>
    simp [ClientExt.extType] at h51
  | other t d =>
    obtain rfl : t = 51 := h51
    exact absurd hwf.1 (by simp)

theorem find_ext (t : ℕ) : (ch.extensions.map ClientExt.ext).find? (·.1 = t) =
    (ch.extensions.find? (·.extType = t)).map ClientExt.ext := by
  rw [List.find?_map]
  rfl

/-- The first entry of the key share. -/
def firstShare : Option KeyShareEntry :=
  (ch.extensions.find? (·.extType = 51)).bind fun
    | .keyShare shares => shares.head?
    | _ => none

theorem keyshareLen_eq :
    ch.keyshareLen = ((firstShare ch).map fun s => s.keyExchange.length).getD 0 := by
  rw [ClientHello.keyshareLen, findSome?_eq_bind_find? ?_ (pairwise_extType ch.distinct 51)]
  swap
  · intro e he
    cases e with
    | keyShare shares => simp [ClientExt.extType] at he
    | signatureAlgorithms | supportedGroups | supportedVersions | other => rfl
  rcases find_keyShare ch with h | ⟨shares, h, -⟩
  · rw [firstShare, h]
    rfl
  · rw [firstShare, h]
    cases shares <;> rfl

theorem found_keyShare : (ch.found.keyshareLabel, ch.found.keyshareLen) =
    ((firstShare ch).map fun s => (formatGroupName s.group 32, s.keyExchange.length)).getD
      ([], 0) := by
  have hdistinct : (ch.extensions.map ClientExt.ext).Pairwise fun a b =>
      decide (a.1 = 51) = true → decide (b.1 = 51) = false := by
    refine pairwise_extType ?_ 51
    rw [List.map_map]
    exact ch.distinct
  refine (run_once (fun s : ClientHelloExts => (s.keyshareLabel, s.keyshareLen))
    (fun x e => ((firstKeyShare e.2).map fun y => (formatGroupName y.1 32, y.2)).getD x)
    ?_ ?_ {} hdistinct).trans ?_
  · rintro s ⟨t, d⟩ he
    obtain rfl : t = 51 := by simpa using he
    simp only [clientHelloExt]
    cases firstKeyShare d <;> rfl
  · rintro s ⟨t, d⟩ he
    have hne : t ≠ 51 := by simpa using he
    simp only [clientHelloExt]
    split
    · exact absurd rfl hne
    · rfl
    · rfl
    · split <;> rfl
    · rfl
  · rw [find_ext]
    rcases find_keyShare ch with h | ⟨shares, h, hlt⟩
    · rw [firstShare, h]
      rfl
    · rw [firstShare, h]
      simp only [Option.map_some, Option.elim_some, Option.bind_some, ClientExt.ext, ClientExt.data,
        firstKeyShare_vec2 hlt]
      cases shares <;> rfl

theorem parseChKeyshareLen_encode : parseChKeyshareLen ch.message.encode = ch.keyshareLen := by
  have hfits : ∀ e ∈ ch.extensions.map ClientExt.ext, Fits e :=
    List.forall_mem_map.mpr fun e he => ClientExt.fits (ch.wellFormed e he)
  have hstart : helloStart 1 ch.message.encode = some _ :=
    helloStart_encode ch.message rfl ch.version_len ch.random_len ch.session_lt
  rw [parseChKeyshareLen, hstart]
  simp only [Option.bind_eq_bind, Option.bind_some]
  rw [vec2, List.append_assoc, getU16_u16 ch.ciphers_lt, Option.bind_some, skipBytes_append rfl,
    Option.bind_some, getU8_vec1 ch.compression_lt, Option.bind_some, skipBytes_append rfl,
    Option.bind_some, extsOf_encodeExts chShare hfits ch.extensions_lt, find_ext, keyshareLen_eq]
  rcases find_keyShare ch with h | ⟨shares, h, hlt⟩
  · rw [firstShare, h]
    rfl
  · rw [firstShare, h]
    simp only [Option.map_some, Option.bind_some, ClientExt.ext, ClientExt.data, chShare_vec2 hlt]

end ClientHello

/-! ### ServerHello -/

section ServerHello

variable (sh : ServerHello)

/-- The share of a ServerHello, or the group of a HelloRetryRequest. -/
theorem find_serverShare : sh.extensions.find? (·.extType = 51) = none ∨
    (∃ share, sh.extensions.find? (·.extType = 51) = some (.keyShare share)) ∨
    ∃ group, sh.extensions.find? (·.extType = 51) = some (.selectedGroup group) ∧
      group < 2 ^ 16 := by
  rcases hfind : sh.extensions.find? (·.extType = 51) with _ | e
  · exact Or.inl hfind
  have hwf : e.WellFormed := sh.wellFormed e (List.mem_of_find?_eq_some hfind)
  have h51 : e.extType = 51 := by simpa using List.find?_some hfind
  cases e with
  | keyShare share => exact Or.inr (Or.inl ⟨share, hfind⟩)
  | selectedGroup group => exact Or.inr (Or.inr ⟨group, hfind, hwf⟩)
  | other t d => exact absurd h51 hwf.1

theorem shShare_encode (s : KeyShareEntry) : shShare s.encode = some s.keyExchange.length := by
  rw [shShare, KeyShareEntry.encode, vec2, getU16_u16 s.group_lt]
  simp only [Option.bind_eq_bind, Option.bind_some, getU16_u16 s.key_lt]
  rfl

theorem shShare_u16 {group : ℕ} (h : group < 2 ^ 16) : shShare (u16 group) = none := by
  have hread := getU16_u16 h []
  rw [List.append_nil] at hread
  rw [shShare, hread]
  rfl

theorem server_keyshareLen_eq : sh.keyshareLen =
    ((sh.extensions.find? (·.extType = 51)).bind fun e => shShare e.data).getD 0 := by
  rw [ServerHello.keyshareLen, findSome?_eq_bind_find? ?_ (pairwise_extType sh.distinct 51)]
  swap
  · intro e he
    cases e with
    | keyShare shares => simp [ServerExt.extType] at he
    | selectedGroup | other => rfl
  rcases find_serverShare sh with h | ⟨share, h⟩ | ⟨group, h, hlt⟩
  · rw [h]
    rfl
  · rw [h]
    simp only [Option.bind_some, ServerExt.data, shShare_encode]
  · rw [h]
    simp only [Option.bind_some, ServerExt.data, shShare_u16 hlt]

theorem parseShKeyshareLen_encode : parseShKeyshareLen sh.message.encode = sh.keyshareLen := by
  have hfits : ∀ e ∈ sh.extensions.map ServerExt.ext, Fits e :=
    List.forall_mem_map.mpr fun e he => ServerExt.fits (sh.wellFormed e he)
  have hstart : helloStart 2 sh.message.encode = some _ :=
    helloStart_encode sh.message rfl sh.version_len sh.random_len sh.session_lt
  rw [parseShKeyshareLen, hstart]
  simp only [Option.bind_eq_bind, Option.bind_some]
  rw [skipBytes_append (length_u16 _), Option.bind_some, skipBytes_append List.length_singleton,
    Option.bind_some, extsOf_encodeExts shShare hfits sh.extensions_lt, server_keyshareLen_eq,
    List.find?_map, Option.bind_map]
  rfl

/-- Label and length that the log takes from an extension. -/
def serverShare : ServerExt → Text × ℕ
  | .keyShare share => (formatGroupName share.group 32, share.keyExchange.length)
  | .selectedGroup group => (formatGroupName group 32, 0)
  | .other _ _ => ([], 0)

/-- The loop looks up the extension 51. -/
theorem serverHelloExtLoop_encodeExts {exts : List ServerExt} (hwf : ∀ e ∈ exts, e.WellFormed)
    (h : exts.Pairwise fun a b => decide (a.extType = 51) = true → decide (b.extType = 51) = false)
    {n : ℕ} (hn : exts.length ≤ n) (x : Text × ℕ) :
    serverHelloExtLoop n (encodeExts (exts.map ServerExt.ext)) x =
      some ((exts.find? (·.extType = 51)).elim x serverShare) := by
  induction exts generalizing n x with
  | nil => cases n <;> rfl
  | cons e exts ih =>
    obtain _ | n := n
    · simp at hn
    obtain ⟨he, hwf⟩ := List.forall_mem_cons.mp hwf
    obtain ⟨hlater, h⟩ := List.pairwise_cons.mp h
    have hne : encodeExts (e.ext :: exts.map ServerExt.ext) = [] → False := by
      rw [encodeExts_cons]
      exact List.cons_ne_nil _ _
    have ih := ih hwf h (Nat.le_of_succ_le_succ hn)
    have hnone : e.extType = 51 → exts.find? (·.extType = 51) = none := fun h51 =>
      List.find?_eq_none.mpr fun b hb => by simp [hlater b hb (by simp [h51])]
    rw [List.map_cons, serverHelloExtLoop, nextExt_encodeExts (ServerExt.fits he)]
    swap
    · exact hne
    simp only [Option.bind_eq_bind, Option.bind_some]
    cases e with
    | keyShare share =>
      have hkey := packetGetLengthPrefixed2_vec2 share.key_lt []
      rw [List.append_nil] at hkey
      rw [if_pos (show (ServerExt.keyShare share).ext.1 = 51 from rfl), List.find?_cons_of_pos rfl]
      simp only [ServerExt.ext, ServerExt.data, KeyShareEntry.encode,
        packetGetNet2_u16 share.group_lt]
      obtain ⟨d, data, hdata⟩ : ∃ d data, vec2 share.keyExchange = d :: data := ⟨_, _, rfl⟩
      rw [hdata] at hkey ⊢
      simp only [hkey]
      rfl
    | selectedGroup group =>
      have hread := packetGetNet2_u16 (show group < 2 ^ 16 from he) []
      rw [List.append_nil] at hread
      rw [if_pos (show (ServerExt.selectedGroup group).ext.1 = 51 from rfl),
        List.find?_cons_of_pos rfl]
      simp only [ServerExt.ext, ServerExt.data, hread]
      rw [ih, hnone rfl]
      rfl
    | other t d =>
      have ht : (ServerExt.other t d).extType ≠ 51 := he.1
      rw [if_neg (show ¬ (ServerExt.other t d).ext.1 = 51 from ht), ih,
        List.find?_cons_of_neg (by rw [decide_eq_true_eq]; exact ht)]

/-- The texts of a ServerHello. -/
theorem packetLogParseServerHello_body : packetLogParseServerHello sh.body =
    (let (label, keyshareLen) :=
      (sh.extensions.find? (·.extType = 51)).elim ([], 0) serverShare
    let label := orDefault label "UNKNOWN"
    let share := keyShareText label keyshareLen
    let cipher := tlsCipherName sh.cipherSuite
    some ⟨some label, some (snprintf 256 (share ++ " | Cipher=".toList ++ cipher)),
      some (snprintf 256 (share ++ " , Cipher=".toList ++ cipher))⟩) := by
  have hbody := sh.body_lt
  have hstart : (sh.legacyVersion ++ sh.random).length = 2 + 32 := by
    rw [List.length_append, sh.version_len, sh.random_len]
  have hlen : sh.extensions.length ≤ (encodeExts (sh.extensions.map ServerExt.ext)).length := by
    have h := length_le_encodeExts (sh.extensions.map ServerExt.ext)
    rwa [List.length_map] at h
  have hloop := serverHelloExtLoop_encodeExts sh.wellFormed (pairwise_extType sh.distinct 51) hlen
    ([], 0)
  have hexts := packetGetLengthPrefixed2_vec2 sh.extensions_lt []
  have hcompression : ∀ rest, packetForward ([sh.compressionMethod] ++ rest) 1 = some rest :=
    packetForward_append [sh.compressionMethod]
  rw [List.append_nil] at hexts
  rw [packetLogParseServerHello, packetBufInit, if_neg (by simp only [sizeMax]; omega),
    ServerHello.body, ← hstart]
  simp only [Option.bind_eq_bind, Option.bind_some, packetForward_append,
    packetGetLengthPrefixed1_vec1 sh.session_lt, packetGetNet2_u16 sh.cipher_lt,
    hcompression, hexts, hloop]
  rfl

end ServerHello

/-! ### The texts -/

/-- Both texts of the slot say that the key share is `len` bytes long. -/
def ShowsKeyshare (slot : TlsHandshakeMetadata) (len : ℕ) : Prop :=
  ∃ label detail note, slot = ⟨some label, some detail, some note⟩ ∧
    keyShareText label len <+: detail ∧ keyShareText label len <+: note

theorem length_formatGroupName_lt (group : ℕ) : (formatGroupName group 32).length < 32 := by
  unfold formatGroupName
  split <;> exact Nat.lt_of_le_of_lt (List.length_take_le _ _) (by decide)

theorem length_orDefault_lt {label : Text} (h : label.length < 32) :
    (orDefault label "UNKNOWN").length < 32 := by
  unfold orDefault
  split
  · decide
  · exact h

theorem length_keyShareText_le {label : Text} {len : ℕ} (h : label.length < 32)
    (hlen : len < 2 ^ 16) : (keyShareText label len).length ≤ 48 := by
  have hbound : len < 10 ^ 5 := hlen.trans (by decide)
  have hdec := length_dec_le (by decide) hbound
  have hopen : "KeyShare=".toList.length = 9 := by decide
  have hparen : "(".toList.length = 1 := by decide
  have hclose : "B)".toList.length = 2 := by decide
  unfold keyShareText
  rw [List.length_append, List.length_append, List.length_append, List.length_append, hopen, hparen,
    hclose]
  omega

theorem prefix_appendList {s detail : Text} (h : s <+: detail) (opening : String) (buf : Text) :
    s <+: appendList detail opening buf := by
  unfold appendList
  split
  · exact h
  · exact prefix_strlcat (prefix_strlcat (prefix_strlcat h _ _) _ _) _ _

/-- What is recorded shows what the parser has written. -/
theorem showsKeyshare_record {lib : X509Lib} {tls : TlsMetadata} {hsType : UInt8} {body : Bytes}
    {label detail note : Text} {len : ℕ}
    (hparse : parseHandshakeMessage lib hsType body = some ⟨some label, some detail, some note⟩)
    (hlabel : label.length < 32) (hlen : len < 2 ^ 16) (hdetail : keyShareText label len <+: detail)
    (hnote : keyShareText label len <+: note) :
    ShowsKeyshare (packetLogProcessHandshakeMessage lib tls hsType body hsType) len := by
  have hshort := length_keyShareText_le hlabel hlen
  have hcopy : strlcpy 64 label = label := List.take_of_length_le (by omega)
  refine ⟨label, strlcpy 512 detail, strlcpy 256 note, ?_, ?_, ?_⟩
  · simp only [packetLogProcessHandshakeMessage, hparse, packetLogRecordMetadata,
      Function.update_self, Option.map_some, Option.some_or, hcopy]
  · exact prefix_strlcpy hdetail (by omega)
  · exact prefix_strlcpy hnote (by omega)

theorem found_length (ch : ClientHello) : ch.found.keyshareLabel.length < 32 ∧
    ch.found.keyshareLen < 2 ^ 16 ∧ ch.found.keyshareLen = ch.keyshareLen := by
  have hfound := found_keyShare ch
  rw [keyshareLen_eq]
  cases h : firstShare ch with
  | none =>
    rw [h] at hfound
    obtain ⟨hlabel, hlen⟩ : ch.found.keyshareLabel = [] ∧ ch.found.keyshareLen = 0 :=
      Prod.ext_iff.mp hfound
    rw [hlabel, hlen]
    exact ⟨by decide, by decide, rfl⟩
  | some s =>
    rw [h] at hfound
    obtain ⟨hlabel, hlen⟩ : ch.found.keyshareLabel = formatGroupName s.group 32 ∧
      ch.found.keyshareLen = s.keyExchange.length := Prod.ext_iff.mp hfound
    rw [hlabel, hlen]
    exact ⟨length_formatGroupName_lt _, s.key_lt, rfl⟩

theorem showsKeyshare_clientHello (lib : X509Lib) (tls : TlsMetadata) (ch : ClientHello) :
    ShowsKeyshare (packetLogProcessHandshakeMessage lib tls 1 ch.body 1) ch.keyshareLen := by
  obtain ⟨hlabel, hlt, hlen⟩ := found_length ch
  have hshort := length_keyShareText_le (length_orDefault_lt hlabel) hlt
  rw [← hlen]
  refine showsKeyshare_record ch.packetLogParseClientHello_body
    (length_orDefault_lt hlabel) hlt ?_ ?_
  · refine prefix_appendList (prefix_appendList (prefix_snprintf ?_ (by omega)) _ _) _ _
    simp only [List.append_assoc]
    exact List.prefix_append _ _
  · refine prefix_snprintf ?_ (by omega)
    simp only [List.append_assoc]
    exact List.prefix_append _ _

theorem serverShare_length {sh : ServerHello} {label : Text} {len : ℕ}
    (hx : (sh.extensions.find? (·.extType = 51)).elim ([], 0) serverShare = (label, len)) :
    label.length < 32 ∧ len < 2 ^ 16 ∧ len = sh.keyshareLen := by
  rw [server_keyshareLen_eq]
  rcases find_serverShare sh with h | ⟨share, h⟩ | ⟨group, h, hlt⟩
  · rw [h] at hx
    cases hx
    rw [h]
    exact ⟨by decide, by decide, rfl⟩
  · rw [h] at hx
    cases hx
    rw [h, Option.bind_some, ServerExt.data, shShare_encode]
    exact ⟨length_formatGroupName_lt _, share.key_lt, rfl⟩
  · rw [h] at hx
    cases hx
    rw [h, Option.bind_some, ServerExt.data, shShare_u16 hlt]
    exact ⟨length_formatGroupName_lt _, by decide, rfl⟩

theorem showsKeyshare_serverHello (lib : X509Lib) (tls : TlsMetadata) (sh : ServerHello) :
    ShowsKeyshare (packetLogProcessHandshakeMessage lib tls 2 sh.body 2) sh.keyshareLen := by
  have hparse := packetLogParseServerHello_body sh
  rcases hx : (sh.extensions.find? (·.extType = 51)).elim ([], 0) serverShare with ⟨label, len⟩
  obtain ⟨hlabel, hlt, hlen⟩ := serverShare_length hx
  rw [hx] at hparse
  have hshort := length_keyShareText_le (length_orDefault_lt hlabel) hlt
  rw [← hlen]
  refine showsKeyshare_record hparse (length_orDefault_lt hlabel) hlt ?_ ?_
  · refine prefix_snprintf ?_ (by omega)
    simp only [List.append_assoc]
    exact List.prefix_append _ _
  · refine prefix_snprintf ?_ (by omega)
    simp only [List.append_assoc]
    exact List.prefix_append _ _

/-- **`s_client` and the packet log read the same key share length**, the one of the message: the
length of the first share of a ClientHello and of the share of a ServerHello, 0 without one. -/
theorem keyshareLen_agree (lib : X509Lib) (tls : TlsMetadata) :
    (∀ ch : ClientHello, parseChKeyshareLen ch.message.encode = ch.keyshareLen ∧
      ShowsKeyshare (packetLogProcessHandshakeMessage lib tls 1 ch.body 1) ch.keyshareLen) ∧
    ∀ sh : ServerHello, parseShKeyshareLen sh.message.encode = sh.keyshareLen ∧
      ShowsKeyshare (packetLogProcessHandshakeMessage lib tls 2 sh.body 2) sh.keyshareLen :=
  ⟨fun ch => ⟨parseChKeyshareLen_encode ch, showsKeyshare_clientHello lib tls ch⟩,
    fun sh => ⟨parseShKeyshareLen_encode sh, showsKeyshare_serverHello lib tls sh⟩⟩

/-- A ServerHello with a share of the group secp256r1. -/
def secp256r1Hello : ServerHello where
  legacyVersion := [3, 3]
  random := List.replicate 32 9
  sessionId := []
  cipherSuite := 0x1301
  compressionMethod := 0
  extensions := [.other 43 [0x03, 0x04],
    .keyShare ⟨0x0017, List.replicate 65 4, by decide, by decide⟩]
  version_len := rfl
  random_len := rfl
  session_lt := Nat.two_pow_pos 8
  cipher_lt := by decide
  wellFormed := by simp [ServerExt.WellFormed, KeyShareEntry.encode]
  distinct := by decide
  extensions_lt := by decide

example : parseShKeyshareLen secp256r1Hello.message.encode = 65 ∧
    (packetLogProcessHandshakeMessage noX509 noMetadata 2 secp256r1Hello.body 2).label =
      some "secp256r1".toList := by
  decide +kernel

end PapQuic.Tls.KeyShare
