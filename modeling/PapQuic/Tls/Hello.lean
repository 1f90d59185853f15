import PapQuic.Log.Stream
import PapQuic.Lib.Run

/-! # ClientHello and ServerHello

The hello messages of TLS 1.3 with their wire format. Extensions come in any order, each type at
most once. Of a ClientHello the extensions that the packet log looks into are told apart; a
ServerHello has a key share, or the group that a HelloRetryRequest asks for, or none of the two. -/

namespace PapQuic.Tls.Hello

open Lib.Printf Lib.Run Wire.Packet Wire.Vlint Log.Names Log.Metadata Log.Stream

/-! ### Vectors -/

/-- A number in two bytes. -/
def u16 (n : ℕ) : Bytes := [UInt8.ofNat (n / 256), UInt8.ofNat n]

/-- A byte string with its length in one byte before it. -/
def vec1 (b : Bytes) : Bytes := UInt8.ofNat b.length :: b

/-- A byte string with its length in two bytes before it. -/
def vec2 (b : Bytes) : Bytes := u16 b.length ++ b

/-- Code points in two bytes each. -/
def points (ns : List ℕ) : Bytes := ns.flatMap u16

@[simp] theorem length_u16 (n : ℕ) : (u16 n).length = 2 := rfl

@[simp] theorem length_vec1 (b : Bytes) : (vec1 b).length = b.length + 1 := rfl

@[simp] theorem length_vec2 (b : Bytes) : (vec2 b).length = b.length + 2 := by
  simp [vec2, Nat.add_comm]

@[simp] theorem length_points (ns : List ℕ) : (points ns).length = 2 * ns.length := by
  induction ns with
  | nil => rfl
  | cons n ns ih =>
    rw [points, List.flatMap_cons, List.length_append, ← points, ih]
    simp only [length_u16, List.length_cons]
    omega

theorem netOrder_u16 {n : ℕ} (h : n < 2 ^ 16) : netOrder (u16 n) = n := by
  rw [netOrder, foldl_shift, u16]
  simp only [List.foldl_cons, List.foldl_nil, toNat_ofNat_mod]
  omega

theorem packetGetNet2_u16 {n : ℕ} (h : n < 2 ^ 16) (rest : Bytes) :
    packetGetNet2 (u16 n ++ rest) = some (n, rest) := by
  have htake : (u16 n ++ rest).take 2 = u16 n := rfl
  have hlen : (u16 n ++ rest).length = 2 + rest.length := List.length_append
  rw [packetGetNet2, packetGetNet, if_neg (by omega), htake, netOrder_u16 h]
  rfl

theorem packetGetLengthPrefixed1_vec1 {b : Bytes} (h : b.length < 2 ^ 8) (rest : Bytes) :
    packetGetLengthPrefixed1 (vec1 b ++ rest) = some (b, rest) := by
  have hlen : (UInt8.ofNat b.length).toNat = b.length := by
    rw [toNat_ofNat_mod]
    omega
  simp [packetGetLengthPrefixed1, vec1, packetGet1, hlen]

theorem packetGetLengthPrefixed2_vec2 {b : Bytes} (h : b.length < 2 ^ 16) (rest : Bytes) :
    packetGetLengthPrefixed2 (vec2 b ++ rest) = some (b, rest) := by
  rw [packetGetLengthPrefixed2, vec2, List.append_assoc, packetGetNet2_u16 h]
  exact packetGetBytes_append b rest

/-! ### Extensions -/

/-- The type and the data of an extension. -/
abbrev Extension := ℕ × Bytes

/-- Type and data fit their fields. -/
def Fits (e : Extension) : Prop := e.1 < 2 ^ 16 ∧ e.2.length < 2 ^ 16

def encodeExt (e : Extension) : Bytes := u16 e.1 ++ vec2 e.2

/-- The bytes of a block of extensions. -/
def encodeExts (exts : List Extension) : Bytes := exts.flatMap encodeExt

theorem encodeExts_cons (e : Extension) (exts : List Extension) :
    encodeExts (e :: exts) = u16 e.1 ++ (vec2 e.2 ++ encodeExts exts) := by
  rw [encodeExts, List.flatMap_cons, encodeExt, List.append_assoc]
  rfl

/-- The next extension of a block is its first one. -/
theorem nextExt_encodeExts {e : Extension} (h : Fits e) (exts : List Extension) :
    nextExt (encodeExts (e :: exts)) = some (e.1, e.2, encodeExts exts) := by
  rw [encodeExts_cons, nextExt, packetGetNet2_u16 h.1]
  simp only [Option.bind_eq_bind, Option.bind_some, packetGetLengthPrefixed2_vec2 h.2]
  rfl

theorem length_le_encodeExts (exts : List Extension) : exts.length ≤ (encodeExts exts).length := by
  induction exts with
  | nil => simp
  | cons e exts ih =>
    rw [encodeExts_cons]
    simp only [List.length_cons, List.length_append, length_u16, length_vec2]
    omega

/-- `KeyShareEntry`. -/
structure KeyShareEntry where
  group : ℕ
  keyExchange : Bytes
  group_lt : group < 2 ^ 16
  key_lt : keyExchange.length < 2 ^ 16

def KeyShareEntry.encode (s : KeyShareEntry) : Bytes := u16 s.group ++ vec2 s.keyExchange

/-! ### ClientHello -/

/-- An extension of a ClientHello. -/
inductive ClientExt
  | keyShare (shares : List KeyShareEntry)
  | signatureAlgorithms (schemes : List ℕ)
  | supportedGroups (groups : List ℕ)
  | supportedVersions (versions : List ℕ)
  | other (extType : ℕ) (data : Bytes)

namespace ClientExt

def extType : ClientExt → ℕ
  | keyShare _ => 51
  | signatureAlgorithms _ => 13
  | supportedGroups _ => 10
  | supportedVersions _ => 43
  | other t _ => t

def data : ClientExt → Bytes
  | keyShare shares => vec2 (shares.flatMap KeyShareEntry.encode)
  | signatureAlgorithms ns | supportedGroups ns => vec2 (points ns)
  | supportedVersions ns => vec1 (points ns)
  | other _ d => d

/-- A list of code points is not empty, and lengths fit their fields. -/
def WellFormed : ClientExt → Prop
  | keyShare shares => (vec2 (shares.flatMap KeyShareEntry.encode)).length < 2 ^ 16
  | signatureAlgorithms ns | supportedGroups ns =>
    ns ≠ [] ∧ (∀ n ∈ ns, n < 2 ^ 16) ∧ (vec2 (points ns)).length < 2 ^ 16
  | supportedVersions ns => ns ≠ [] ∧ (∀ n ∈ ns, n < 2 ^ 16) ∧ (points ns).length < 2 ^ 8
  | other t d => t ∉ [51, 13, 10, 43] ∧ t < 2 ^ 16 ∧ d.length < 2 ^ 16

def ext (e : ClientExt) : Extension := (e.extType, e.data)

theorem fits {e : ClientExt} (h : e.WellFormed) : Fits e.ext := by
  cases e with
  | keyShare shares => exact ⟨(by decide : 51 < 2 ^ 16), h⟩
  | signatureAlgorithms ns => exact ⟨(by decide : 13 < 2 ^ 16), h.2.2⟩
  | supportedGroups ns => exact ⟨(by decide : 10 < 2 ^ 16), h.2.2⟩
  | supportedVersions ns =>
    have hlt : (points ns).length < 2 ^ 8 := h.2.2
    refine ⟨(by decide : 43 < 2 ^ 16), ?_⟩
    change (vec1 (points ns)).length < _
    rw [length_vec1]
    omega
  | other t d => exact h.2

end ClientExt

/-- A ClientHello. -/
structure ClientHello where
  legacyVersion : Bytes
  random : Bytes
  sessionId : Bytes
  cipherSuites : Bytes
  compressionMethods : Bytes
  extensions : List ClientExt
  version_len : legacyVersion.length = 2
  random_len : random.length = 32
  session_lt : sessionId.length < 2 ^ 8
  ciphers_lt : cipherSuites.length < 2 ^ 16
  compression_lt : compressionMethods.length < 2 ^ 8
  wellFormed : ∀ e ∈ extensions, e.WellFormed
  distinct : (extensions.map ClientExt.extType).Nodup
  extensions_lt : (encodeExts (extensions.map ClientExt.ext)).length < 2 ^ 16

namespace ClientHello

variable (ch : ClientHello)

def body : Bytes :=
  (ch.legacyVersion ++ ch.random) ++ (vec1 ch.sessionId ++ (vec2 ch.cipherSuites ++
    (vec1 ch.compressionMethods ++ vec2 (encodeExts (ch.extensions.map ClientExt.ext)))))

theorem body_lt : ch.body.length < 2 ^ 24 := by
  have h1 := ch.version_len
  have h2 := ch.random_len
  have h3 := ch.session_lt
  have h4 := ch.ciphers_lt
  have h5 := ch.compression_lt
  have h6 := ch.extensions_lt
  simp only [body, List.length_append, length_vec1, length_vec2]
  omega

/-- The handshake message. -/
def message : HsMessage := ⟨1, ch.body, ch.body_lt⟩

/-- The length of the first key share, 0 without one. -/
def keyshareLen : ℕ :=
  (ch.extensions.findSome? fun
    | .keyShare (share :: _) => some share.keyExchange.length
    | _ => none).getD 0

end ClientHello

/-! ### ServerHello -/

/-- An extension of a ServerHello or a HelloRetryRequest. -/
inductive ServerExt
  | keyShare (share : KeyShareEntry)
  /-- The group that a HelloRetryRequest asks for. -/
  | selectedGroup (group : ℕ)
  | other (extType : ℕ) (data : Bytes)

namespace ServerExt

def extType : ServerExt → ℕ
  | keyShare _ | selectedGroup _ => 51
  | other t _ => t

def data : ServerExt → Bytes
  | keyShare share => share.encode
  | selectedGroup group => u16 group
  | other _ d => d

def WellFormed : ServerExt → Prop
  | keyShare share => share.encode.length < 2 ^ 16
  | selectedGroup group => group < 2 ^ 16
  | other t d => t ≠ 51 ∧ t < 2 ^ 16 ∧ d.length < 2 ^ 16

def ext (e : ServerExt) : Extension := (e.extType, e.data)

theorem fits {e : ServerExt} (h : e.WellFormed) : Fits e.ext := by
  cases e with
  | keyShare share => exact ⟨(by decide : 51 < 2 ^ 16), h⟩
  | selectedGroup group => exact ⟨(by decide : 51 < 2 ^ 16), (by decide : 2 < 2 ^ 16)⟩
  | other t d => exact h.2

end ServerExt

/-- A ServerHello or a HelloRetryRequest. -/
structure ServerHello where
  legacyVersion : Bytes
  random : Bytes
  sessionId : Bytes
  cipherSuite : ℕ
  compressionMethod : UInt8
  extensions : List ServerExt
  version_len : legacyVersion.length = 2
  random_len : random.length = 32
  session_lt : sessionId.length < 2 ^ 8
  cipher_lt : cipherSuite < 2 ^ 16
  wellFormed : ∀ e ∈ extensions, e.WellFormed
  distinct : (extensions.map ServerExt.extType).Nodup
  extensions_lt : (encodeExts (extensions.map ServerExt.ext)).length < 2 ^ 16

namespace ServerHello

variable (sh : ServerHello)

def body : Bytes :=
  (sh.legacyVersion ++ sh.random) ++ (vec1 sh.sessionId ++ (u16 sh.cipherSuite ++
    ([sh.compressionMethod] ++ vec2 (encodeExts (sh.extensions.map ServerExt.ext)))))

theorem body_lt : sh.body.length < 2 ^ 24 := by
  have h1 := sh.version_len
  have h2 := sh.random_len
  have h3 := sh.session_lt
  have h6 := sh.extensions_lt
  simp only [body, List.length_append, length_vec1, length_vec2, length_u16, List.length_singleton]
  omega

/-- The handshake message. -/
def message : HsMessage := ⟨2, sh.body, sh.body_lt⟩

/-- The length of the server's share, 0 without one. -/
def keyshareLen : ℕ :=
  (sh.extensions.findSome? fun
    | .keyShare share => some share.keyExchange.length
    | _ => none).getD 0

end ServerHello

/-! ### What the packet log reads -/

/-- The loop takes one extension after the other. -/
theorem clientHelloExtLoop_encodeExts {exts : List Extension} (h : ∀ e ∈ exts, Fits e) {n : ℕ}
    (hn : exts.length ≤ n) (s : ClientHelloExts) :
    clientHelloExtLoop n (encodeExts exts) s =
      some (run (fun s e => clientHelloExt s e.1 e.2) s exts) := by
  induction exts generalizing n s with
  | nil => cases n <;> rfl
  | cons e exts ih =>
    obtain _ | n := n
    · simp at hn
    obtain ⟨he, h⟩ := List.forall_mem_cons.mp h
    have hne : encodeExts (e :: exts) = [] → False := by
      rw [encodeExts_cons]
      exact List.cons_ne_nil _ _
    rw [clientHelloExtLoop, nextExt_encodeExts he, run_cons]
    · exact ih h (by simpa using hn) _
    · exact hne

/-- What the loop finds in a ClientHello. -/
def ClientHello.found (ch : ClientHello) : ClientHelloExts :=
  run (fun s e => clientHelloExt s e.1 e.2) {} (ch.extensions.map ClientExt.ext)

/-- The name of the first cipher suite. -/
def ClientHello.firstCipher (ch : ClientHello) : Text :=
  tlsCipherName (((packetGetNet2 ch.cipherSuites).map Prod.fst).getD 0)

/-- The texts of a ClientHello. -/
def clientHelloTexts (cipher : Text) (e : ClientHelloExts) : TlsHandshakeMetadata :=
  let label := orDefault e.keyshareLabel "UNKNOWN"
  let share := keyShareText label e.keyshareLen
  let detail := snprintf 512 (share ++ " | Cipher[0]=".toList ++ cipher ++ " | SigAlgs=[".toList ++
    orDefault e.sigalgsBuf "unknown" ++ "]".toList)
  ⟨some label, some (appendList (appendList detail " | Versions=[" e.versionsBuf) " | Groups=["
    e.groupsBuf), some (snprintf 256 (share ++ " , Cipher[0]=".toList ++ cipher))⟩

theorem ClientHello.packetLogParseClientHello_body (ch : ClientHello) :
    packetLogParseClientHello ch.body = some (clientHelloTexts ch.firstCipher ch.found) := by
  have hbody := ch.body_lt
  have hstart : (ch.legacyVersion ++ ch.random).length = 2 + 32 := by
    rw [List.length_append, ch.version_len, ch.random_len]
  have hfits : ∀ e ∈ ch.extensions.map ClientExt.ext, Fits e := by
    intro e he
    obtain ⟨x, hx, rfl⟩ := List.mem_map.mp he
    exact ClientExt.fits (ch.wellFormed x hx)
  have hloop := clientHelloExtLoop_encodeExts hfits (length_le_encodeExts _) {}
  have hexts := packetGetLengthPrefixed2_vec2 ch.extensions_lt []
  rw [List.append_nil] at hexts
  rw [packetLogParseClientHello, packetBufInit, if_neg (by simp only [sizeMax]; omega), body,
    ← hstart]
  simp only [Option.bind_eq_bind, Option.bind_some, packetForward_append,
    packetGetLengthPrefixed1_vec1 ch.session_lt, packetGetLengthPrefixed2_vec2 ch.ciphers_lt,
    packetGetLengthPrefixed1_vec1 ch.compression_lt, hexts, hloop]
  rfl

end PapQuic.Tls.Hello
