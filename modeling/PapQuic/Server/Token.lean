import PapQuic.Wire.Header
import PapQuic.Log.Clock

/-! # Validation tokens

The tokens that a server port of `ssl/quic/quic_port.c` puts into Retry packets and NEW_TOKEN
frames. A token names the time and the address of the client; one for a Retry packet also names the
connection id of the client's first Initial packet and the one that the port chose for it. It is
marshalled and encrypted. The cipher is a parameter (`decryptToken`).

* `parseValidationToken_marshal`: what is marshalled can be parsed back. -/

namespace PapQuic.Server.Token

open Wire.Packet Wire.Header Log.Clock

/-! ### Connection ids -/

/-- `QUIC_CONN_ID`. -/
def ConnId := {id : Bytes // id.length ≤ quicMaxConnIdLen}
  deriving DecidableEq

def ConnId.idLen (cid : ConnId) : ℕ := cid.val.length

def ConnId.empty : ConnId := ⟨[], Nat.zero_le _⟩

/-- An id that was read from a packet; `none` when it is too long. -/
def ConnId.ofBytes (id : Bytes) : Option ConnId :=
  if h : id.length ≤ quicMaxConnIdLen then some ⟨id, h⟩ else none

@[simp] theorem ConnId.ofBytes_val (cid : ConnId) : ConnId.ofBytes cid.val = some cid :=
  dif_pos cid.property

/-! ### Tokens -/

/-- `QUIC_VALIDATION_TOKEN`. -/
structure ValidationToken where
  isRetry : Bool
  timestamp : OsslTime
  odcid : ConnId
  rscid : ConnId
  remoteAddr : Bytes
  deriving DecidableEq

/-- `MARSHALLED_TOKEN_MAX_LEN`. -/
def marshalledTokenMaxLen : ℕ := 169

/-- `ENCRYPTED_TOKEN_MAX_LEN`. -/
def encryptedTokenMaxLen : ℕ := marshalledTokenMaxLen + 16 + 12

/-- The bytes of a number in memory, the lowest first. -/
def leBytes : ℕ → ℕ → Bytes
  | 0, _ => []
  | n + 1, v => UInt8.ofNat v :: leBytes n (v / 256)

def ofLeBytes : Bytes → ℕ
  | [] => 0
  | b :: bs => b.toNat + 256 * ofLeBytes bs

theorem length_leBytes : ∀ n v, (leBytes n v).length = n
  | 0, _ => rfl
  | n + 1, v => congrArg (· + 1) (length_leBytes n (v / 256))

theorem ofLeBytes_leBytes : ∀ n v, ofLeBytes (leBytes n v) = v % 256 ^ n
  | 0, v => (Nat.mod_one v).symm
  | n + 1, v => by
    have hb : (UInt8.ofNat v).toNat = v % 256 := UInt8.toNat_ofNat'
    rw [leBytes, ofLeBytes, ofLeBytes_leBytes n, hb, Nat.pow_succ', Nat.mod_mul]

/-- `WPACKET_sub_memcpy_u8`. -/
def wpacketSubMemcpyU8 (b : Bytes) : Option Bytes :=
  if b.length < 256 then some (UInt8.ofNat b.length :: b) else none

/-- The connection ids in a token: only one for a Retry packet has them. -/
def marshalConnIds (token : ValidationToken) : Option Bytes :=
  if token.isRetry then do
    let odcid ← wpacketSubMemcpyU8 token.odcid.val
    let rscid ← wpacketSubMemcpyU8 token.rscid.val
    return odcid ++ rscid
  else some []

/-- `marshal_validation_token`. -/
def marshalValidationToken (token : ValidationToken) : Option Bytes := do
  let cids ← marshalConnIds token
  let remoteAddr ← wpacketSubMemcpyU8 token.remoteAddr
  let buffer := [if token.isRetry then 1 else 0] ++ leBytes 8 token.timestamp ++ cids ++ remoteAddr
  if buffer.length > marshalledTokenMaxLen then none else some buffer

/-- The connection ids of a token, and what follows them. -/
def parseConnIds (isRetry : Bool) (pkt : Bytes) : Option (ConnId × ConnId × Bytes) :=
  if isRetry then do
    let (subpkt, pkt) ← packetGetLengthPrefixed1 pkt
    let odcid ← ConnId.ofBytes subpkt
    let (subpkt, pkt) ← packetGetLengthPrefixed1 pkt
    let rscid ← ConnId.ofBytes subpkt
    return (odcid, rscid, pkt)
  else some (ConnId.empty, ConnId.empty, pkt)

/-- The first byte of a token. -/
def parseIsRetry (pkt : Bytes) : Option (Bool × Bytes) :=
  match packetGet1 pkt with
  | some (0, pkt) => some (false, pkt)
  | some (1, pkt) => some (true, pkt)
  | _ => none

/-- The address in a token, which is the end of it. -/
def parseRemoteAddr (pkt : Bytes) : Option Bytes :=
  match packetGetLengthPrefixed1 pkt with
  | none => none
  | some (remoteAddr, pkt) =>
    if remoteAddr.length = 0 ∨ pkt.length ≠ 0 then none else some remoteAddr

/-- `parse_validation_token`. -/
def parseValidationToken (buf : Bytes) : Option ValidationToken := do
  let (isRetry, pkt) ← parseIsRetry buf
  let (timestamp, pkt) ← packetGetBytes pkt 8
  let (odcid, rscid, pkt) ← parseConnIds isRetry pkt
  let remoteAddr ← parseRemoteAddr pkt
  return ⟨isRetry, Fin.ofNat (2 ^ 64) (ofLeBytes timestamp), odcid, rscid, remoteAddr⟩

theorem packetGetLengthPrefixed1_append {b sub : Bytes} (h : wpacketSubMemcpyU8 b = some sub)
    (rest : Bytes) :
    packetGetLengthPrefixed1 (sub ++ rest) = some (b, rest) := by
  unfold wpacketSubMemcpyU8 at h
  split_ifs at h with hb
  cases h
  have hn : (UInt8.ofNat b.length).toNat = b.length := by
    rw [UInt8.toNat_ofNat', Nat.mod_eq_of_lt hb]
  simp [packetGetLengthPrefixed1, packetGet1, hn]

/-- The ids as they are read back. -/
theorem parseConnIds_marshal {token : ValidationToken} {cids : Bytes}
    (h : marshalConnIds token = some cids) (rest : Bytes) :
    parseConnIds token.isRetry (cids ++ rest) = some (if token.isRetry then
      (token.odcid, token.rscid, rest) else (ConnId.empty, ConnId.empty, rest)) := by
  unfold marshalConnIds at h
  unfold parseConnIds
  split_ifs at h ⊢
  · simp only [Option.bind_eq_bind, Option.bind_eq_some_iff, Option.pure_def, Option.some.injEq]
      at h
    obtain ⟨o, ho, r, hr, rfl⟩ := h
    simp [packetGetLengthPrefixed1_append ho, packetGetLengthPrefixed1_append hr]
  · cases h
    rfl

theorem parseRemoteAddr_marshal {remoteAddr addr : Bytes}
    (h : wpacketSubMemcpyU8 remoteAddr = some addr)
    (hne : remoteAddr ≠ []) : parseRemoteAddr addr = some remoteAddr := by
  have hp := packetGetLengthPrefixed1_append h []
  rw [List.append_nil] at hp
  simp [parseRemoteAddr, hp, hne]

/-- **Tokens can be read back**, those of NEW_TOKEN frames without connection ids. -/
theorem parseValidationToken_marshal {token : ValidationToken} {buffer : Bytes}
    (h : marshalValidationToken token = some buffer) (ha : token.remoteAddr ≠ []) :
    parseValidationToken buffer = some (if token.isRetry then token
      else { token with odcid := ConnId.empty, rscid := ConnId.empty }) := by
  have ht : Fin.ofNat (2 ^ 64) (ofLeBytes (leBytes 8 token.timestamp)) = token.timestamp := by
    rw [ofLeBytes_leBytes]
    exact Fin.ext (by simp)
  have htime (rest : Bytes) : packetGetBytes (leBytes 8 token.timestamp ++ rest) 8 =
      some (leBytes 8 token.timestamp, rest) := by
    have := packetGetBytes_append (leBytes 8 token.timestamp) rest
    rwa [length_leBytes] at this
  have hretry (rest : Bytes) : parseIsRetry ([if token.isRetry then 1 else 0] ++ rest) =
      some (token.isRetry, rest) := by
    cases token.isRetry <;> rfl
  obtain ⟨cids, hcids, h⟩ := Option.bind_eq_some_iff.mp h
  obtain ⟨addr, haddr, h⟩ := Option.bind_eq_some_iff.mp h
  obtain ⟨-, h⟩ := Option.ite_none_left_eq_some.mp h
  obtain rfl := Option.some.inj h
  rw [List.append_assoc, List.append_assoc, parseValidationToken, hretry]
  simp only [Option.bind_eq_bind, Option.bind_some, htime, parseConnIds_marshal hcids, ht]
  obtain ⟨_ | _, timestamp, odcid, rscid, remoteAddr⟩ := token
  · simp [parseRemoteAddr_marshal haddr ha]
  · simp [parseRemoteAddr_marshal haddr ha]

/-! ### Making and checking tokens -/

/-- The port's cipher: from a nonce and a text with its tag to the plaintext. -/
abbrev Cipher := (iv : Bytes) → (data : Bytes) → (tag : Bytes) → Option Bytes

/-- `decrypt_validation_token`, with a nonce of 12 bytes and a tag of 16. -/
def decryptValidationToken (cipher : Cipher) (ciphertext : Bytes) : Option Bytes :=
  if ciphertext.length < 12 + 16 ∨ ciphertext.length > encryptedTokenMaxLen then none
  else
    cipher (ciphertext.take 12) ((ciphertext.drop 12).take (ciphertext.length - 12 - 16))
      (ciphertext.drop (ciphertext.length - 16))

/-- `generate_token`. The address is `none` when it cannot be had, or not be stored. -/
def generateToken (now : OsslTime) (peer : Option Bytes) (odcid rscid : ConnId) (isRetry : Bool) :
    Option ValidationToken :=
  match peer with
  | none => none
  | some remoteAddr =>
    if remoteAddr.length = 0 then none else some ⟨isRetry, now, odcid, rscid, remoteAddr⟩

/-- The plaintext of a new token. -/
def newToken (now : OsslTime) (peer : Option Bytes) (odcid rscid : ConnId) (isRetry : Bool) :
    Option Bytes :=
  (generateToken now peer odcid rscid isRetry).bind marshalValidationToken

theorem parse_newToken {now : OsslTime} {peer : Option Bytes} {odcid rscid : ConnId}
    {isRetry : Bool} {buffer : Bytes} (h : newToken now peer odcid rscid isRetry = some buffer) :
    ∃ token, parseValidationToken buffer = some token ∧ token.isRetry = isRetry ∧
      (isRetry = true → token.odcid = odcid) := by
  obtain ⟨token, htoken, hbuffer⟩ := Option.bind_eq_some_iff.mp h
  unfold generateToken at htoken
  split at htoken
  · cases htoken
  · split_ifs at htoken with h0
    cases htoken
    refine ⟨_, parseValidationToken_marshal hbuffer (by simpa using h0), ?_, ?_⟩
    · cases isRetry <;> rfl
    · rintro rfl
      rfl

/-- `RETRY_LIFETIME`, in seconds. -/
def retryLifetime : ℕ := 10

/-- `NEW_TOKEN_LIFETIME`. -/
def newTokenLifetime : ℕ := 3600

/-- The fields of `QUIC_PKT_HDR` that the port looks at. -/
structure PktHdr where
  version : ℕ
  isInitial : Bool
  /-- `none` when there is no token, or one of no bytes. -/
  token : Option Bytes
  dstConnId : ConnId
  srcConnId : ConnId

/-- What `port_validate_token` finds in a token that is valid. -/
structure Validated where
  odcid : ConnId
  scid : ConnId
  genNewToken : Bool
  deriving DecidableEq

/-- The token is not from the future and not too old. -/
def ValidationToken.timely (token : ValidationToken) (now : OsslTime) : Bool :=
  token.timestamp ≤ now &&
    (now.val - token.timestamp.val) / 1000000000 ≤
      if token.isRetry then retryLifetime else newTokenLifetime

/-- The connection ids of a token that is timely and from the right address. -/
def tokenCids (now : OsslTime) (unusedCid : Option ConnId) (hdr : PktHdr)
    (token : ValidationToken) : Option Validated :=
  if token.isRetry then
    if token.rscid ≠ hdr.dstConnId then none else some ⟨token.odcid, token.rscid, true⟩
  else unusedCid.map fun odcid => ⟨odcid, hdr.srcConnId,
    (now.val - token.timestamp.val) / 1000000000 > newTokenLifetime * 9 / 10⟩

/-- `port_validate_token`. The address of the peer is `none` when it cannot be had, or not be
stored; `unusedCid` is what `ossl_quic_lcidm_get_unused_cid` finds. -/
def portValidateToken (cipher : Cipher) (now : OsslTime) (peer : Option Bytes)
    (unusedCid : Option ConnId) (hdr : PktHdr) (tokenBytes : Bytes) : Option Validated := do
  let decToken ← (decryptValidationToken cipher tokenBytes).filter
    (·.length ≤ marshalledTokenMaxLen)
  let token ← parseValidationToken decToken
  if token.timely now && peer = some token.remoteAddr
    then tokenCids now unusedCid hdr token else none

/-- Where the connection id of a valid token comes from: the token for a Retry packet, or the
port. -/
theorem odcid_portValidateToken {cipher : Cipher} {now : OsslTime} {peer : Option Bytes}
    {unusedCid : Option ConnId} {hdr : PktHdr} {tokenBytes : Bytes} {v : Validated}
    (h : portValidateToken cipher now peer unusedCid hdr tokenBytes = some v) :
    ∃ decToken token, decryptValidationToken cipher tokenBytes = some decToken ∧
      parseValidationToken decToken = some token ∧
      ((token.isRetry = true ∧ v.odcid = token.odcid) ∨ unusedCid = some v.odcid) := by
  obtain ⟨decToken, hdec, h⟩ := Option.bind_eq_some_iff.mp h
  obtain ⟨token, htoken, h⟩ := Option.bind_eq_some_iff.mp h
  split_ifs at h
  refine ⟨decToken, token, (Option.filter_eq_some_iff.mp hdec).1, htoken, ?_⟩
  unfold tokenCids at h
  split_ifs at h with hretry
  · cases h
    exact .inl ⟨hretry, rfl⟩
  · obtain ⟨odcid, hodcid, rfl⟩ := Option.map_eq_some_iff.mp h
    exact .inr hodcid

end PapQuic.Server.Token
