import PapQuic.Wire.Packet
import PapQuic.Log.Names
import Mathlib.Logic.Function.Basic

/-! # Handshake metadata of the packet log

`packet_log_process_handshake_message` of `ssl/quic/quic_debug.c` parses a whole TLS handshake
message and records texts about it in `g_tls_metadata`, one slot for each message type. A parser
here returns the texts it records, `none` where the source returns before recording any. The
certificate parser reads the leaf's signature algorithm through libcrypto, which is a parameter. -/

namespace PapQuic.Log.Metadata

open Lib.Printf Wire.Packet Log.Names

/-- `TLS_HANDSHAKE_METADATA`: a text is `none` while its `have_` flag is clear. -/
structure TlsHandshakeMetadata where
  label : Option Text
  detail : Option Text
  packetNote : Option Text
  deriving DecidableEq, Repr

/-- `g_tls_metadata`, indexed by message type. -/
abbrev TlsMetadata := UInt8 → TlsHandshakeMetadata

/-- The table of a fresh process. -/
def noMetadata : TlsMetadata := fun _ => ⟨none, none, none⟩

/-- `packet_log_record_metadata`: a text that is `none` leaves the slot's text in place. -/
def packetLogRecordMetadata (tls : TlsMetadata) (hsType : UInt8) (r : TlsHandshakeMetadata) :
    TlsMetadata :=
  Function.update tls hsType
    { label := (r.label.map (strlcpy 64)).or (tls hsType).label
      detail := (r.detail.map (strlcpy 512)).or (tls hsType).detail
      packetNote := (r.packetNote.map (strlcpy 256)).or (tls hsType).packetNote }

/-- `d2i_X509` followed by `X509_get_signature_nid`, and `OBJ_nid2sn`. -/
structure X509Lib where
  /-- `none` when the bytes are no certificate; 0 is `NID_undef`. -/
  signatureNid : Bytes → Option ℕ
  objNid2sn : ℕ → Option Text

/-- A libcrypto that knows no certificate. -/
def noX509 : X509Lib := ⟨fun _ => none, fun _ => none⟩

/-! ### Lists of names -/

/-- `packet_log_append_token`. -/
def packetLogAppendToken (bufLen : ℕ) (buf token : Text) : Text :=
  if token = [] then buf
  else strlcat bufLen (if buf = [] then buf else strlcat bufLen buf ", ".toList) token

/-- The loop of the three `packet_log_format_*` functions: the names of the 16-bit code points,
with `...` once `limit` of them are written and more follow. -/
def formatVector (name : ℕ → Text) (limit bufLen : ℕ) : Bytes → ℕ → Text → Text
  | a :: b :: tmp, count, buf =>
    let buf := packetLogAppendToken bufLen buf (name (netOrder [a, b]))
    if count + 1 ≥ limit ∧ tmp.length ≥ 2 then packetLogAppendToken bufLen buf "...".toList
    else formatVector name limit bufLen tmp (count + 1) buf
  | _, _, buf => buf

def packetLogFormatVersionList (versions : Bytes) (bufLen : ℕ) : Text :=
  formatVector tlsVersionName 4 bufLen versions 0 []

def packetLogFormatGroupVector (groups : Bytes) (bufLen : ℕ) : Text :=
  formatVector (formatGroupName · 32) 5 bufLen groups 0 []

def packetLogFormatSigalgVector (sigpkt : Bytes) (bufLen : ℕ) : Text :=
  formatVector (tlsSigalgName · 32) 5 bufLen sigpkt 0 []

/-! ### ClientHello -/

/-- The locals that the extension loop of `packet_log_parse_client_hello` fills. -/
structure ClientHelloExts where
  keyshareLen : ℕ := 0
  keyshareLabel : Text := []
  sigalgsBuf : Text := []
  groupsBuf : Text := []
  versionsBuf : Text := []

/-- The first entry of a ClientHello key share: its group and the length of its key. -/
def firstKeyShare (extData : Bytes) : Option (ℕ × ℕ) := do
  let (shares, _) ← packetGetLengthPrefixed2 extData
  let (group, shares) ← packetGetNet2 shares
  let (key, _) ← packetGetLengthPrefixed2 shares
  return (group, key.length)

/-- One extension of a ClientHello. -/
def clientHelloExt (e : ClientHelloExts) (extType : ℕ) (extData : Bytes) : ClientHelloExts :=
  match extType with
  | 51 =>
    match firstKeyShare extData with
    | some (group, len) => { e with keyshareLen := len, keyshareLabel := formatGroupName group 32 }
    | none => e
  | 13 => { e with sigalgsBuf := packetLogFormatSigalgVector extData 256 }
  | 10 => { e with groupsBuf := packetLogFormatGroupVector extData 256 }
  | 43 =>
    match packetGetLengthPrefixed1 extData with
    | some (verlist, _) => { e with versionsBuf := packetLogFormatVersionList verlist 128 }
    | none => e
  | _ => e

/-- The next extension: its type, its data and the extensions after it. -/
def nextExt (extensions : Bytes) : Option (ℕ × Bytes × Bytes) := do
  let (extType, extensions) ← packetGetNet2 extensions
  let (extData, extensions) ← packetGetLengthPrefixed2 extensions
  return (extType, extData, extensions)

/-- The extension loop; an extension takes four bytes or more, so as many rounds as bytes do. -/
def clientHelloExtLoop : ℕ → Bytes → ClientHelloExts → Option ClientHelloExts
  | _, [], e => some e
  | 0, _ :: _, _ => none
  | n + 1, extensions, e => do
    let (extType, extData, extensions) ← nextExt extensions
    clientHelloExtLoop n extensions (clientHelloExt e extType extData)

/-- A text, or a default for the empty one. -/
def orDefault (buf : Text) (default : String) : Text := if buf = [] then default.toList else buf

/-- `KeyShare=%s(%zuB)`. -/
def keyShareText (label : Text) (len : ℕ) : Text :=
  "KeyShare=".toList ++ label ++ "(".toList ++ dec len ++ "B)".toList

/-- ` | Name=[list]`, when the list is not empty. -/
def appendList (detail : Text) (opening : String) (buf : Text) : Text :=
  if buf = [] then detail
  else strlcat 512 (strlcat 512 (strlcat 512 detail opening.toList) buf) "]".toList

/-- `packet_log_parse_client_hello`. -/
def packetLogParseClientHello (body : Bytes) : Option TlsHandshakeMetadata := do
  let pkt ← packetBufInit body
  let pkt ← packetForward pkt (2 + 32)
  let (_, pkt) ← packetGetLengthPrefixed1 pkt
  let (cipherSuites, pkt) ← packetGetLengthPrefixed2 pkt
  let firstCipher := ((packetGetNet2 cipherSuites).map Prod.fst).getD 0
  let (_, pkt) ← packetGetLengthPrefixed1 pkt
  let (extensions, _) ← packetGetLengthPrefixed2 pkt
  let e ← clientHelloExtLoop extensions.length extensions {}
  let label := orDefault e.keyshareLabel "UNKNOWN"
  let share := keyShareText label e.keyshareLen
  let cipher := tlsCipherName firstCipher
  let detail := snprintf 512 (share ++ " | Cipher[0]=".toList ++ cipher ++ " | SigAlgs=[".toList ++
    orDefault e.sigalgsBuf "unknown" ++ "]".toList)
  let detail := appendList detail " | Versions=[" e.versionsBuf
  let detail := appendList detail " | Groups=[" e.groupsBuf
  let note := snprintf 256 (share ++ " , Cipher[0]=".toList ++ cipher)
  return ⟨some label, some detail, some note⟩

/-! ### ServerHello -/

/-- The extension loop of `packet_log_parse_server_hello`: the key share's label and length. A key
share that does not parse ends the loop with what there is; one with a group and no key, as a
HelloRetryRequest has, does not end it. -/
def serverHelloExtLoop : ℕ → Bytes → Text × ℕ → Option (Text × ℕ)
  | _, [], e => some e
  | 0, _ :: _, _ => none
  | n + 1, extensions, e => do
    let (extType, extData, extensions) ← nextExt extensions
    if extType = 51 then
      match packetGetNet2 extData with
      | none => some e
      | some (group, []) => serverHelloExtLoop n extensions (formatGroupName group 32, 0)
      | some (group, extData) =>
        match packetGetLengthPrefixed2 extData with
        | none => some e
        | some (key, _) => some (formatGroupName group 32, key.length)
    else serverHelloExtLoop n extensions e

/-- `packet_log_parse_server_hello`. -/
def packetLogParseServerHello (body : Bytes) : Option TlsHandshakeMetadata := do
  let pkt ← packetBufInit body
  let pkt ← packetForward pkt (2 + 32)
  let (_, pkt) ← packetGetLengthPrefixed1 pkt
  let (cipherSuite, pkt) ← packetGetNet2 pkt
  let pkt ← packetForward pkt 1
  let (extensions, _) ← packetGetLengthPrefixed2 pkt
  let (label, keyshareLen) ← serverHelloExtLoop extensions.length extensions ([], 0)
  let label := orDefault label "UNKNOWN"
  let share := keyShareText label keyshareLen
  let cipher := tlsCipherName cipherSuite
  return ⟨some label, some (snprintf 256 (share ++ " | Cipher=".toList ++ cipher)),
    some (snprintf 256 (share ++ " , Cipher=".toList ++ cipher))⟩

/-! ### The other messages -/

/-- The loop of `packet_log_parse_encrypted_extensions`: the number of extensions. -/
def countExts : ℕ → Bytes → ℕ → Option ℕ
  | _, [], count => some count
  | 0, _ :: _, _ => none
  | n + 1, extBlock, count => do
    let (_, _, extBlock) ← nextExt extBlock
    countExts n extBlock (count + 1)

/-- `packet_log_parse_encrypted_extensions`. -/
def packetLogParseEncryptedExtensions (body : Bytes) : Option TlsHandshakeMetadata := do
  let pkt ← packetBufInit body
  let (extBlock, _) ← packetGetLengthPrefixed2 pkt
  let extCount ← countExts extBlock.length extBlock 0
  return ⟨none, some (snprintf 128 ("Extensions=".toList ++ dec extCount ++ " | Payload=".toList ++
    dec extBlock.length ++ "B".toList)), none⟩

/-- The name of the leaf's signature algorithm in `packet_log_parse_certificate`. -/
def leafSigalg (lib : X509Lib) (leaf : Bytes) : Text :=
  match (lib.signatureNid leaf).getD 0 with
  | 0 => "UNKNOWN".toList
  | nid =>
    match lib.objNid2sn nid with
    | some name => strlcpy 64 name
    | none => snprintf 64 ("NID-".toList ++ dec nid)

/-- `packet_log_parse_certificate`. -/
def packetLogParseCertificate (lib : X509Lib) (body : Bytes) : Option TlsHandshakeMetadata := do
  let pkt ← packetBufInit body
  let (_, pkt) ← packetGetLengthPrefixed1 pkt
  let (certList, _) ← packetGetLengthPrefixed3 pkt
  if certList = [] then
    return ⟨some "NONE".toList, some "Empty certificate list".toList, none⟩
  else
    let (leaf, _) ← packetGetLengthPrefixed3 certList
    let sigalg := leafSigalg lib leaf
    return ⟨some sigalg,
      some (snprintf 256 ("Chain=".toList ++ dec certList.length ++ "B | Leaf=".toList ++
        dec leaf.length ++ "B | LeafSig=".toList ++ sigalg)),
      some (snprintf 256 ("LeafSig=".toList ++ sigalg ++ " ,  Leaf=".toList ++
        dec leaf.length ++ "B".toList))⟩

/-- `packet_log_parse_certificate_verify`. -/
def packetLogParseCertificateVerify (body : Bytes) : Option TlsHandshakeMetadata := do
  let pkt ← packetBufInit body
  let (scheme, pkt) ← packetGetNet2 pkt
  let (signature, _) ← packetGetLengthPrefixed2 pkt
  let name := tlsSigalgName scheme 32
  let size := dec signature.length ++ "B".toList
  return ⟨some name,
    some (snprintf 160 ("Algorithm=".toList ++ name ++ " | Signature=".toList ++ size)),
    some (snprintf 160 ("Algorithm=".toList ++ name ++ " , Signature=".toList ++ size))⟩

/-- `packet_log_parse_finished`. -/
def packetLogParseFinished (body : Bytes) : Option TlsHandshakeMetadata :=
  some ⟨none, some (snprintf 96 ("VerifyData=".toList ++ dec body.length ++ "B".toList)), none⟩

/-- What `packet_log_process_handshake_message` records for a message. -/
def parseHandshakeMessage (lib : X509Lib) (hsType : UInt8) (body : Bytes) :
    Option TlsHandshakeMetadata :=
  match hsType with
  | 1 => packetLogParseClientHello body
  | 2 => packetLogParseServerHello body
  | 8 => packetLogParseEncryptedExtensions body
  | 11 => packetLogParseCertificate lib body
  | 15 => packetLogParseCertificateVerify body
  | 20 => packetLogParseFinished body
  | _ => none

/-- `packet_log_process_handshake_message`. -/
def packetLogProcessHandshakeMessage (lib : X509Lib) (tls : TlsMetadata) (hsType : UInt8)
    (body : Bytes) : TlsMetadata :=
  match parseHandshakeMessage lib hsType body with
  | some r => packetLogRecordMetadata tls hsType r
  | none => tls

end PapQuic.Log.Metadata
