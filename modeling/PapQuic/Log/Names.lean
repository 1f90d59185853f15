import PapQuic.Lib.Printf

/-! # The name tables of the packet log

The tables of `ssl/quic/quic_debug.c` that turn TLS code points into the names printed in the log:
named groups, cipher suites, versions, signature schemes and handshake message types. -/

namespace PapQuic.Log.Names

open Lib.Printf

/-- `TLS_NUM_NAME`: a code point and its name. -/
abbrev NumName := ℕ × String

/-- The first entry of a table with the given code point. -/
def nameOf (table : List NumName) (id : ℕ) : Option Text :=
  (table.find? fun e => e.1 = id).map fun e => e.2.toList

/-- `kGroupNameMap`. -/
def kGroupNameMap : List NumName :=
  [(0x001D, "x25519"), (0x001E, "x448"), (0x0017, "secp256r1"), (0x0018, "secp384r1"),
    (0x0019, "secp521r1"), (0x0100, "ffdhe2048"), (0x0101, "ffdhe3072"), (0x0102, "ffdhe4096"),
    (0x0103, "ffdhe6144"), (0x0104, "ffdhe8192"),
    (0x0200, "mlkem512"), (0x0201, "mlkem768"), (0x0202, "mlkem1024"),
    (0x2F4B, "p256_mlkem512"), (0x2FB6, "x25519_mlkem512"), (0x2F4C, "p384_mlkem768"),
    (0x2FB7, "x448_mlkem768"), (0x2F4D, "p521_mlkem1024"), (0x11EB, "secp256r1mlkem768"),
    (0x11EC, "x25519mlkem768"), (0x11ED, "secp384r1mlkem1024"), (0xFE40, "bp256_mlkem512"),
    (0xFE41, "bp384_mlkem768"), (0xFE42, "bp512_mlkem1024"),
    (0xFE00, "frodo640aes"), (0xFE01, "p256_frodo640aes"), (0xFE02, "x25519_frodo640aes"),
    (0xFE03, "frodo640shake"), (0xFE04, "p256_frodo640shake"), (0xFE05, "x25519_frodo640shake"),
    (0xFE06, "frodo976aes"), (0xFE07, "p384_frodo976aes"), (0xFE08, "x448_frodo976aes"),
    (0xFE09, "frodo976shake"), (0xFE0A, "p384_frodo976shake"), (0xFE0B, "x448_frodo976shake"),
    (0xFE0C, "frodo1344aes"), (0xFE0D, "p521_frodo1344aes"), (0xFE0E, "frodo1344shake"),
    (0xFE0F, "p521_frodo1344shake"),
    (0xFE10, "bikel1"), (0xFE11, "p256_bikel1"), (0xFE12, "x25519_bikel1"), (0xFE13, "bikel3"),
    (0xFE14, "p384_bikel3"), (0xFE15, "x448_bikel3"), (0xFE16, "bikel5"), (0xFE17, "p521_bikel5"),
    (0x022C, "hqc128"), (0x2F2C, "p256_hqc128"), (0x2FAC, "x25519_hqc128"), (0x022D, "hqc192"),
    (0x2F2D, "p384_hqc192"), (0x2FAD, "x448_hqc192"), (0x022E, "hqc256"), (0x2F2E, "p521_hqc256"),
    (0xFE18, "hqc128"), (0xFE19, "p256_hqc128"), (0xFE1A, "x25519_hqc128"), (0xFE1B, "hqc192"),
    (0xFE1C, "p384_hqc192"), (0xFE1D, "x448_hqc192"), (0xFE1E, "hqc256"), (0xFE1F, "p521_hqc256")]

/-- `kCipherNameMap`. -/
def kCipherNameMap : List NumName :=
  [(0x1301, "TLS_AES_128_GCM_SHA256"), (0x1302, "TLS_AES_256_GCM_SHA384"),
    (0x1303, "TLS_CHACHA20_POLY1305_SHA256"), (0x1304, "TLS_AES_128_CCM_SHA256"),
    (0x1305, "TLS_AES_128_CCM_8_SHA256")]

/-- `kSigAlgNameMap`. -/
def kSigAlgNameMap : List NumName :=
  [(0x0403, "ECDSA_secp256r1_SHA256"), (0x0503, "ECDSA_secp384r1_SHA384"),
    (0x0603, "ECDSA_secp521r1_SHA512"), (0x0804, "RSA_PSS_RSAE_SHA256"),
    (0x0805, "RSA_PSS_RSAE_SHA384"), (0x0806, "RSA_PSS_RSAE_SHA512"), (0x0807, "ed25519"),
    (0x0808, "ed448"), (0x0904, "mldsa44"), (0x0905, "mldsa65"), (0x0906, "mldsa87"),
    (0xff06, "p256_mldsa44"), (0xff07, "rsa3072_mldsa44"), (0xff08, "p384_mldsa65"),
    (0xff09, "p521_mldsa87"), (0xfed7, "falcon512"), (0xfed8, "p256_falcon512"),
    (0xfed9, "rsa3072_falcon512"), (0xfedc, "falconpadded512"), (0xfedd, "p256_falconpadded512"),
    (0xfede, "rsa3072_falconpadded512"), (0xfeda, "falcon1024"), (0xfedb, "p521_falcon1024"),
    (0xfedf, "falconpadded1024"), (0xfee0, "p521_falconpadded1024"),
    (0xfeb3, "sphincssha2128fsimple"), (0xfeb4, "p256_sphincssha2128fsimple"),
    (0xfeb5, "rsa3072_sphincssha2128fsimple"), (0xfeb6, "sphincssha2128ssimple"),
    (0xfeb7, "p256_sphincssha2128ssimple"), (0xfeb8, "rsa3072_sphincssha2128ssimple"),
    (0xfeb9, "sphincssha2192fsimple"), (0xfeba, "p384_sphincssha2192fsimple"),
    (0xfec2, "sphincsshake128fsimple"), (0xfec3, "p256_sphincsshake128fsimple"),
    (0xfec4, "rsa3072_sphincsshake128fsimple"), (0xfec1, "p521_sphincssha2256ssimple")]

/-- `format_group_name` into a buffer of `bufLen` bytes. -/
def formatGroupName (groupId bufLen : ℕ) : Text :=
  match nameOf kGroupNameMap groupId with
  | some name => strlcpy bufLen name
  | none => snprintf bufLen ("0x".toList ++ hexPad 4 groupId)

/-- `tls_cipher_name`. -/
def tlsCipherName (cipher : ℕ) : Text := (nameOf kCipherNameMap cipher).getD "UNKNOWN".toList

/-- `tls_version_name`. -/
def tlsVersionName (version : ℕ) : Text :=
  (nameOf [(0x0304, "TLS1.3"), (0x0303, "TLS1.2"), (0x0302, "TLS1.1"), (0x0301, "TLS1.0")]
    version).getD "UNKNOWN".toList

/-- `tls_sigalg_name`, with the buffer of `bufLen` bytes for unnamed schemes. -/
def tlsSigalgName (scheme bufLen : ℕ) : Text :=
  (nameOf kSigAlgNameMap scheme).getD (snprintf bufLen ("0x".toList ++ hexPad 4 scheme))

/-- `tls_handshake_fragment_name`. -/
def tlsHandshakeFragmentName (hsType : UInt8) : Text :=
  (nameOf [(0, "HelloRequest"), (1, "ClientHello"), (2, "ServerHello"), (4, "NewSessionTicket"),
    (6, "HelloRetryRequest"), (8, "EncryptedExtensions"), (11, "Certificate"),
    (13, "CertificateRequest"), (14, "ServerHelloDone"), (15, "CertificateVerify"),
    (20, "Finished"), (24, "KeyUpdate"), (254, "MessageHash")] hsType.toNat).getD "UNKNOWN".toList

end PapQuic.Log.Names
