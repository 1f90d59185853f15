import PapQuic.Wire.Vlint

/-! # Packet headers and encoded lengths

The encryption levels, and how long the packet of a level is on the wire: the header as
`ossl_quic_wire_get_encoded_pkt_hdr_len` computes it, the payload, and the tag of the AEAD. -/

namespace PapQuic.Wire.Header

open Wire.Vlint

/-- `QUIC_ENC_LEVEL_*`. -/
inductive EncLevel
  | initial | zeroRtt | handshake | oneRtt
  deriving DecidableEq, Repr

/-- `QUIC_MAX_CONN_ID_LEN`. -/
def quicMaxConnIdLen : ℕ := 20

/-- The fields of `QUIC_PKT_HDR` that decide its length, for the packets of an encryption level. -/
structure PktHdr where
  encLevel : EncLevel
  pnLen : ℕ
  dstConnIdLen : ℕ
  srcConnIdLen : ℕ
  tokenLen : ℕ
  len : ℕ
  deriving DecidableEq, Repr

/-- The token of an Initial packet with its length; 0 when the length cannot be encoded. -/
def tokenFieldLen (hdr : PktHdr) : ℕ :=
  if vlintEncodeLen hdr.tokenLen = 0 then 0 else vlintEncodeLen hdr.tokenLen + hdr.tokenLen

/-- `ossl_quic_wire_get_encoded_pkt_hdr_len`; 0 when the header cannot be encoded. -/
def getEncodedPktHdrLen (shortConnIdLen : ℕ) (hdr : PktHdr) : ℕ :=
  if hdr.encLevel = .oneRtt then
    if hdr.dstConnIdLen ≠ shortConnIdLen ∨ shortConnIdLen > quicMaxConnIdLen ∨
        hdr.pnLen < 1 ∨ hdr.pnLen > 4 then 0
    else 1 + shortConnIdLen + hdr.pnLen
  else if hdr.dstConnIdLen > quicMaxConnIdLen ∨ hdr.srcConnIdLen > quicMaxConnIdLen then 0
  else if hdr.pnLen < 1 ∨ hdr.pnLen > 4 then 0
  else if hdr.encLevel = .initial ∧ tokenFieldLen hdr = 0 then 0
  else if vlintEncodeLen (hdr.len + hdr.pnLen) = 0 then 0
  else
    1 + 4 + 1 + hdr.dstConnIdLen + 1 + hdr.srcConnIdLen + hdr.pnLen +
      (if hdr.encLevel = .initial then tokenFieldLen hdr else 0) +
      vlintEncodeLen (hdr.len + hdr.pnLen)

end PapQuic.Wire.Header
