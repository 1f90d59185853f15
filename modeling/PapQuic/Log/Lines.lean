import PapQuic.Log.Clock
import PapQuic.Log.FrameList

/-! # The lines of the packet log

The two kinds of lines in the log: those of packets, printed by `ossl_quic_packet_log` of
`ssl/quic/quic_debug.c`, and the INTERNAL lines of `ssl/quic/quic_handshake_timing.c`. A line is
kept as what it is printed from; `Line.text` is the text that goes to the stream. -/

namespace PapQuic.Log.Lines

open Lib.Double Lib.Printf Wire.Packet Log.Clock Log.FrameList

/-! ### Events -/

/-- `QUIC_PKT_TYPE_*`, and any other value. -/
inductive PktType
  | initial | zeroRtt | handshake | retry | oneRtt | versionNeg | other
  deriving DecidableEq, Repr

/-- `ossl_quic_packet_type_name`. -/
def packetTypeName : PktType → String
  | .initial => "Initial"
  | .handshake => "Handshake"
  | .zeroRtt => "0RTT"
  | .oneRtt => "1RTT"
  | .retry => "Retry"
  | .versionNeg => "Version-Neg"
  | .other => "Unknown"

/-- `OSSL_QUIC_PACKET_LOG_EVENT`, without the stream and the connection. A NULL type is `none`. -/
structure PacketLogEvent extends EventKey where
  packetType : Option PktType
  packetNumber : ℕ
  datagramSize : ℕ
  payload : Bytes
  haveCreditBefore : Bool
  creditBefore : ℕ
  creditBeforeUnlimited : Bool
  haveCreditAfter : Bool
  creditAfter : ℕ
  creditAfterUnlimited : Bool
  clientCreditKnown : Bool
  clientCreditUnlimited : Bool
  haveCreditDelta : Bool
  creditDelta : ℤ
  deriving DecidableEq, Repr

/-- `role`. -/
def roleName (isServer : Bool) : String := if isServer then "SERVER" else "CLIENT"

/-- `direction`. -/
def directionName (isSend : Bool) : String := if isSend then "SENT" else "RECEIVED"

/-- `packet_type` as it is printed. -/
def PacketLogEvent.typeName (event : PacketLogEvent) : String :=
  (event.packetType.map packetTypeName).getD "Unknown"

/-! ### Credit fields -/

/-- A credit in bytes, or the word for none. -/
def creditText (have_ unlimited : Bool) (credit : ℕ) : Text :=
  if have_ then if unlimited then "UNLIMITED".toList else dec credit ++ "B".toList else "-".toList

/-- What a server line shows as credit before, amplification factor and credit after. -/
def PacketLogEvent.serverCredit (event : PacketLogEvent) : Text × Text × Text :=
  let amp (unlimited : Bool) : Text := if unlimited then "UNLIMITED".toList else "3x".toList
  (creditText event.haveCreditBefore event.creditBeforeUnlimited event.creditBefore,
    if event.haveCreditBefore then amp event.creditBeforeUnlimited
    else if event.haveCreditAfter then amp event.creditAfterUnlimited else "-".toList,
    creditText event.haveCreditAfter event.creditAfterUnlimited event.creditAfter)

/-- What a client line shows as credit and as amplification factor. -/
def PacketLogEvent.clientCredit (event : PacketLogEvent) : Text × Text :=
  if event.clientCreditKnown then
    if event.clientCreditUnlimited then ("UNLIMITED".toList, "VALIDATED".toList)
    else ("UNKNOWN".toList, "UNKNOWN".toList)
  else ("-".toList, "-".toList)

/-- `[name : value]`. -/
def field (name : String) (value : Text) : Text :=
  "[".toList ++ name.toList ++ " : ".toList ++ value ++ "]".toList

/-- `packet_log_append_credit_fields`. -/
def packetLogAppendCreditFields (event : PacketLogEvent) : Text :=
  if event.isServer then
    let (before, amp, after) := event.serverCredit
    field "CREDIT-BEFORE" before ++ " ".toList ++ field "AMPLIFICATION-FACTOR" amp ++
      " ".toList ++ field "CREDIT AFTER" after
  else
    let (credit, amp) := event.clientCredit
    field "CREDIT" credit ++ " ".toList ++ field "AMPLIFICATION-FACTOR" amp

/-! ### Packet lines -/

/-- A credit delta with its sign. -/
def deltaText (delta : ℤ) : Text :=
  (if delta ≥ 0 then "+".toList else "-".toList) ++ dec delta.natAbs ++ "B".toList

/-- A packet line: the time, the event, and what `packet_log_append_frames` wrote and returned. -/
structure PacketLine where
  ticks : OsslTime
  event : PacketLogEvent
  specs : List FrameSpec
  haveFrames : Bool

/-- What is printed between the braces: the specifications, and `UNKNOWN` where decoding failed. -/
def PacketLine.frames (l : PacketLine) : List Text :=
  l.specs.map FrameSpec.text ++ if l.haveFrames then [] else ["UNKNOWN".toList]

theorem PacketLine.forall_frames {good : Text → Prop} (l : PacketLine)
    (hs : ∀ spec ∈ l.specs, good spec.text) (hu : good "UNKNOWN".toList) :
    ∀ f ∈ l.frames, good f := by
  intro f hf
  rcases List.mem_append.mp hf with hf | hf
  · obtain ⟨spec, hm, rfl⟩ := List.mem_map.mp hf
    exact hs spec hm
  · split_ifs at hf
    · cases hf
    · rw [List.mem_singleton.mp hf]
      exact hu

/-- The credit delta a line shows. -/
def PacketLine.delta (l : PacketLine) : Option ℤ :=
  if l.event.isServer && l.event.haveCreditDelta then some l.event.creditDelta else none

/-- What follows the header of a packet line. -/
def PacketLine.rest (l : PacketLine) : Text :=
  field "DATAGRAM-SIZE" (dec l.event.datagramSize ++ "B".toList) ++ " ".toList ++
    (match l.delta with
      | some delta => field "DELTA-CREDIT" (deltaText delta) ++ " ".toList
      | none => []) ++
    "PACKET ".toList ++ dec l.event.packetNumber ++ " : ".toList ++ l.event.typeName.toList ++
    " \x7b ".toList ++ " | ".toList.intercalate l.frames ++ " \x7d  ".toList ++
    packetLogAppendCreditFields l.event

/-! ### INTERNAL lines -/

/-- The labels of INTERNAL lines. -/
inductive Label
  | clientHelloBuild | serverHelloProcessed | handshakeDone | certificateProcessed
  | certificateVerifyCheck | serverHelloBuild | certificateBuild | certificateVerifySign
  | handshakeBuild | clientValidated
  deriving DecidableEq, Repr

def Label.text : Label → String
  | .clientHelloBuild => "CLIENT HELLO BUILD"
  | .serverHelloProcessed => "SERVER HELLO PROCESSED"
  | .handshakeDone => "HANDSHAKE DONE"
  | .certificateProcessed => "CERTIFICATE PROCESSED"
  | .certificateVerifyCheck => "CERTIFICATE VERIFY CHECK"
  | .serverHelloBuild => "SERVER HELLO BUILD"
  | .certificateBuild => "CERTIFICATE BUILD"
  | .certificateVerifySign => "CERTIFICATE VERIFY SIGN"
  | .handshakeBuild => "HANDSHAKE BUILD"
  | .clientValidated => "CLIENT VALIDATED"

/-- `quic_timing_to_ms`. -/
def quicTimingToMs (t : ℕ) : ℚ := fl (fl (t / 1000 : ℕ) / 1000)

/-- The metrics of INTERNAL lines. -/
inductive Metric
  | clientKeyshareGeneration | clientHelloBuild | clientHelloRoundTrip | clientKeyExchangeLatency
  | clientCertificateProcess | clientCertVerifyCheck | serverKeyExchangeLatency
  | serverHelloPreparation | serverCertificateBuild | serverCertVerifySign
  | serverHandshakePreparation | clientValidationDelay
  deriving DecidableEq, Repr

def Metric.name : Metric → String
  | .clientKeyshareGeneration => "clientKeyshareGeneration"
  | .clientHelloBuild => "clientHelloBuild"
  | .clientHelloRoundTrip => "clientHelloRoundTrip"
  | .clientKeyExchangeLatency => "clientKeyExchangeLatency"
  | .clientCertificateProcess => "clientCertificateProcess"
  | .clientCertVerifyCheck => "clientCertVerifyCheck"
  | .serverKeyExchangeLatency => "serverKeyExchangeLatency"
  | .serverHelloPreparation => "serverHelloPreparation"
  | .serverCertificateBuild => "serverCertificateBuild"
  | .serverCertVerifySign => "serverCertVerifySign"
  | .serverHandshakePreparation => "serverHandshakePreparation"
  | .clientValidationDelay => "clientValidationDelay"

/-- An item of an INTERNAL line. -/
inductive Item
  /-- `quic_timing_print_metric`; the value is `none` while its `have_` flag is clear. -/
  | metric (m : Metric) (value : Option ℕ)
  /-- The result of `SSL_get_handshake_rtt`, in microseconds. -/
  | handshakeLatency (us : Option ℕ)
  | serverCreditUnlimited
  deriving DecidableEq, Repr

/-- The text of an item, without the separator before it. -/
def Item.text : Item → Text
  | .metric m (some value) =>
    m.name.toList ++ "=".toList ++ fprintf 0 3 (quicTimingToMs value) ++ "ms".toList
  | .metric m none => m.name.toList ++ "=N/A".toList
  | .handshakeLatency (some us) =>
    "handshakeLatency=".toList ++ fprintf 0 2 (fl (fl us / 1000)) ++ "ms".toList
  | .handshakeLatency none => "handshakeLatency=N/A".toList
  | .serverCreditUnlimited => "serverCreditState=UNLIMITED".toList

/-- An INTERNAL line. -/
structure InternalLine where
  ticks : OsslTime
  isServer : Bool
  label : Label
  items : List Item
  deriving DecidableEq, Repr

/-- The items of a line, each after its separator: a blank before the first one. -/
def itemsText : List Item → Text
  | [] => []
  | item :: items => " ".toList ++ item.text ++ (items.map fun i => " | ".toList ++ i.text).flatten

/-- What follows the header of an INTERNAL line. -/
def InternalLine.rest (l : InternalLine) : Text :=
  "[".toList ++ l.label.text.toList ++ "]".toList ++ itemsText l.items

/-! ### Lines -/

inductive Line
  | packet (l : PacketLine)
  | internal (l : InternalLine)

def Line.isServer : Line → Bool
  | .packet l => l.event.isServer
  | .internal l => l.isServer

/-- `SENT`, `RECEIVED` or `INTERNAL`. -/
def Line.kind : Line → String
  | .packet l => directionName l.event.isSend
  | .internal _ => "INTERNAL"

def Line.ticks : Line → ℕ
  | .packet l => l.ticks
  | .internal l => l.ticks

/-- The time stamp: `BIO_printf` prints that of a packet line, `fprintf` that of an INTERNAL
line. -/
def Line.stamp : Line → Text
  | .packet l => fmtfp 12 8 (displayMs (quicLogWallclockMs l.ticks))
  | .internal l => fprintf 12 8 (displayMs (quicLogWallclockMs l.ticks))

/-- Both print the milliseconds padded with blanks, and eight digits. -/
theorem Line.stamp_eq (l : Line) :
    ∃ f < 10 ^ 8, l.stamp = padLeft 12 (decimal (displayedMs l.ticks) 8 f) := by
  cases l with
  | packet l => exact fmtfp_displayMs l.ticks.isLt
  | internal l => exact fprintf_displayMs l.ticks.isLt

def Line.rest : Line → Text
  | .packet l => l.rest
  | .internal l => l.rest

/-- The line, up to the line break. -/
def Line.text (l : Line) : Text :=
  "[".toList ++ l.stamp ++ " ms] [".toList ++ (roleName l.isServer).toList ++ " ".toList ++
    l.kind.toList ++ "] ".toList ++ l.rest

end PapQuic.Log.Lines
