import PapQuic.Lib.Printf
import PapQuic.Lib.Consume
import PapQuic.Lib.Run
import PapQuic.Lib.Re
import PapQuic.Lib.Double
import PapQuic.Lib.TextFile
import PapQuic.Lib.Balance
import PapQuic.Wire.Packet
import PapQuic.Wire.Vlint
import PapQuic.Wire.Frames
import PapQuic.Wire.FrameCodec
import PapQuic.Wire.Header
import PapQuic.Log.Names
import PapQuic.Log.Metadata
import PapQuic.Log.Handshake
import PapQuic.Log.Stream
import PapQuic.Log.Reassembly
import PapQuic.Log.FrameList
import PapQuic.Log.Termination
import PapQuic.Log.Listing
import PapQuic.Log.Retransmission
import PapQuic.Txp.Credit
import PapQuic.Txp.Generate
import PapQuic.Txp.Accounting
import PapQuic.Txp.Amplification
import PapQuic.Log.Isolation
import PapQuic.Log.Clock
import PapQuic.Log.Lines
import PapQuic.Log.Timing
import PapQuic.Log.Notes
import PapQuic.Log.Output
import PapQuic.Log.Ledger
import PapQuic.Log.Connection
import PapQuic.Script.Fields
import PapQuic.Script.Amplification
import PapQuic.Script.Frames
import PapQuic.Script.PacketLine
import PapQuic.Script.ParseLog
import PapQuic.Lib.Backup
import PapQuic.Log.Conservation
import PapQuic.Log.Stages
import PapQuic.Script.HostTuning
import PapQuic.Script.Netem
import PapQuic.Server.Retry
import PapQuic.Server.Token
import PapQuic.Tls.Handshake
import PapQuic.Txp.Datagram
import PapQuic.Txp.InitialSize
import PapQuic.Lib.StableSort
import PapQuic.Log.Chars
import PapQuic.Script.Diagram
import PapQuic.Script.HelloFrames
import PapQuic.Script.HelloSize
import PapQuic.Lib.Greedy
import PapQuic.Script.Pairing
import PapQuic.Script.AckLabel
import PapQuic.Wire.AckFrame
import PapQuic.Tls.Hello
import PapQuic.Tls.KeyShare
import PapQuic.Tls.HelloDetail
import PapQuic.Log.Provenance
import PapQuic.Lib.Scan
import PapQuic.Script.LogMetrics
import PapQuic.Script.LogStats
import PapQuic.Script.LogSums
import PapQuic.Lib.DecimalOrder
import PapQuic.Lib.Firsts
import PapQuic.Lib.JsonValue
import PapQuic.Lib.PyDict
import PapQuic.Lib.Quantile
import PapQuic.Lib.Substring
import PapQuic.Log.Validated
import PapQuic.Script.Algorithms
import PapQuic.Script.CpuDescribe
import PapQuic.Script.CpuRoles
import PapQuic.Script.CpuSelect
import PapQuic.Script.CpuTopology
import PapQuic.Script.Cpus
import PapQuic.Script.InternalBlock
import PapQuic.Script.Matrix
import PapQuic.Script.Outliers
import PapQuic.Script.RunLookup
import PapQuic.Client.Retry
import PapQuic.Client.Transmit
import PapQuic.Lib.Attempts
import PapQuic.Lib.Latch
import PapQuic.Log.Agreement
import PapQuic.Script.Workflow
import PapQuic.Server.HandOver
import PapQuic.Lib.Intervals
import PapQuic.Log.HsState
import PapQuic.Script.CpuList
import PapQuic.Script.Isolation
import PapQuic.Lib.Ranges
import PapQuic.Transport.FlowAgreement
import PapQuic.Transport.FlowControl
import PapQuic.Transport.IntegerSet
import PapQuic.Transport.RingBuffer
import PapQuic.Transport.SafeMath
import PapQuic.Transport.SendStream
import PapQuic.Txp.FrameLength
import PapQuic.Transport.ReceiveStream
import PapQuic.Txp.StreamFrames
import PapQuic.Transport.Fifd
import PapQuic.Transport.Transfer
