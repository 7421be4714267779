import PacketReplay.Lib.Search
import PacketReplay.Lib.Segments
import PacketReplay.Lib.Trace
import PacketReplay.Lib.Demux
import PacketReplay.Lib.Lease
import PacketReplay.Lib.CLibrary
import PacketReplay.Lib.Checked
import PacketReplay.Lib.Registry
import PacketReplay.Lib.IStream
import PacketReplay.Lib.Fields
import PacketReplay.Lib.ByteReader
import PacketReplay.Lib.Proc
import PacketReplay.Util
import PacketReplay.Http.ChunkedProcessor
import PacketReplay.Http.ChunkedSegments
import PacketReplay.Http.ChunkedBody
import PacketReplay.Http.ChunkedEncoding
import PacketReplay.Http.ChunkedGrammar
import PacketReplay.Http.ChunkLoop
import PacketReplay.Http.ResponseProcessor
import PacketReplay.Http.Response
import PacketReplay.Http.HeaderParsing
import PacketReplay.Http.ResponseSegments
import PacketReplay.Http.ResponseReset
import PacketReplay.Http.ResponseCompare
import PacketReplay.Http.ResponseInvariant
import PacketReplay.Http.ContentLength
import PacketReplay.Http.Message
import PacketReplay.Http.Delivery
import PacketReplay.Script.DataBlock
import PacketReplay.Script.DataFraming
import PacketReplay.Script.Base64
import PacketReplay.Script.Base64Text
import PacketReplay.Action
import PacketReplay.Capture.Packet
import PacketReplay.Capture.Address
import PacketReplay.Capture.Key
import PacketReplay.Capture.Conversation
import PacketReplay.Capture.Store
import PacketReplay.Capture.Frame
import PacketReplay.Capture.FrameBounds
import PacketReplay.Capture.WellFormedFrame
import PacketReplay.Capture.OtherTransport
import PacketReplay.Capture.DefaultClient
import PacketReplay.Capture.ClientSpec
import PacketReplay.Capture.IpV6Text
import PacketReplay.Capture.Destination
import PacketReplay.Capture.SpecMatching
import PacketReplay.Capture.SpecPointers
import PacketReplay.Capture.SpecForms
import PacketReplay.Capture.FlowIsolation
import PacketReplay.Capture.TcpQueue
import PacketReplay.Capture.IrrelevantFlags
import PacketReplay.Capture.Payload
import PacketReplay.Capture.Loopback
import PacketReplay.Capture.Retransmission
import PacketReplay.Capture.CaptureFile
import PacketReplay.Capture.Opener
import PacketReplay.Capture.UdpQueue
import PacketReplay.Capture.TcpSession
import PacketReplay.Replay.HttpReplay
import PacketReplay.Replay.HttpCalls
import PacketReplay.Replay.OpenSocket
import PacketReplay.Replay.Program
import PacketReplay.Replay.UdpReplay
import PacketReplay.Replay.UdpLifetimes
import PacketReplay.Replay.UdpTranscript
import PacketReplay.Replay.UdpProgram
import PacketReplay.Replay.PythonReplay
import PacketReplay.Replay.HttpWire
import PacketReplay.Replay.HttpExchange
import PacketReplay.Replay.HttpProgram
import PacketReplay.Replay.HttpSockets
import PacketReplay.Script.Properties
import PacketReplay.Script.Serializer
import PacketReplay.Script.SubTokens
import PacketReplay.Script.WrittenActions
import PacketReplay.Script.TokenRanges
import PacketReplay.Script.ActionSections
import PacketReplay.Script.TruncatedBlock
import PacketReplay.Script.RoundTrip
import PacketReplay.Script.ReadTotal
import PacketReplay.Script.CompletedScript
import PacketReplay.PacketValidator
import PacketReplay.ValidatorBounds
import PacketReplay.Python.Dns
import PacketReplay.Python.SkipName
import PacketReplay.Python.AnyPacket
import PacketReplay.Python.PythonCall
import PacketReplay.Replay.HttpActions
