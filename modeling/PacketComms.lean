import PacketComms.Lib.TransitionSystem
import PacketComms.Lib.Possibility
import PacketComms.Lib.RecursiveMutex
import PacketComms.Lib.Mutex
import PacketComms.Lib.PrefixCode
import PacketComms.Lib.KeyedLists
import PacketComms.Lib.Totals
import PacketComms.Lib.Fifo
import PacketComms.Lib.History
import PacketComms.Lib.Memory
import PacketComms.Lib.WeakBisimulation
import PacketComms.Lib.Liveness
import PacketComms.Bytes
import PacketComms.IdManager
import PacketComms.ComPacket
import PacketComms.VectorStream
import PacketComms.SimpleQueue.Liveness
import PacketComms.RoundTrip
import PacketComms.Muxer.FailedWrite
import PacketComms.Muxer.Handing
import PacketComms.Muxer.HelloFirst
import PacketComms.Muxer.Wire
import PacketComms.Muxer.Posting
import PacketComms.Muxer.Accounting
import PacketComms.Muxer.Sent
import PacketComms.Muxer.StopFlag
import PacketComms.Muxer.Pass
import PacketComms.Muxer.Stall
import PacketComms.Muxer.Shutdown
import PacketComms.Muxer.Sendable
import PacketComms.Muxer.Drain
import PacketComms.Muxer.Priority
import PacketComms.Muxer.FailedPost
import PacketComms.Muxer.Departure
import PacketComms.Muxer.HeartBeats
import PacketComms.Muxer.TestSocket
import PacketComms.Demuxer.ReadBytesCalls
import PacketComms.Demuxer.LengthField
import PacketComms.Demuxer.Decoding
import PacketComms.Demuxer.Handshake
import PacketComms.Demuxer.Assertion
import PacketComms.Demuxer.Greeting
import PacketComms.Demuxer.HangUp
import PacketComms.Demuxer.Ownership
import PacketComms.Demuxer.Dispatch
import PacketComms.Demuxer.Delivery
import PacketComms.Demuxer.Shutdown
import PacketComms.Demuxer.Departure
import PacketComms.Demuxer.IsSubscribed
import PacketComms.Demuxer.Registry
import PacketComms.Demuxer.Returning
import PacketComms.Link
import PacketComms.Link.Alarms
import PacketComms.Link.Control
import PacketComms.Link.Fairness
import PacketComms.Link.Handshake
import PacketComms.Link.Idling
import PacketComms.Link.Liveness
import PacketComms.Sync.Simulation
import PacketComms.Sync.Acknowledgement
import PacketComms.Sync.Fairness
import PacketComms.Sync.Liveness
