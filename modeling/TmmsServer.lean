import TmmsServer.Lib.Words
import TmmsServer.Lib.Feed
import TmmsServer.Lib.Gather
import TmmsServer.Lib.Wheel
import TmmsServer.Lib.Sha256
import TmmsServer.Lib.Double
import TmmsServer.Lib.Interleave
import TmmsServer.Lib.Loop
import TmmsServer.Lib.Pace
import TmmsServer.Lib.Ticker
import TmmsServer.Lib.Registry
import TmmsServer.Lib.Epoll
import TmmsServer.Lib.Pieces
import TmmsServer.Lib.Decimal
import TmmsServer.Lib.Newest
import TmmsServer.Lib.Scan
import TmmsServer.Mmedia.Bytes
import TmmsServer.Mmedia.Packet
import TmmsServer.Net.MsgBuffer
import TmmsServer.Net.MsgBufferQueue
import TmmsServer.Net.TcpConnection
import TmmsServer.Net.TcpOutput
import TmmsServer.Net.TimingWheel
import TmmsServer.Net.WheelAccuracy
import TmmsServer.Net.IdleTimeout
import TmmsServer.Net.RecurringTimer
import TmmsServer.Net.TimerTicks
import TmmsServer.Net.WheelClock
import TmmsServer.Net.EventLoop
import TmmsServer.Net.WriteWakeup
import TmmsServer.Net.WriteTermination
import TmmsServer.Net.UdpSocket
import TmmsServer.Net.TextContext
import TmmsServer.Net.TextFraming
import TmmsServer.Rtmp.ChunkReader
import TmmsServer.Rtmp.ChunkResume
import TmmsServer.Rtmp.ChunkBounds
import TmmsServer.Rtmp.ChunkStreams
import TmmsServer.Rtmp.ChunkWriter
import TmmsServer.Rtmp.ChunkEncoding
import TmmsServer.Rtmp.ChunkDecoding
import TmmsServer.Rtmp.ChunkRoundTrip
import TmmsServer.Rtmp.ExtendedTimestamp
import TmmsServer.Rtmp.OutQueue
import TmmsServer.Rtmp.OutDiscipline
import TmmsServer.Base.StringUtils
import TmmsServer.Rtmp.Amf
import TmmsServer.Rtmp.AmfFaults
import TmmsServer.Rtmp.AmfGrammar
import TmmsServer.Rtmp.AmfBounds
import TmmsServer.Rtmp.Command
import TmmsServer.Rtmp.CommandSafety
import TmmsServer.Rtmp.AmfArguments
import TmmsServer.Rtmp.StreamName
import TmmsServer.Rtmp.MessageDispatch
import TmmsServer.Rtmp.MediaDelivery
import TmmsServer.Rtmp.Transactions
import TmmsServer.Rtmp.SessionName
import TmmsServer.Rtmp.HandShake
import TmmsServer.Rtmp.HandShakePackets
import TmmsServer.Rtmp.HandShakeRun
import TmmsServer.Rtmp.HandShakeDigest
import TmmsServer.Rtmp.AmfObjects
import TmmsServer.Rtmp.ChunkSizes
import TmmsServer.Rtmp.RtmpPair
import TmmsServer.Rtmp.ChunkSizeAgreement
import TmmsServer.Rtmp.AmfNumbers
import TmmsServer.Rtmp.AmfArrays
import TmmsServer.Rtmp.AckWindow
import TmmsServer.Rtmp.MessageLength
import TmmsServer.Rtmp.ParserBounds
import TmmsServer.Rtmp.ChunkProgress
import TmmsServer.Rtmp.HeaderRoom
import TmmsServer.Rtmp.UserControl
import TmmsServer.Rtmp.CommandRoom
import TmmsServer.Net.TcpServer
import TmmsServer.Net.ServerConnections
import TmmsServer.Live.TimeCorrector
import TmmsServer.Live.AudioVideo
import TmmsServer.Base.Splitting
import TmmsServer.Rtmp.ClientUrl
import TmmsServer.Rtmp.HandShakeEcho
import TmmsServer.Live.CodecHeader
import TmmsServer.Base.Env
import TmmsServer.Lib.Runs
import TmmsServer.Lib.LockOrder
import TmmsServer.Net.TaskQueue
import TmmsServer.Net.TaskRuns
import TmmsServer.Net.TaskWakeup
import TmmsServer.Net.TaskDeadlock
import TmmsServer.Net.TcpClient
import TmmsServer.Net.ClientLifecycle
import TmmsServer.Net.ClientRefused
import TmmsServer.Rtmp.MessageLink
import TmmsServer.Net.LoopThread
import TmmsServer.Rtmp.HandShakePair
import TmmsServer.Rtmp.ConnectedPair
import TmmsServer.Rtmp.PairOpens
import TmmsServer.Lib.Watch
import TmmsServer.Net.Acceptor
import TmmsServer.Net.TcpInput
import TmmsServer.Net.UdpInput
import TmmsServer.Net.SocketLoop
import TmmsServer.Net.LoopPool
