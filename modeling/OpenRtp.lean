import OpenRtp.Base.Run
import OpenRtp.Base.Table
import OpenRtp.Base.Heap
import OpenRtp.RtpPacket
import OpenRtp.PacketFrame
import OpenRtp.RtpSession
import OpenRtp.PacketOwnership
import OpenRtp.PacketRecord
import OpenRtp.RecordedLengths
import OpenRtp.LostBuffers
import OpenRtp.HeaderFields
import OpenRtp.Base.Keyed
import OpenRtp.Pthread
import OpenRtp.RtpThreadManager
import OpenRtp.EntryThreads
import OpenRtp.ThreadMap
import OpenRtp.ThreadHandles
import OpenRtp.RunningThreads
import OpenRtp.KillThread
import OpenRtp.SpawnAll
import OpenRtp.Base.CheckThenAct
import OpenRtp.ConcurrentAddThread
import OpenRtp.ConcurrentSpawn
import OpenRtp.Singletons
import OpenRtp.Base.LockedAppend
import OpenRtp.ConcurrentInsert
import OpenRtp.Base.BitFields
import OpenRtp.ReportBlock
import OpenRtp.ReportBlockServer
import OpenRtp.ReportBlockWire
import OpenRtp.SendLoop
import OpenRtp.Base.CounterLoop
import OpenRtp.Daemonize
import OpenRtp.KillAll
import OpenRtp.Base.CArith
import OpenRtp.ReportBlockArith
import OpenRtp.Base.ThrowingAppend
import OpenRtp.FailedInsert
import OpenRtp.Base.CircularList
import OpenRtp.CsrcList
import OpenRtp.PacketLists
import OpenRtp.Base.Cursor
import OpenRtp.ConcurrentScan
import OpenRtp.ThreadRegistry
import OpenRtp.AtomicScan
import OpenRtp.ConcurrentManager
import OpenRtp.ManagerProgress
import OpenRtp.ManagerThreads
import OpenRtp.UninterruptedCalls
import OpenRtp.Base.Descriptors
import OpenRtp.DaemonProcess
import OpenRtp.Base.Getopt
import OpenRtp.CommandLine
import OpenRtp.Exchange
import OpenRtp.ExchangeBlocks
import OpenRtp.BoundedExchange
