import UninstallObserver.Lib.Outcome
import UninstallObserver.Lib.Scopes
import UninstallObserver.Lib.Compositional
import UninstallObserver.Lib.Emission
import UninstallObserver.Lib.ByteOrder
import UninstallObserver.Lib.CallGraph
import UninstallObserver.Lib.TwoRuns
import UninstallObserver.Lib.Runs
import UninstallObserver.Lib.Traces
import UninstallObserver.Lib.DelayQueue
import UninstallObserver.Lib.LinkedCells
import UninstallObserver.Lib.ArrayHeap
import UninstallObserver.Lib.HeapAccounts
import UninstallObserver.Lib.Printf
import UninstallObserver.Jce.BufferReader
import UninstallObserver.Jce.Skip
import UninstallObserver.Jce.SkipFuel
import UninstallObserver.Jce.InputStream
import UninstallObserver.Jce.Inherited
import UninstallObserver.Jce.ReaderLaws
import UninstallObserver.Jce.SkipCalls
import UninstallObserver.Jce.SkipBounds
import UninstallObserver.Jce.SkipCycles
import UninstallObserver.Jce.TypedReads
import UninstallObserver.Jce.Accepts
import UninstallObserver.Jce.Searches
import UninstallObserver.Jce.ReaderMemory
import UninstallObserver.Jce.OutputStream
import UninstallObserver.Jce.BufferWriter
import UninstallObserver.Jce.WriterRuns
import UninstallObserver.Jce.Types
import UninstallObserver.Jce.Consume
import UninstallObserver.Jce.WireForms
import UninstallObserver.Jce.IntegerTypes
import UninstallObserver.Jce.LengthPrefixed
import UninstallObserver.Jce.RoundTrip
import UninstallObserver.Jce.Normalises
import UninstallObserver.Jce.RawArrays
import UninstallObserver.Jce.PassOver
import UninstallObserver.Jce.SchemaEvolution
import UninstallObserver.Jce.Refuses
import UninstallObserver.Jce.Truncated
import UninstallObserver.Jce.StreamWrites
import UninstallObserver.Jce.BufferedStream
import UninstallObserver.Jce.WriterAccounts
import UninstallObserver.Jce.Unknown
import UninstallObserver.Jce.BufferWriterBuff
import UninstallObserver.Jce.FixedWriterRuns
import UninstallObserver.Jce.MapBufferReader
import UninstallObserver.Jce.GuardedReads
import UninstallObserver.Jce.Rows
import UninstallObserver.Jce.ReadRows
import UninstallObserver.Jce.SkipAgrees
import UninstallObserver.Observer.Messages
import UninstallObserver.Observer.MessageRoundTrip
import UninstallObserver.Observer.DecodeRuns
import UninstallObserver.Observer.WellFormed
import UninstallObserver.Observer.EarlierValues
import UninstallObserver.Observer.IsServerAlive
import UninstallObserver.Observer.FileDeleteObserver
import UninstallObserver.Observer.OnDelete
import UninstallObserver.Observer.Daemon
import UninstallObserver.Observer.Handle
import UninstallObserver.Observer.HandleReturns
import UninstallObserver.Observer.Requests
import UninstallObserver.Observer.CutMessages
import UninstallObserver.Observer.MessageSequences
import UninstallObserver.Observer.Connections
import UninstallObserver.Observer.Interleavings
import UninstallObserver.Observer.ConnectionSockets
import UninstallObserver.Observer.Startup
import UninstallObserver.Observer.Lifetime
import UninstallObserver.Observer.EventQueue
import UninstallObserver.Observer.QueueRuns
import UninstallObserver.Observer.Inotify
import UninstallObserver.Observer.ThreadFunc
import UninstallObserver.Observer.WatchRuns
import UninstallObserver.Observer.WatchResources
import UninstallObserver.Observer.Batches
import UninstallObserver.Observer.BatchIndependence
import UninstallObserver.Observer.LostWatch
import UninstallObserver.Observer.Supersession
import UninstallObserver.Observer.WatchPath
import UninstallObserver.Observer.ObserverThread
import UninstallObserver.Observer.ObserverFollows
import UninstallObserver.Observer.ObserverTraces
import UninstallObserver.Observer.Jobs
import UninstallObserver.Observer.DaemonJobs
import UninstallObserver.Client.UninstallMonitor
import UninstallObserver.Client.UninstallReportService
import UninstallObserver.Client.Apps
import UninstallObserver.Client.Agreement
import UninstallObserver.Client.Origins
import UninstallObserver.Observer.NativeFileObserver
