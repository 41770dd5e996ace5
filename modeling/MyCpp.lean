import MyCpp.Library.TransitionSystem
import MyCpp.Library.ListUpdate
import MyCpp.Library.FifoDispatch
import MyCpp.ThreadPool.PoolModel
import MyCpp.ThreadPool.PoolEffects
import MyCpp.ThreadPool.PoolDispatch
import MyCpp.ThreadPool.PoolPhases
import MyCpp.ThreadPool.PoolShutdown
import MyCpp.ThreadPool.PoolTermination
import MyCpp.BatchRetry.RetryModel
import MyCpp.BatchRetry.RetryEffects
import MyCpp.BatchRetry.RetryPlainLoop
import MyCpp.BatchRetry.RetryConservation
import MyCpp.Library.PointerHeap
import MyCpp.Library.LinkedSegment
import MyCpp.ListDemo.ListModel
import MyCpp.ListDemo.ListRepresentation
import MyCpp.ListDemo.ListRefinement
import MyCpp.ListDemo.ListInvariant
import MyCpp.Library.DigitReversal
import MyCpp.Kaprekar.KaprekarModel
import MyCpp.Kaprekar.KaprekarDigits
import MyCpp.Kaprekar.KaprekarConstant
import MyCpp.Library.FileStore
import MyCpp.Logging.LoggerModel
import MyCpp.Logging.LogReturns
import MyCpp.Logging.LogRotation
import MyCpp.ConfigWatch.ConfigModel
import MyCpp.ConfigWatch.WatchUpdates
import MyCpp.ConfigWatch.PyEquality
import MyCpp.Library.UniqueKeys
import MyCpp.Library.ObservationLog
import MyCpp.ConfigWatch.ChangeReports
import MyCpp.Library.ErrorCheckMutex
import MyCpp.SharedMemory.ShmModel
import MyCpp.SharedMemory.ShmCalls
import MyCpp.SharedMemory.ShmMutex
import MyCpp.SharedMemory.ShmContents
import MyCpp.SharedMemory.ShmTearing
import MyCpp.Logging.LogFallback
import MyCpp.Logging.LogLevels
import MyCpp.Library.RemoveScan
import MyCpp.LoadGenerator.LoadModel
import MyCpp.LoadGenerator.LoadFutures
import MyCpp.LoadGenerator.LoadProgress
import MyCpp.Library.FilterCount
import MyCpp.LoadGenerator.LoadInFlight
import MyCpp.RateDrivers.DriverModels
import MyCpp.RateDrivers.DriverTiming
import MyCpp.Library.DigitGaps
import MyCpp.Kaprekar.KaprekarTermination
import MyCpp.Library.DigitRearrangement
import MyCpp.Kaprekar.KaprekarArrangements
import MyCpp.Kaprekar.KaprekarWidth
import MyCpp.ListDemo.ListUndo
import MyCpp.Library.RoundRobin
import MyCpp.BatchRetry.RetryFairness
import MyCpp.BatchRetry.RetryTermination
import MyCpp.ConfigWatch.PathLookup
import MyCpp.ConfigWatch.JsonChanges
import MyCpp.Logging.LogBounds
import MyCpp.Library.CriticalSection
import MyCpp.Logging.LogConcurrency
import MyCpp.Library.StickyStream
import MyCpp.FileService.FileClient
import MyCpp.Library.LineInput
import MyCpp.SystemCommand.RunCommand
import MyCpp.SystemCommand.PrintCommand
import MyCpp.Library.StreamReader
import MyCpp.PersonService.ThriftProtocol
import MyCpp.PersonService.PersonStructs
import MyCpp.PersonService.PersonCalls
import MyCpp.PersonService.PersonRpc
import MyCpp.Library.BigEndian
import MyCpp.PersonService.BinaryProtocol
import MyCpp.PersonService.ConcurrentModel
import MyCpp.PersonService.ConcurrentReplies
import MyCpp.PersonService.ConcurrentProgress
import MyCpp.Broadcast.BroadcastModel
import MyCpp.Broadcast.BroadcastRuns
import MyCpp.Broadcast.BroadcastOutcome
import MyCpp.DataGenerator.XmlSnippets
import MyCpp.DataGenerator.OrdersJson
import MyCpp.Sctp.SctpClient
