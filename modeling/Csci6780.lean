import Csci6780.NodeSingleSender
import Csci6780.RequestsAfterUpload
import Csci6780.FtpPut
import Csci6780.FtpGet
import Csci6780.UnknownParticipants
import Csci6780.AddressRecords
import Csci6780.RejectedCommands
import Csci6780.ConcurrentRegistration
import Csci6780.ConcurrentMulticasts
import Csci6780.ReconnectRace
import Csci6780.ThreadPoolAccounting
import Csci6780.ThreadPoolConstructor
import Csci6780.WaitForIdlePool
import Csci6780.AnsweredTasks
import Csci6780.FileAccessWakeups
import Csci6780.ThreadSafeFileHandler
import Csci6780.BoundedQueue
import Csci6780.SenderOrder
import Csci6780.SendResults
import Csci6780.StaleTasks
import Csci6780.ConcurrentCommands
import Csci6780.RingJoins
import Csci6780.RingExits
import Csci6780.RingLookUps
import Csci6780.RingMessages
import Csci6780.DescriptorReuse
import Csci6780.ConnectedEndpoints
import Csci6780.MulticastReceiver
import Csci6780.PipelinedRequests
import Csci6780.TerminatedGets
import Csci6780.TerminateRequests
import Csci6780.SendForever
import Csci6780.RetriedUploads
import Csci6780.SendCalls
import Csci6780.CleanUps
import Csci6780.ReplayOrder
import Csci6780.IdSnapshots
import Csci6780.ParticipantTables
import Csci6780.ReportedInserts
import Csci6780.DirectoryListings
import Csci6780.ThreadPoolProgress
import Csci6780.TornReads
import Csci6780.ConcurrentRipples
import Csci6780.MessageChannel
import Csci6780.FtpService
import Csci6780.WireGroup
import Csci6780.PrintedMulticasts
