import LxcHttpServer.TimerPromises
import LxcHttpServer.Responser
import LxcHttpServer.HttpServer
import LxcHttpServer.RaisedExceptions
import LxcHttpServer.WorkerFrames
import LxcHttpServer.DescriptorOwnership
import LxcHttpServer.EventLoop
import LxcHttpServer.AlarmBatches
import LxcHttpServer.LineBuffer
import LxcHttpServer.RequestBodies
import LxcHttpServer.RequestSequences
import LxcHttpServer.ResourceRoot
import LxcHttpServer.PoolShutdown
import LxcHttpServer.LogRecords
import LxcHttpServer.RecycledBuffers
import LxcHttpServer.HeaderFields
import LxcHttpServer.StaticFiles
import LxcHttpServer.ElasticTasks
import LxcHttpServer.ElasticWakeups
import LxcHttpServer.ElasticRelease
import LxcHttpServer.ElasticManager
import LxcHttpServer.ContentLengths
import LxcHttpServer.CgiInput
import LxcHttpServer.CgiRelease
import LxcHttpServer.StringSplit
import LxcHttpServer.BufferQueue
import LxcHttpServer.MemoryPage
import LxcHttpServer.GetInstance
import LxcHttpServer.ProcessOrder
import LxcHttpServer.ProcessRuns
import LxcHttpServer.AlarmSignals
import LxcHttpServer.AcceptedConnections
import LxcHttpServer.ProgramSimulations
import LxcHttpServer.WorkerRuns
import LxcHttpServer.PoolProgress
import LxcHttpServer.ProcessPasses
import LxcHttpServer.ProgramOutputs
import LxcHttpServer.Replies
import LxcHttpServer.RequestHeads
import LxcHttpServer.CgiRecords
import LxcHttpServer.LoggerShutdown
import LxcHttpServer.ElasticSlots
import LxcHttpServer.AbandonedConnections
import LxcHttpServer.GetRequests
import LxcHttpServer.IdleConnections
