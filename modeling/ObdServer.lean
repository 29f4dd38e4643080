import ObdServer.AllocationFailure
import ObdServer.CheckSum
import ObdServer.Client
import ObdServer.EpollRuns
import ObdServer.EventLoopRefinement
import ObdServer.FrameContext
import ObdServer.MessageQueueLock
import ObdServer.PipelineLinks
import ObdServer.PipelineReception
import ObdServer.PipelineProgress
import ObdServer.PipelineShutdown
import ObdServer.PoolMemory
import ObdServer.PoolRace
import ObdServer.Recycling
import ObdServer.Session
import ObdServer.ThreadPoolCompletion
import ObdServer.ThreadPoolRaces
import ObdServer.Unescaping
import ObdServer.PipelineStoreRaces
