import Rtai.Up.TimedList
import Rtai.Up.PosixSemaphores
import Rtai.Fifos.Requests
import Rtai.Fifos.Semaphores
import Rtai.Fifos.Resize
import Rtai.Fifos.Names
import Rtai.Up.Barrier
import Rtai.Posix.Recursion
import Rtai.Posix.ConditionLists
import Rtai.Heap.FreedTwice
import Rtai.Heap.Reservoir
import Rtai.Bits.Waits
import Rtai.Bits.Combined
import Rtai.Lxrt.Conditions
import Rtai.Lxrt.RwlockExclusion
import Rtai.Lxrt.RwlockWaiters
import Rtai.Pqueues.Opening
import Rtai.Pqueues.Storage
import Rtai.Pqueues.FailedCalls
import Rtai.Lxrt.Proxies
import Rtai.Lxrt.IdentifierMeaning
import Rtai.Lxrt.BufferRegions
import Rtai.NetRpc.StubTable
import Rtai.NetRpc.RemotePlaces
import Rtai.NetRpc.PortRuns
import Rtai.NetRpc.ReplyRuns
import Rtai.NetRpc.Bounds
import Rtai.NetRpc.AsyncReplies
import Rtai.Lxrt.TickQueueSound
import Rtai.Up.DeadlineRuns
import Rtai.Irq.RequestRuns
import Rtai.Tbx.Interrupted
import Rtai.Tbx.TimedReceive
import Rtai.Up.RateMonotonic
import Rtai.Up.TaskDeletion
import Rtai.Lxrt.RwlockConditional
import Rtai.Lxrt.TimedConditions
import Rtai.Lxrt.Kthreads
import Rtai.Lxrt.PosixMutexes
import Rtai.Lxrt.Registry
import Rtai.Lxrt.SyncReplies
import Rtai.Tasklets.Removal
import Rtai.Lxrt.QblkMemory
import Rtai.Watchdog.Parameters
import Rtai.Names.Codes
import Rtai.NetRpc.Dotted
import Rtai.NetRpc.PortSlots
import Rtai.Shmem.MappingRuns
import Rtai.Serial.Output
import Rtai.Serial.Input
import Rtai.NewLxrt.StackRing
import Rtai.Print.Ll2a
import Rtai.Print.Printk
import Rtai.RtNet.Sockets
import Rtai.Up.ReadyInsertion
import Rtai.Spdrv.Uart
import Rtai.NewLxrt.SoftPriorities
import Rtai.Up.MessageQueues
import Rtai.Up.MessageHistory
import Rtai.NewLxrt.SpinLocks
