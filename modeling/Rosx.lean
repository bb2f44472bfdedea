import Rosx.TaskRun
import Rosx.Critical
import Rosx.TimerRun
import Rosx.MutexRun
import Rosx.SemRun
import Rosx.QueueCreated
import Rosx.QueueBlock
import Rosx.EventRun
import Rosx.BlockPool
import Rosx.Tasklet
import Rosx.WaitRun
import Rosx.TimerClock
import Rosx.MutexPrio
import Rosx.SchedRun
import Rosx.SemTimers
import Rosx.SemWindow
import Rosx.MutexTickRun
import Rosx.Resume
import Rosx.SliceRun
import Rosx.CpuRun
import Rosx.SemChain
import Rosx.Detached
import Rosx.WakeRun
import Rosx.BlockAlloc
import Rosx.Masking
import Rosx.Services
import Rosx.QueueTimed
import Rosx.WaitEnds
import Rosx.WaitEndsRun
import Rosx.Lib.Turns
import Rosx.RoundRobin
import Rosx.BlockRun
import Rosx.Stacks
import Rosx.TaskList
import Rosx.Logger
import Rosx.BasePrio
import Rosx.Irq
import Rosx.TaskletDisable
import Rosx.WaitChains
import Rosx.WaitTimeout
import Rosx.Device
import Rosx.WakeQueues
import Rosx.EventWake
import Rosx.TimerRearm
import Rosx.QueueTimeout
import Rosx.QueueDelete
import Rosx.Lib.Results
import Rosx.QueueFresh
import Rosx.PoolFresh
import Rosx.ReadyOrder
import Rosx.Durations
import Rosx.MutexTimeout
import Rosx.Printk
import Rosx.Strto
import Rosx.RbRun
import Rosx.Boot
import Rosx.Tokens
