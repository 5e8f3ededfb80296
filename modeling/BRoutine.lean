import BRoutine.Transition
import BRoutine.Mutex.Model
import BRoutine.Mutex.Exclusion
import BRoutine.Mutex.Wakeup
import BRoutine.Cond.Model
import BRoutine.Cond.Signal
import BRoutine.Epoll.Timer
import BRoutine.Epoll.Expiry
import BRoutine.Epoll.Registration
import BRoutine.Cond.TimeWait
import BRoutine.Cond.WakeOnce
import BRoutine.Hook.Events
import BRoutine.Hook.Poll
import BRoutine.Hook.Batch
import BRoutine.Hook.Report
import BRoutine.Scheduler.Context
import BRoutine.Scheduler.MainHome
import BRoutine.Custody
import BRoutine.Task.Queue
import BRoutine.Task.QueueInvariant
import BRoutine.Task.QueueSteps
import BRoutine.Task.Fifo
import BRoutine.Scheduler.Leave
import BRoutine.Hook.Interest
import BRoutine.Hook.Forever
import BRoutine.Deadline
import BRoutine.Scheduler.Init
import BRoutine.Filing
import BRoutine.Solo.Model
import BRoutine.Solo.Sound
import BRoutine.Solo.Steps
import BRoutine.Solo.Fifo
import BRoutine.Solo.Loop
import BRoutine.Solo.Stacks
import BRoutine.Recycle.Model
import BRoutine.Recycle.Sound
import BRoutine.Recycle.Steps
import BRoutine.Recycle.Reuse
import BRoutine.Machine.Memory
import BRoutine.Machine.X86
import BRoutine.Context.Swap
import BRoutine.Context.Switch
import BRoutine.Hook.Threads
import BRoutine.Hook.Lifetime
import BRoutine.Hook.Overlap
import BRoutine.Hook.Files
import BRoutine.Hook.Calls
import BRoutine.Hook.Blocking
import BRoutine.Hook.Transparent
import BRoutine.Hook.Records
import BRoutine.Hook.Failure
import BRoutine.Hook.Transfer
import BRoutine.Intrusive
import BRoutine.Levels
import BRoutine.Steal.Queues
import BRoutine.Steal.Steal
import BRoutine.Cond.Relock
import BRoutine.Steal.Scan
import BRoutine.Cond.Reacquire
import BRoutine.Hook.Receive
import BRoutine.Hook.Retry
import BRoutine.Hook.Timeouts
import BRoutine.Task.PushAll
import BRoutine.Task.Shape
import BRoutine.Task.Count
import BRoutine.Cond.WaitList
import BRoutine.Epoll.Wheel
import BRoutine.Epoll.Turns
import BRoutine.Epoll.StepBack
import BRoutine.LockOrder
import BRoutine.Task.Locks
import BRoutine.Scheduler.Pairing
import BRoutine.Epoll.Race
import BRoutine.Epoll.Refine
import BRoutine.Scheduler.TaskOwners
import BRoutine.Context.Stacks
import BRoutine.Monitor
import BRoutine.Recycle.Keep
import BRoutine.Recycle.Nodes
import BRoutine.Recycle.Pools
import BRoutine.Scheduler.Distribute
import BRoutine.Scheduler.Handshake
import BRoutine.Scheduler.OneThread
import BRoutine.Scheduler.Places
import BRoutine.Scheduler.Singleton
import BRoutine.Scheduler.Waiting
import BRoutine.Solo.Refine
import BRoutine.Cond.Shared
import BRoutine.Task.Progress
