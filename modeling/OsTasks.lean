import OsTasks.Lib.Machine
import OsTasks.Lib.Queues
import OsTasks.Lib.Loop
import OsTasks.Lib.LinkedList
import OsTasks.Lib.Integers
import OsTasks.Lib.Potential
import OsTasks.Lib.SerialOrder
import OsTasks.Sched.ClassPrio
import OsTasks.Sched.Preempt
import OsTasks.Sched.FairRun
import OsTasks.Sched.Order
import OsTasks.Sched.RoundRobin
import OsTasks.Sched.Slice
import OsTasks.Sched.Promotion
import OsTasks.Sched.Waiting
import OsTasks.Sched.Syscalls
import OsTasks.Sched.Timeline
import OsTasks.Sched.InOrder
import OsTasks.Sched.Serving
import OsTasks.Shell.Sequence
import OsTasks.Shell.Conditional
import OsTasks.Shell.Pipeline
import OsTasks.Shell.Skipped
import OsTasks.Shell.Background
import OsTasks.Shell.Comment
import OsTasks.Shell.Streams
import OsTasks.Shell.ExitStatus
import OsTasks.Shell.Visited
import OsTasks.Shell.Target
import OsTasks.Shell.FailedOpen
import OsTasks.Shell.Bounds
import OsTasks.Shell.Progress
import OsTasks.Shell.Words
import OsTasks.Shell.Plumbing
import OsTasks.Shell.Layout
import OsTasks.Shell.Trace
import OsTasks.Fat.Geometry
import OsTasks.Fat.Contract
import OsTasks.Fat.ReadLoop
import OsTasks.Fat.Walk
import OsTasks.Fat.Directory
import OsTasks.Fat.RootChain
import OsTasks.Fat.Allocator
import OsTasks.Fat.Linked
import OsTasks.Fat.Names
import OsTasks.Fat.Path
import OsTasks.Fat.Resolve
import OsTasks.Fat.Server
