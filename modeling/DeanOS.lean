import DeanOS.Vm.AccessEquivalence
import DeanOS.Vm.SwapEntry
import DeanOS.Task.FrameCount
import DeanOS.Task.Gap
import DeanOS.Blockdev.PartitionBounds
import DeanOS.Blockdev.AsyncRuns
import DeanOS.Minfs.Layout
import DeanOS.Minfs.Ordering
import DeanOS.Minfs.Buffers
import DeanOS.Vfs.Termination
import DeanOS.Vfs.Chmod
import DeanOS.Pipes.Runs
import DeanOS.World.Lifetime
import DeanOS.Sched.PipeCalls
import DeanOS.Sched.Failures
import DeanOS.Ramfs.Paths
import DeanOS.Files.Copies
import DeanOS.Sched.Sleep
import DeanOS.Sched.Sessions
import DeanOS.Sched.Handlers
import DeanOS.Sched.StartOrder
import DeanOS.Task.ExecveUndo
import DeanOS.Task.Kheap
import DeanOS.Files.Limits
import DeanOS.Fat32.Layout
import DeanOS.Random
import DeanOS.Rtc
import DeanOS.Net.Stream
import DeanOS.Net.Datagrams
import DeanOS.Keyboard
import DeanOS.Tty
import DeanOS.Shell.History
