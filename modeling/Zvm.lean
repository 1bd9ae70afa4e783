import Zvm.Os.GuestMemoryTiles
import Zvm.Os.LoadImage
import Zvm.Stage2.Accounting
import Zvm.Stage2.PartitionRuns
import Zvm.Stage2.GuestAccess
import Zvm.Vcpu.Vttbr
import Zvm.Life.Delete
import Zvm.Life.CreateOrder
import Zvm.Life.CpuOn
import Zvm.Life.VmCalls
import Zvm.Vgic.Physical
import Zvm.Vgic.Bookkeeping
import Zvm.Vgic.PrivateInts
import Zvm.Vgic.Sgi
import Zvm.Zshm.Windows
import Zvm.Zshm.Robust
import Zvm.Vdev.Vpl011
import Zvm.Vdev.Owners
import Zvm.Trap.Operand
import Zvm.Heap.Refuse
import Zvm.Kernel.FrozenClock
import Zvm.Kernel.Timers
import Zvm.Kernel.Poll
import Zvm.Kernel.Mutex
import Zvm.Kernel.MsgQueue
import Zvm.Kernel.Queue
import Zvm.Kernel.WorkBarrier
import Zvm.Kernel.WorkCancel
import Zvm.Kernel.WorkDelay
