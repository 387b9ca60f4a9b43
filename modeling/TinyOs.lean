import TinyOs.Lib.PutInt
import TinyOs.Device.Modifiers
import TinyOs.Lib.BitmapScan
import TinyOs.Lib.Lists
import TinyOs.Lib.PutStr
import TinyOs.Memory.HeapPages
import TinyOs.Memory.AddressSpaces
import TinyOs.Memory.Exhaustion
import TinyOs.Memory.Abandoned
import TinyOs.Memory.PoolRecords
import TinyOs.Memory.Layout
import TinyOs.Memory.OnePage
import TinyOs.Thread.Dispatch
import TinyOs.Thread.ThreadStart
import TinyOs.Thread.RoundRobin
import TinyOs.Thread.InterruptFlag
import TinyOs.Kernel.Idt
import TinyOs.Kernel.Syscall
import TinyOs.Boot.KernelInit
import TinyOs.Thread.SwitchTo
import TinyOs.Userprog.Process
import TinyOs.Userprog.Tss
import TinyOs.Lib.Search
import TinyOs.Thread.InitThread
import TinyOs.Memory.GetAPage
import TinyOs.Memory.SelfMap
import TinyOs.Memory.TextBuffer
import TinyOs.Logic.Pio
import TinyOs.Boot.ReadDisk
import TinyOs.Boot.DiskTransfer
import TinyOs.Userprog.StartProcess
import TinyOs.Lib.Compare
import TinyOs.Thread.Guarded
import TinyOs.Device.Console
import TinyOs.Kernel.Pic
import TinyOs.Kernel.Exceptions
import TinyOs.Thread.Accounting
import TinyOs.Thread.Punctual
import TinyOs.Thread.Preempted
import TinyOs.Memory.UserPages
import TinyOs.Memory.SharedHeap
import TinyOs.Userprog.Privilege
import TinyOs.Device.Timer
import TinyOs.Boot.Startup
import TinyOs.Lib.Overlap
