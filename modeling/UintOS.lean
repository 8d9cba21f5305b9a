import UintOS.Memory.Heap.Coalescing
import UintOS.Memory.Paging.Circulation
import UintOS.Memory.Paging.KernelHalf
import UintOS.Memory.Paging.Isolation
import UintOS.Memory.Vmm
import UintOS.Memory.VmmProcess
import UintOS.Network.Udp
import UintOS.Network.Dns.Completion
import UintOS.Network.Dns.Caching
import UintOS.Network.Dhcp.Transactions
import UintOS.Network.Buffers
import UintOS.Network.Checksum
import UintOS.Network.Tcp.Discipline
import UintOS.Network.Tcp.Slots
import UintOS.Network.Tcp.Stream
import UintOS.Filesystem.Cache.Transparency
import UintOS.Filesystem.Cache.Lists
import UintOS.Filesystem.Vfs.Concurrent
import UintOS.Filesystem.Ext2.BlockIo
import UintOS.Filesystem.Ext2.Cursor
import UintOS.Filesystem.Ext2.Metadata
import UintOS.Filesystem.Exfat.Session
import UintOS.Kernel.Scheduler.Order
import UintOS.Kernel.Scheduler.ExitStatus
import UintOS.Kernel.Scheduler.Sleep
import UintOS.Kernel.Sync.Mutex
import UintOS.Kernel.Sync.Condition
import UintOS.Kernel.Ipc.Locks
import UintOS.Kernel.Modules.Registry
import UintOS.Kernel.Security.Access
import UintOS.Kernel.Devices.Tree
import UintOS.Kernel.Threads.Ids
import UintOS.Kernel.Threads.WellFormed
import UintOS.Kernel.Logging.Buffer
import UintOS.Kernel.Irq.Chains
import UintOS.Drivers.Nvme
import UintOS.Drivers.Rtl8139
