import SbOS.Ext2.InodeHeaders
import SbOS.Ext2.Mount
import SbOS.Ext2.SectorCounts
import SbOS.Ext2.OpenFiles
import SbOS.Mmu.UserPointers
import SbOS.Mmu.FrameSearch
import SbOS.Mmu.PhysicalMap
import SbOS.Mmu.KernelClosed
import SbOS.Kernel.RelistRuns
import SbOS.Kernel.ParseNum
import SbOS.Libc.Output
import SbOS.Kernel.PrintComposition
import SbOS.Kernel.HashmapRuns
import SbOS.Kernel.HeapConservation
import SbOS.Vfs.Confinement
import SbOS.Sched.Reachability
import SbOS.Sched.Waiting
import SbOS.Sched.Killing
import SbOS.Vfs.Offsets
import SbOS.Vfs.Pipes
import SbOS.Net.Delivery
import SbOS.Net.Window
import SbOS.Net.Handshake
import SbOS.Net.Ports
import SbOS.Net.Arp
import SbOS.Net.Sending
import SbOS.Libc.Qsort
import SbOS.Crypto.Random
import SbOS.Drivers.Ahci
import SbOS.Drivers.Input
import SbOS.Vfs.NormalForm
import SbOS.Shell.Execution
import SbOS.Shell.EmptyLines
import SbOS.Sftp.Transfers
