import HyperPoc.Library.BitField
import HyperPoc.Library.LinkedList
import HyperPoc.Library.Memory
import HyperPoc.Library.RadixTable
import HyperPoc.Library.Run
import HyperPoc.Library.TicketLock
import HyperPoc.Library.Packing
import HyperPoc.Library.LastWrite
import HyperPoc.Library.RunSearch
import HyperPoc.Library.RegisterFile
import HyperPoc.Library.LongDivision
import HyperPoc.Library.Numeral
import HyperPoc.Library.A64
import HyperPoc.Library.StackFrame
import HyperPoc.Library.CriticalSection
import HyperPoc.Library.AddressSpaces
import HyperPoc.Basic
import HyperPoc.PageAlloc
import HyperPoc.PageAllocRuns
import HyperPoc.PageAllocRanges
import HyperPoc.PageAllocFree
import HyperPoc.Lib
import HyperPoc.PageAllocInit
import HyperPoc.Mmu
import HyperPoc.PageSites
import HyperPoc.Timer
import HyperPoc.Printf.Number
import HyperPoc.Printf.Scanner
import HyperPoc.Spinlock
import HyperPoc.SpinlockRuns
import HyperPoc.PageAllocConcurrent
import HyperPoc.Stage2.Architecture
import HyperPoc.Stage2.Order
import HyperPoc.Stage2.Tree
import HyperPoc.Stage2.Walk
import HyperPoc.Stage2.Map
import HyperPoc.Stage2.Ownership
import HyperPoc.Stage2.Refinement
import HyperPoc.Stage2.NewTables
import HyperPoc.SpInit
import HyperPoc.Calltrace
import HyperPoc.Vector
import HyperPoc.Stage2.Translation
import HyperPoc.Gic.ListRegister
import HyperPoc.Gic.Injection
import HyperPoc.Gic.Delivery
import HyperPoc.Gic.IrqRuns
import HyperPoc.Gic.Physical
import HyperPoc.Gic.Retarget
import HyperPoc.Gic.Init
import HyperPoc.Mmio
import HyperPoc.Vm.State
import HyperPoc.Vm.Create
import HyperPoc.Vm.Sites
import HyperPoc.Vm.Layout
import HyperPoc.Vm.GuestMap
import HyperPoc.Vm.Trap
import HyperPoc.Vm.Created
import HyperPoc.Vm.Isolation
import HyperPoc.Vm.Loading
import HyperPoc.Virtio.Queue
import HyperPoc.Virtio.Space
import HyperPoc.Virtio.Chain
import HyperPoc.Virtio.Process
import HyperPoc.Virtio.BlockDevice
import HyperPoc.Virtio.Termination
import HyperPoc.Virtio.Handler
import HyperPoc.Virtio.Confinement
import HyperPoc.Virtio.Configure
import HyperPoc.Virtio.Addresses
import HyperPoc.Virtio.Permissions
import HyperPoc.Virtio.Rings
import HyperPoc.Virtio.Turns
import HyperPoc.Virtio.Exclusion
import HyperPoc.Virtio.Restart
import HyperPoc.Virtio.Completion
import HyperPoc.Board
import HyperPoc.Vgic.Registers
import HyperPoc.Vgic.Irq
import HyperPoc.Vgic.Handlers
import HyperPoc.Vgic.Wiring
import HyperPoc.Vgic.Loops
import HyperPoc.Trap.Emulate
import HyperPoc.Vm.Trapping
import HyperPoc.Vm.Uses
import HyperPoc.Vm.Exhaustion
import HyperPoc.MmioRuns
import HyperPoc.Vgic.Setup
import HyperPoc.Vgic.Redistributor
import HyperPoc.Vgic.Store
import HyperPoc.Vgic.Encoders
import HyperPoc.Vgic.Enables
import HyperPoc.Vgic.Concurrent
import HyperPoc.Trap.Loads
import HyperPoc.Trap.Stores
import HyperPoc.Trap.StoredWord
import HyperPoc.Trap.Sync
import HyperPoc.Trap.LifeCycle
import HyperPoc.Trap.Unemulated
import HyperPoc.Trap.Contained
import HyperPoc.Trap.Wait
import HyperPoc.TrapPath
import HyperPoc.Vm.Extends
import HyperPoc.Trap.Survival
import HyperPoc.Vm.Tenants
import HyperPoc.Boot
import HyperPoc.Separation
import HyperPoc.FirstVm
import HyperPoc.BringUp
import HyperPoc.VmCalltrace
import HyperPoc.Gic.Coverage
import HyperPoc.Gic.HostIrq
