import HyperPoc.Mmio
import HyperPoc.Mmu

/-! # The hypervisor's records

VMs, vcpus and their interrupt controllers are elements of static arrays; a pointer to one is its
index and `NULL` is `none`. Page tables, frames and images live in host memory.
-/
namespace HyperPoc
set_option autoImplicit false

structure VgicIrq where
  priority : Nat
  target : Nat
  enabled : Bool
  igroup : Bool

structure VgicCpu where
  used : Bool
  usedLr : BitVec 16
  sgis : Nat → VgicIrq
  ppis : Nat → VgicIrq

structure Vgic where
  used : Bool
  maxSpiIntid : Int
  spiNums : Int
  enableGrp1ns : Bool
  spis : Nat

inductive VcpuState where
  | unused
  | created
  | ready
  | running
  deriving DecidableEq

structure GicState where
  lr : Nat → Nat
  vmcrEl2 : Nat

structure Vcpu where
  elrEl2 : Nat
  spsrEl2 : Nat
  mpidrEl1 : Nat
  midrEl1 : Nat
  sctlrEl1 : Nat
  cntfrqEl0 : Nat
  state : VcpuState
  gic : GicState
  vgic : Option Nat
  vm : Option Nat
  cpuid : Nat

structure Vm where
  name : String
  nvcpu : Int
  vcpus : Nat → Option Nat
  stage2Pt : Nat
  vgic : Option Nat
  mmioList : Option Nat
  used : Bool

structure Guest where
  name : Option String
  start : Nat
  size : Nat
  stop : Nat

structure VmConfig where
  guestImg : Option Guest
  nvcpu : Int
  ramSize : Nat
  entrypoint : Nat

/-- Static data, host memory and the registers `create_vm` reads. -/
structure Hypervisor where
  host : Host
  vms : Nat → Vm
  vcpus : Nat → Vcpu
  vgics : Nat → Vgic
  vgicCpus : Nat → VgicCpu
  mmio : Nat → MmioInfo Handler
  gicLrMax : Nat
  gicdTyper : Nat
  ichVmcrEl2 : Nat

def Hypervisor.setVm (s : Hypervisor) (i : Nat) (vm : Vm) : Hypervisor := { s with vms := Function.update s.vms i vm }

def allocvm (s : Hypervisor) : Option (Hypervisor × Nat) :=
  match firstFree (fun i => !(s.vms i).used) vmMax with
  | some i => some (s.setVm i { s.vms i with used := true }, i)
  | none => none

def vgicCpuAlloc (s : Hypervisor) : Option (Hypervisor × Nat) :=
  match firstFree (fun i => !(s.vgicCpus i).used) vcpuMax with
  | some i => some ({ s with vgicCpus := Function.update s.vgicCpus i { s.vgicCpus i with used := true } }, i)
  | none => none

def resetIrqs (irqs : Nat → VgicIrq) (enabled : Bool) (target : Nat) : Nat → VgicIrq := fun i =>
  if i < 16 then { irqs i with enabled := enabled, target := target } else irqs i

def newVgicCpu (s : Hypervisor) (vcpuid : Nat) : Hypervisor × Option Nat :=
  match vgicCpuAlloc s with
  | none => (s, none)
  | some (s, i) =>
    let cpu := s.vgicCpus i
    ({ s with
        vgicCpus := Function.update s.vgicCpus i
          { cpu with
            usedLr := 0
            sgis := resetIrqs cpu.sgis true vcpuid
            ppis := resetIrqs cpu.ppis false vcpuid } },
      some i)

def vmGicStateInit (s : Hypervisor) (gic : GicState) : GicState :=
  { lr := fun i => if i < s.gicLrMax then 0 else gic.lr i, vmcrEl2 := s.ichVmcrEl2 }

def vcpuAlloc (s : Hypervisor) : Option (Hypervisor × Nat) :=
  match firstFree (fun i => (s.vcpus i).state == .unused) vcpuMax with
  | some i => some ({ s with vcpus := Function.update s.vcpus i { s.vcpus i with state := .created } }, i)
  | none => none

def newVcpu (s : Hypervisor) (vm vcpuid entrypoint : Nat) : Hypervisor × Option Nat :=
  match vcpuAlloc s with
  | none => (s, none)
  | some (s, i) =>
    let (s, vgic) := newVgicCpu s vcpuid
    ({ s with
        vcpus := Function.update s.vcpus i
          { s.vcpus i with
            vm := some vm
            cpuid := vcpuid
            elrEl2 := entrypoint
            spsrEl2 := 5 ||| 1 <<< 6 ||| 1 <<< 7 ||| 1 <<< 8 ||| 1 <<< 9
            mpidrEl1 := 0xffffffff80000000 ||| vcpuid
            midrEl1 := 0x410fd081
            sctlrEl1 := 0x30c50830
            cntfrqEl0 := 62500000
            gic := vmGicStateInit s (s.vcpus i).gic
            vgic := vgic } },
      some i)

def vcpuReady (s : Hypervisor) : Option Nat → Outcome Hypervisor
  | none => .error .nullDereference
  | some i => .ok { s with vcpus := Function.update s.vcpus i { s.vcpus i with state := .ready } }

def gicMaxSpi (s : Hypervisor) : Int :=
  let maxSpiIntid : Int := 32 * ((s.gicdTyper &&& 0x1f) + 1 : Nat) - 1
  if maxSpiIntid > 1019 then 1019 else maxSpiIntid

def vgicAlloc (s : Hypervisor) : Option (Hypervisor × Nat) :=
  match firstFree (fun i => !(s.vgics i).used) vmMax with
  | some i => some ({ s with vgics := Function.update s.vgics i { s.vgics i with used := true } }, i)
  | none => none

end HyperPoc
