import HyperPoc.Board
import HyperPoc.Vgic.Registers

/-! # Accesses to the trapped interrupt controller

A read handler gets the old content of the destination and gives back its result and the content
afterwards: registers that store nothing leave the old content. `cpu` is the cpu that runs the
handler. The handlers do not look at the size of the access.
-/
namespace HyperPoc.Vgic
open Library.Memory Gic
set_option autoImplicit false

def isSgi (intid : Int) : Bool := 0 ≤ intid && intid < 16
def isPpi (intid : Int) : Bool := 16 ≤ intid && intid < 32
def isSgiPpi (intid : Int) : Bool := isSgi intid || isPpi intid
def isSpi (intid : Int) : Bool := 32 ≤ intid

def vgicIrqEnable (b : Board) (cpu : Nat) (intid : Int) : Outcome Board :=
  if isSgiPpi intid || isSpi intid then .ok { b with gic := gicIrqEnable b.gic cpu intid.toNat }
  else .error (.panic "[vgic_irq_enable] invalid intid=%d\n")

def vgicIrqDisable (b : Board) (cpu : Nat) (intid : Int) : Outcome Board :=
  if isSgiPpi intid || isSpi intid then .ok { b with gic := gicIrqDisable b.gic cpu intid.toNat }
  else .error (.panic "[vgic_irq_disable] invalid intid=%d\n")

/-- The loops over the `n` records from `intid` on that assign to them. -/
def writeLoop (n vcpu : Nat) (intid : Int) (body : Board → Nat → Option IrqRef → Outcome Board) (b : Board) :
    Outcome Board :=
  (List.range n).foldlM (fun b (i : Nat) => do
    let irq ← vgicIrqGet b.hv vcpu (intid + i)
    body b i irq) b

/-- The loops over the `n` records from `intid` on that join one term of each. -/
def readLoop (n : Nat) (s : Hypervisor) (vcpu : Nat) (intid : Int) (term : Nat → VgicIrq → Nat) : Outcome Nat :=
  (List.range n).foldlM (fun val (i : Nat) => do
    let irq ← vgicIrqGet s vcpu (intid + i)
    let r ← deref irq
    return val ||| term i (readIrq s r)) 0

def enableTerm (i : Nat) (irq : VgicIrq) : Nat := if irq.enabled then sext32 (1 <<< i) else 0
def priorityTerm (i : Nat) (irq : VgicIrq) : Nat := irq.priority <<< (i * 8)
def targetTerm (i : Nat) (irq : VgicIrq) : Nat := irq.target <<< (i * 8)

/-- In the redistributor's handler the shifted priority is an `int`. -/
def signedPriorityTerm (i : Nat) (irq : VgicIrq) : Nat := sext32 (irq.priority <<< (i * 8))

/-- Writing a set-enable (`on`) or clear-enable register whose first interrupt is `intid`. -/
def writeEnables (b : Board) (cpu vcpu : Nat) (intid : Int) (val : Nat) (on : Bool) : Outcome Board :=
  writeLoop 32 vcpu intid (fun b i irq =>
    if val.testBit i then do
      let r ← deref irq
      if on then vgicIrqEnable (b.writeIrq r (.enabled true)) cpu (intid + i)
      else vgicIrqDisable (b.writeIrq r (.enabled false)) cpu (intid + i)
    else .ok b) b

def writePriorities (b : Board) (vcpu : Nat) (intid : Int) (val : Nat) : Outcome Board :=
  writeLoop 4 vcpu intid (fun b i irq => do
    let r ← deref irq
    return b.writeIrq r (.priority (val >>> (i * 8) &&& 0xff))) b

def writeTargets (b : Board) (cpu vcpu : Nat) (intid : Int) (val : Nat) : Outcome Board :=
  writeLoop 4 vcpu intid (fun b i irq => do
    let r ← deref irq
    let target := val >>> (i * 8) &&& 0xff
    let b := b.writeIrq r (.target target)
    if isSpi (intid + i) then
      .ok { b with gic := gicSetTargetByPeField b.gic b.spiNum cpu (intid + i).toNat target }
    else .error (.panic "[vgicd_mmio_write] invalid intid=%d\n")) b

def vgicdMmioRead (b : Board) (vcpu offset val : Nat) : Outcome (Int × Nat) := do
  let vm ← deref (b.hv.vcpus vcpu).vm
  match gicdReg offset with
  | some .ctlr =>
    let v ← deref (b.hv.vms vm).vgic
    return (0, (if (b.hv.vgics v).enableGrp1ns then 1 <<< 1 else 0) ||| (1 <<< 5 ||| 1 <<< 1))
  | some .typer => return (0, b.hv.gicdTyper % 2 ^ 32)
  | some .iidr => return (0, gicdR b.gic 0x8)
  | some .typer2 => return (0, gicdR b.gic 0xc)
  | some (.igroupr _) => return (0, 0xffffffff)
  | some (.isenabler n) | some (.icenabler n) =>
    let val ← readLoop 32 b.hv vcpu (n * 32 : Nat) enableTerm
    return (0, val)
  | some (.ipriorityr n) =>
    let val ← readLoop 4 b.hv vcpu (n * 4 : Nat) priorityTerm
    return (0, val)
  | some (.itargetsr n) =>
    let val ← readLoop 4 b.hv vcpu (n * 4 : Nat) targetTerm
    return (0, val)
  | some (.ispendr _) | some (.icpendr _) | some (.isactiver _) | some (.icactiver _) => return (0, val)
  | some (.icfgr _) | some (.irouter _) => return (0, val)
  | none => return (0, val)

def vgicdMmioWrite (b : Board) (cpu vcpu offset val : Nat) : Outcome (Board × Int) := do
  let vm ← deref (b.hv.vcpus vcpu).vm
  match gicdReg offset with
  | some .ctlr =>
    let v ← deref (b.hv.vms vm).vgic
    let vgic := { b.hv.vgics v with enableGrp1ns := val.testBit 1 }
    return ({ b with hv := { b.hv with vgics := Function.update b.hv.vgics v vgic } }, 0)
  | some .typer | some .iidr | some .typer2 | some (.igroupr _) => return (b, 0)
  | some (.isenabler n) =>
    let b ← writeEnables b cpu vcpu (n * 32 : Nat) val true
    return (b, 0)
  | some (.icenabler n) =>
    let b ← writeEnables b cpu vcpu (n * 32 : Nat) val false
    return (b, 0)
  | some (.ipriorityr n) =>
    let b ← writePriorities b vcpu (n * 4 : Nat) val
    return (b, 0)
  | some (.itargetsr n) =>
    let b ← writeTargets b cpu vcpu (n * 4 : Nat) val
    return (b, 0)
  | some (.irouter n) => return ({ b with gic := gicSetTargetByAffinity b.gic b.spiNum cpu n (val % 256) }, 0)
  | some (.ispendr _) | some (.icpendr _) | some (.isactiver _) | some (.icactiver _) => return (b, 0)
  | some (.icfgr _) => return (b, 0)
  | none => return (b, 0)

/-- The entry of `vm->vcpus` an access to the redistributors is for, if the frame exists. The
comparison with `nvcpu - 1` is one of `u32`. -/
def gicrFrame (s : Hypervisor) (vcpu offset : Nat) : Outcome (Option (Option Nat)) := do
  let vm ← deref (s.vcpus vcpu).vm
  let gicrIdx := offset / gicrStride % 2 ^ 32
  if (((s.vms vm).nvcpu - 1) % 2 ^ 32).toNat < gicrIdx then return none
  else if gicrIdx < vcpuMax then return some ((s.vms vm).vcpus gicrIdx)
  else .error .outOfBounds

/-- The handlers take the INTID from the offset in the whole window, not from that in the frame. -/
def gicrPriorityIntid (offset : Nat) : Int := toInt32 ((offset - 0x10400) / 4 * 4)

def vgicrMmioRead (b : Board) (vcpu offset val : Nat) : Outcome (Int × Nat) := do
  match ← gicrFrame b.hv vcpu offset with
  | none => return (-1, val)
  | some frame =>
    match gicrReg (offset % gicrStride) with
    | some .ctlr | some .waker => return (0, 0)
    | some .iidr =>
      let vcpu ← deref frame
      return (0, gicrR64 b.gic (b.hv.vcpus vcpu).cpuid 0x4)
    | some .typer =>
      let vcpu ← deref frame
      return (0, gicrR64 b.gic (b.hv.vcpus vcpu).cpuid 0x8)
    | some .igroupr0 => return (0, 0xffffffff)
    | some .isenabler0 | some .icenabler0 =>
      let vcpu ← deref frame
      let val ← readLoop 32 b.hv vcpu 0 enableTerm
      return (0, val)
    | some .ispendr0 | some .icpendr0 | some .isactiver0 | some .icactiver0 => return (0, 0)
    | some .ipriorityr =>
      let vcpu ← deref frame
      let val ← readLoop 4 b.hv vcpu (gicrPriorityIntid offset) signedPriorityTerm
      return (0, val)
    | some .icfgr0 => return (0, (List.range 16).foldl (fun val i => val ||| 0b10 <<< i) 0)
    | some .igrpmodr0 | none => return (-1, val)

def vgicrMmioWrite (b : Board) (cpu vcpu offset val : Nat) : Outcome (Board × Int) := do
  match ← gicrFrame b.hv vcpu offset with
  | none => return (b, -1)
  | some frame =>
    match gicrReg (offset % gicrStride) with
    | some .ctlr | some .iidr | some .typer | some .waker | some .igroupr0 => return (b, 0)
    | some .isenabler0 =>
      let vcpu ← deref frame
      let b ← writeEnables b cpu vcpu 0 val true
      return (b, 0)
    | some .icenabler0 =>
      let vcpu ← deref frame
      let b ← writeEnables b cpu vcpu 0 val false
      return (b, 0)
    | some .ispendr0 | some .icpendr0 | some .isactiver0 | some .icactiver0 => return (b, 0)
    | some .ipriorityr =>
      let vcpu ← deref frame
      let b ← writePriorities b vcpu (gicrPriorityIntid offset) val
      return (b, 0)
    | some .icfgr0 | some .igrpmodr0 => return (b, 0)
    | none => return (b, -1)

end HyperPoc.Vgic
