import HyperPoc.Gic.Physical
import HyperPoc.Vgic.Irq
import HyperPoc.Virtio.Queue

/-! # The machine under the trap handlers

The hypervisor's records with the general registers of each vcpu, the physical interrupt controller
and the static variables of the virtio backend. The code runs on a cpu that is passed along, and the
vcpu of that cpu is the one that trapped.
-/
namespace HyperPoc
open Library.Memory
set_option autoImplicit false

/-- A 32-bit `int` converted to `u64`. -/
def sext32 (n : Nat) : Nat := if n % 2 ^ 32 < 2 ^ 31 then n % 2 ^ 32 else n % 2 ^ 32 + (2 ^ 64 - 2 ^ 32)

/-- A word converted to a 32-bit `int`. -/
def toInt32 (n : Nat) : Int := if n % 2 ^ 32 < 2 ^ 31 then (n % 2 ^ 32 : Nat) else (n % 2 ^ 32 : Nat) - 2 ^ 32

def deref {α : Type} : Option α → Outcome α
  | none => .error .nullDereference
  | some a => .ok a

structure Virtio.Statics where
  ramdiskStart : Nat
  guestPagesz : Nat
  queueSel : Nat
  vq : VirtQueue
  signals : List Nat
  accesses : List Access

/-- `spiNum` is `g_spi_num`. -/
structure Board where
  hv : Hypervisor
  x : Nat → Nat → Nat
  gic : Gic.PhysGic
  spiNum : Nat
  virtio : Virtio.Statics

namespace Board

def setX (b : Board) (vcpu t v : Nat) : Board :=
  { b with x := Function.update b.x vcpu (Function.update (b.x vcpu) t v) }

def setMem (b : Board) (m : Mem) : Board := { b with hv := { b.hv with host := { b.hv.host with mem := m } } }

def setElr (b : Board) (vcpu v : Nat) : Board :=
  { b with hv := { b.hv with vcpus := Function.update b.hv.vcpus vcpu { b.hv.vcpus vcpu with elrEl2 := v } } }

def writeIrq (b : Board) (r : Vgic.IrqRef) (w : Vgic.IrqWrite) : Board := { b with hv := Vgic.writeIrq b.hv w r }

/-- The virtio backend as it runs for a vcpu of `vm`. -/
def backend (b : Board) (vm : Nat) : Virtio.Backend where
  host := b.hv.host
  stage2Pt := (b.hv.vms vm).stage2Pt
  ramdiskStart := b.virtio.ramdiskStart
  guestPagesz := b.virtio.guestPagesz
  queueSel := b.virtio.queueSel
  vq := b.virtio.vq
  signals := b.virtio.signals
  accesses := b.virtio.accesses

def setBackend (b : Board) (s : Virtio.Backend) : Board :=
  { b with
    hv := { b.hv with host := s.host }
    virtio := ⟨s.ramdiskStart, s.guestPagesz, s.queueSel, s.vq, s.signals, s.accesses⟩ }

end Board

theorem x_setX (b : Board) (vcpu t v vcpu' t' : Nat) :
    (b.setX vcpu t v).x vcpu' t' = if vcpu' = vcpu ∧ t' = t then v else b.x vcpu' t' := by
  rw [Board.setX]
  obtain rfl | hVcpu := eq_or_ne vcpu' vcpu
  · obtain rfl | ht := eq_or_ne t' t
    · simp
    · simp [ht]
  · simp [hVcpu]

theorem setX_setX (b : Board) (vcpu t y v : Nat) : (b.setX vcpu t y).setX vcpu t v = b.setX vcpu t v := by
  rw [Board.setX, Board.setX, Board.setX]
  simp

theorem toInt32_of_lt {n : Nat} (h : n < 2 ^ 31) : toInt32 n = n := by
  rw [toInt32, Nat.mod_eq_of_lt (by omega), if_pos h]

theorem sext32_mod (n : Nat) : sext32 n % 2 ^ 32 = n % 2 ^ 32 := by
  rw [sext32]
  split
  · omega
  · omega

end HyperPoc
