import HyperPoc.Library.LastWrite
import Mathlib.Data.Nat.ModEq
import HyperPoc.Vgic.Handlers

/-! # The emulated interrupt controller of a VM

Where the records of a VM's interrupts are: each vcpu has a vgic cpu of its own, and all of them share
the page of SPI records. On a VM wired like this the loops of the handlers always return, and what
they do to the records and to the physical controller can be said separately.
-/
namespace HyperPoc.Vgic
open Library.Memory Library.Packing Library.Run Library.LastWrite Gic
set_option autoImplicit false

structure Wiring where
  vm : Nat
  nvcpu : Nat
  vgic : Nat
  vcpu : Nat → Nat
  vgicCpu : Nat → Nat

structure Wired (w : Wiring) (s : Hypervisor) : Prop where
  nvcpu : (s.vms w.vm).nvcpu = w.nvcpu
  nvcpu_le : w.nvcpu ≤ vcpuMax
  vgic : (s.vms w.vm).vgic = some w.vgic
  vcpus : ∀ k, k < w.nvcpu → (s.vms w.vm).vcpus k = some (w.vcpu k)
  vm : ∀ k, k < w.nvcpu → (s.vcpus (w.vcpu k)).vm = some w.vm
  cpuid : ∀ k, k < w.nvcpu → (s.vcpus (w.vcpu k)).cpuid = k
  vgicCpu : ∀ k, k < w.nvcpu → (s.vcpus (w.vcpu k)).vgic = some (w.vgicCpu k)
  distinct : ∀ k k', k < w.nvcpu → k' < w.nvcpu → w.vgicCpu k = w.vgicCpu k' → k = k'

/-- The record of INTID `m` for vcpu `k`. -/
def Wiring.ref (w : Wiring) (spis k m : Nat) : IrqRef :=
  if m < 16 then .cpu (w.vgicCpu k) .sgis m
  else if m < 32 then .cpu (w.vgicCpu k) .ppis (m - 16)
  else .mem (u64 (spis + 3 * (m - 32)))

def Wiring.spis (w : Wiring) (s : Hypervisor) : Nat := (s.vgics w.vgic).spis

def Wiring.irq (w : Wiring) (s : Hypervisor) (k m : Nat) : VgicIrq := readIrq s (w.ref (w.spis s) k m)

/-- Everything is as before but host memory and the vgic cpus. -/
structure SameWires (s s' : Hypervisor) : Prop where
  vms : s'.vms = s.vms
  vcpus : s'.vcpus = s.vcpus
  vgics : s'.vgics = s.vgics

theorem SameWires.trans {s s' s'' : Hypervisor} (h : SameWires s s') (h' : SameWires s' s'') : SameWires s s'' :=
  ⟨h'.vms.trans h.vms, h'.vcpus.trans h.vcpus, h'.vgics.trans h.vgics⟩

theorem sameWires_writeIrq (s : Hypervisor) (a : IrqWrite) (r : IrqRef) : SameWires s (writeIrq s a r) := by
  cases r with
  | cpu g bank i => exact ⟨rfl, rfl, rfl⟩
  | mem addr => exact ⟨rfl, rfl, rfl⟩

theorem spi_apart {spis p q f f' : Nat} (hp : p < 2 ^ 32) (hq : q < 2 ^ 32) (hNe : p ≠ q) (hf : f < 3)
    (hf' : f' < 3) :
    u64 (u64 (spis + 3 * p) + f) ≠ u64 (u64 (spis + 3 * q) + f') := by
  intro hEq
  rw [u64, u64, u64, u64, Nat.mod_add_mod, Nat.mod_add_mod, Nat.add_assoc, Nat.add_assoc] at hEq
  have hOffsets := Nat.ModEq.add_left_cancel' spis hEq
  rw [Nat.ModEq, Nat.mod_eq_of_lt (by omega), Nat.mod_eq_of_lt (by omega)] at hOffsets
  omega

section
variable {w : Wiring} {s s' : Hypervisor} {k k' m m' : Nat}

theorem Wired.nvcpu_le_four (h : Wired w s) : w.nvcpu ≤ 4 := h.nvcpu_le

theorem Wired.vcpu_inj (h : Wired w s) {k k' : Nat} (hk : k < w.nvcpu) (hk' : k' < w.nvcpu)
    (hEq : w.vcpu k = w.vcpu k') :
    k = k' := by
  rw [← h.cpuid k hk, hEq, h.cpuid k' hk']

theorem Wired.congr (h : Wired w s) (hSame : SameWires s s') : Wired w s' := by
  obtain ⟨hVms, hVcpus, _⟩ := hSame
  refine ⟨?_, h.nvcpu_le, ?_, ?_, ?_, ?_, ?_, h.distinct⟩
  · rw [hVms]
    exact h.nvcpu
  · rw [hVms]
    exact h.vgic
  · rw [hVms]
    exact h.vcpus
  · rw [hVcpus]
    exact h.vm
  · rw [hVcpus]
    exact h.cpuid
  · rw [hVcpus]
    exact h.vgicCpu

theorem SameWires.spis (hSame : SameWires s s') : w.spis s' = w.spis s := by
  rw [Wiring.spis, Wiring.spis, hSame.vgics]

theorem Wired.vgicIrqGet (h : Wired w s) (hk : k < w.nvcpu) (m : Nat) :
    vgicIrqGet s (w.vcpu k) (m : Int) = .ok (some (w.ref (w.spis s) k m)) := by
  rw [Vgic.vgicIrqGet, Wiring.ref, h.vgicCpu k hk, h.vm k hk]
  split
  · rw [if_pos (by omega)]
    rfl
  · split
    · rw [if_neg (by omega), if_pos (by omega), Option.map_some]
      congr 4
      omega
    · rw [if_pos (by omega), if_neg (by omega), if_neg (by omega)]
      simp only [h.vgic, Wiring.spis]
      congr 7
      omega

/-- Records of different interrupts share no byte. -/
theorem Wired.ref_apart (h : Wired w s) {spis : Nat} (hk : k < w.nvcpu) (hk' : k' < w.nvcpu) (hm : m < 2 ^ 32)
    (hm' : m' < 2 ^ 32) (hNe : ¬SameIrq k m k' m') : (w.ref spis k m).Apart (w.ref spis k' m') := by
  have hPrivate : m < 32 → m = m' → w.vgicCpu k ≠ w.vgicCpu k' := fun hLt hEq hCpu =>
    hNe ⟨hEq, fun _ => h.distinct k k' hk hk' hCpu⟩
  unfold Wiring.ref
  split
  · split
    · rintro ⟨hCpu, _, hEq⟩
      exact hPrivate (by omega) hEq hCpu
    · split
      · rintro ⟨_, hBank, _⟩
        cases hBank
      · trivial
  · split
    · split
      · rintro ⟨_, hBank, _⟩
        cases hBank
      · split
        · rintro ⟨hCpu, _, hEq⟩
          exact hPrivate (by omega) (by omega) hCpu
        · trivial
    · split
      · trivial
      · split
        · trivial
        · have hIrq : m ≠ m' := fun hEq => hNe ⟨hEq, fun hLt => by omega⟩
          intro f f' hf hf'
          exact spi_apart (by omega) (by omega) (by omega) hf hf'

theorem irq_writeIrq (h : Wired w s) (hk : k < w.nvcpu) (hk' : k' < w.nvcpu) (hm : m < 2 ^ 32) (hm' : m' < 2 ^ 32)
    (a : IrqWrite) : w.irq (writeIrq s a (w.ref (w.spis s) k m)) k' m' =
      if SameIrq k' m' k m then a.change (w.irq s k' m') else w.irq s k' m' := by
  have hSpis := (sameWires_writeIrq s a (w.ref (w.spis s) k m)).spis (w := w)
  rw [Wiring.irq, hSpis]
  split
  · rename_i hSame
    have hRef : w.ref (w.spis s) k' m' = w.ref (w.spis s) k m := by
      obtain ⟨rfl, hCpu⟩ := hSame
      unfold Wiring.ref
      split
      · rw [hCpu (by omega)]
      · split
        · rw [hCpu (by omega)]
        · rfl
    rw [Wiring.irq, hRef, readIrq_writeIrq_self]
  · rename_i hNe
    exact readIrq_writeIrq_apart s a (h.ref_apart hk' hk hm' hm hNe)

end

end HyperPoc.Vgic
