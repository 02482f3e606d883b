import HyperPoc.Gic.Physical
import HyperPoc.Library.RegisterFile

/-! # Routing an interrupt

An SPI is disabled, its route or its target byte is written, and it is enabled again. The set-enable
registers only take 1s, so that disabling through them does nothing, and enabling sets a bit that was set
before. What is left is one store to the routing registers.
-/
namespace HyperPoc.Gic
open Library.Memory Library.Packing Library.RegisterFile
set_option autoImplicit false

inductive Retarget
  | affinity (aff : UInt8)
  | peField (target : UInt8)

/-- The fields of the routing registers: the byte of an INTID in its GICD_ITARGETSR, and the two words of its
GICD_IROUTER. -/
inductive RoutingField
  | cpuTargets (irq : Nat)
  | route (irq : Nat)
  | routeHigh (irq : Nat)

namespace RoutingField

def irq : RoutingField → Nat
  | .cpuTargets irq | .route irq | .routeHigh irq => irq

def read (g : PhysGic) : RoutingField → Nat
  | .cpuTargets irq => gicdR g (gicdItargetsr (irq / 4)) >>> (irq % 4 * 8) &&& 0xff
  | .route irq => gicdR g (gicdIrouter irq)
  | .routeHigh irq => gicdR g (gicdIrouter irq + 4)

/-- Where the bytes of the field are. -/
def offset : RoutingField → Nat
  | .cpuTargets irq => gicdItargetsr (irq / 4) + irq % 4
  | .route irq => gicdIrouter irq
  | .routeHigh irq => gicdIrouter irq + 4

def size : RoutingField → Nat
  | .cpuTargets _ => 1
  | .route _ | .routeHigh _ => 4

end RoutingField

namespace Retarget

def apply (r : Retarget) (g : PhysGic) (spiNum cpu irq : Nat) : PhysGic :=
  match r with
  | .affinity aff => gicSetTargetByAffinity g spiNum cpu irq aff.toNat
  | .peField target => gicSetTargetByPeField g spiNum cpu irq target.toNat

def value : Retarget → Nat
  | .affinity v | .peField v => v.toNat

def field (r : Retarget) (irq : Nat) : RoutingField :=
  match r with
  | .affinity _ => .route irq
  | .peField _ => .cpuTargets irq

end Retarget

/-- The state without the history of writes. -/
def PhysGic.hardware (g : PhysGic) : PhysGic := { g with writes := [] }

/-- The same state with another content of the distributor's plain registers. -/
def PhysGic.withGicd (g : PhysGic) (m : Mem) : PhysGic := { g with gicd := m, writes := [] }

/-- Between `g` and `g'` only the field has changed, to `v`. -/
structure SetsField (g g' : PhysGic) (f : RoutingField) (v : Nat) : Prop where
  target : f.read g' = v
  others : ∀ f', f'.irq < 1024 → f' ≠ f → f'.read g' = f'.read g
  enabled : ∀ cpu irq, g'.enabled cpu irq = g.enabled cpu irq

section
variable {g : PhysGic} {spiNum cpu irq : Nat}

theorem withGicd_congr {g' : PhysGic} {put : Mem → Mem} (h : g'.hardware = g.hardware) :
    g'.withGicd (put g'.gicd) = g.withGicd (put g.gicd) := by
  cases g
  cases g'
  cases h
  rfl

theorem spiEnabled_congr {g' : PhysGic} {m : Mem} (h : g'.hardware = g.withGicd m) :
    g'.spiEnabled irq = g.spiEnabled irq := by
  cases g'
  cases h
  rfl

theorem setEnables_eq_self {enabled : Nat → Bool} {n val : Nat}
    (h : ∀ m, m / 32 = n → val.testBit (m % 32) = true → enabled m = true) :
    setEnables enabled n val = enabled := by
  funext m
  rw [setEnables]
  split
  · rename_i hm
    cases hBit : val.testBit (m % 32) with
    | false => rw [Bool.or_false]
    | true => rw [h m hm hBit, Bool.true_or]
  · rfl

/-- Rewriting the set-enable register of an SPI without new 1s changes nothing. -/
theorem rewriteEnables_hardware {edit : Nat → Nat} (hSpi : 32 ≤ irq) (hIrq : irq < 1024)
    (hEdit : ∀ m, m / 32 = irq / 32 → (edit (enableWord g.spiEnabled (irq / 32))).testBit (m % 32) = true →
      g.spiEnabled m = true) : (rewriteEnables g cpu irq edit).hardware = g.hardware := by
  rw [rewriteEnables, if_pos hSpi, gicdR_isenabler g (by omega), gicdW_isenabler g (by omega), setEnables_eq_self hEdit]
  rfl

theorem testBit_word {m : Nat} (hm : m / 32 = irq / 32)
    (hBit : (enableWord g.spiEnabled (irq / 32)).testBit (m % 32) = true) : g.spiEnabled m = true := by
  rwa [← hm, testBit_enableWord] at hBit

theorem gicIrqDisable_hardware (g : PhysGic) (cpu : Nat) (hSpi : 32 ≤ irq) (hIrq : irq < 1024) :
    (gicIrqDisable g cpu irq).hardware = g.hardware := by
  apply rewriteEnables_hardware hSpi hIrq
  intro m hm hBit
  rw [Nat.testBit_and, Bool.and_eq_true] at hBit
  exact testBit_word hm hBit.1

theorem gicIrqEnable_hardware (hSpi : 32 ≤ irq) (hIrq : irq < 1024) (hOn : g.spiEnabled irq = true) :
    (gicIrqEnable g cpu irq).hardware = g.hardware := by
  apply rewriteEnables_hardware hSpi hIrq
  intro m hm hBit
  rw [Nat.testBit_or, Bool.or_eq_true, Nat.shiftLeft_eq, Nat.one_mul, Nat.testBit_two_pow, decide_eq_true_eq] at hBit
  obtain hOld | hNew := hBit
  · exact testBit_word hm hOld
  · obtain rfl : m = irq := by omega
    exact hOn

theorem gicReroute_hardware {route : PhysGic → PhysGic} (put : Mem → Mem) (hSpi : 32 ≤ irq) (hIrq : irq < 1024)
    (hNum : irq ≤ spiNum) (hRoute : ∀ g, (route g).hardware = g.withGicd (put g.gicd)) :
    (gicReroute g spiNum cpu irq route).hardware = g.withGicd (put g.gicd) := by
  have hRead : gicIsIrqEnable g spiNum cpu irq = g.spiEnabled irq := by
    rw [gicIsIrqEnable, if_pos ⟨hSpi, hNum⟩, gicdR_isenabler g (by omega), testBit_enableWord]
  rw [gicReroute, hRead]
  split
  · rename_i hOn
    have hOff := gicIrqDisable_hardware g cpu hSpi hIrq
    have hMid : (route (gicIrqDisable g cpu irq)).hardware = g.withGicd (put g.gicd) := by
      rw [hRoute, withGicd_congr hOff]
    rw [gicIrqEnable_hardware hSpi hIrq ((spiEnabled_congr hMid).trans hOn), hMid]
  · exact hRoute g

theorem gicdW_irouter (g : PhysGic) (irq aff : Nat) :
    (gicdW g (gicdIrouter irq) aff).hardware = g.withGicd (store g.gicd (gicdIrouter irq) 4 aff) := by
  rw [gicdW_of_le g (by rw [gicdIrouter]; omega)]
  rfl

/-- The word is read and written back with another target byte. -/
theorem gicdW_itargetsr (g : PhysGic) (irq : Nat) {target : Nat} (hTarget : target < 256) :
    (gicdW g (gicdItargetsr (irq / 4))
      (gicdR g (gicdItargetsr (irq / 4)) &&& (0xffffffff ^^^ 0xff <<< (irq % 4 * 8)) |||
        target <<< (irq % 4 * 8))).hardware =
      g.withGicd (store g.gicd (gicdItargetsr (irq / 4) + irq % 4) 1 target) := by
  have hRead : gicdR g (gicdItargetsr (irq / 4)) = load g.gicd (gicdItargetsr (irq / 4)) 4 := by
    rw [gicdR, if_neg (by rw [gicdItargetsr]; omega)]
  rw [gicdW_of_le g (by rw [gicdItargetsr]; omega), hRead,
    store_replace g.gicd _ hTarget (Nat.mod_lt irq (by decide))]
  rfl

theorem Retarget.apply_hardware (r : Retarget) (g : PhysGic) (cpu : Nat) (hSpi : 32 ≤ irq) (hNum : irq < spiNum)
    (hMax : spiNum ≤ 1024) : (r.apply g spiNum cpu irq).hardware =
      g.withGicd (store g.gicd (r.field irq).offset (r.field irq).size r.value) := by
  cases r with
  | affinity aff =>
    exact gicReroute_hardware (fun m => store m (gicdIrouter irq) 4 aff.toNat) hSpi (by omega) (by omega)
      fun g => gicdW_irouter g irq aff.toNat
  | peField target =>
    exact gicReroute_hardware (fun m => store m (gicdItargetsr (irq / 4) + irq % 4) 1 target.toNat) hSpi (by omega)
      (by omega) fun g => gicdW_itargetsr g irq (UInt8.toNat_lt target)

theorem RoutingField.read_eq (f : RoutingField) : f.read g = load g.gicd f.offset f.size := by
  cases f with
  | cpuTargets irq =>
    have hLane : irq % 4 < 4 := Nat.mod_lt irq (by decide)
    have hByte : load g.gicd (gicdItargetsr (irq / 4) + irq % 4) 1 =
        (g.gicd (gicdItargetsr (irq / 4) + irq % 4)).toNat := rfl
    rw [read, gicdR, if_neg (by rw [gicdItargetsr]; omega), shift_byte, offset, size, hByte, ← byte_load g.gicd hLane,
      UInt8.toNat_ofNat']
  | route irq => rw [read, gicdR, if_neg (by rw [gicdIrouter]; omega), offset, size]
  | routeHigh irq => rw [read, gicdR, if_neg (by rw [gicdIrouter]; omega), offset, size]

theorem RoutingField.apart {f f' : RoutingField} (hf : f.irq < 1024) (hf' : f'.irq < 1024) (hNe : f' ≠ f) :
    f'.offset + f'.size ≤ f.offset ∨ f.offset + f.size ≤ f'.offset := by
  have hIrq : ∀ {c : Nat → RoutingField} {i i' : Nat}, c i' ≠ c i → i' ≠ i := fun h hEq => h (congrArg _ hEq)
  cases f <;> cases f' <;>
    simp only [RoutingField.irq, offset, size, gicdItargetsr, gicdIrouter] at hf hf' ⊢ <;>
    first | omega | (have hDiff := hIrq hNe; omega)

theorem Retarget.field_irq (r : Retarget) : (r.field irq).irq = irq := by
  cases r with
  | affinity _ => rfl
  | peField _ => rfl

theorem Retarget.value_lt (r : Retarget) : r.value < 256 ^ (r.field irq).size := by
  cases r with
  | affinity v => exact Nat.lt_trans (UInt8.toNat_lt v) (show 2 ^ 8 < 256 ^ 4 by decide)
  | peField v => exact UInt8.toNat_lt v

theorem SetsField.of_hardware {g' : PhysGic} {f : RoutingField} {v : Nat} (hf : f.irq < 1024) (hv : v < 256 ^ f.size)
    (h : g'.hardware = g.withGicd (store g.gicd f.offset f.size v)) : SetsField g g' f v := by
  obtain ⟨spiEnabled, localEnabled, gicd, gicr, writes⟩ := g'
  cases h
  refine ⟨?_, fun f' hf' hNe => ?_, fun _ _ => rfl⟩
  · rw [f.read_eq]
    exact load_store hv
  · rw [f'.read_eq, f'.read_eq]
    exact load_store_of_disjoint (RoutingField.apart hf hf' hNe)

theorem Retarget.field_ne (r r' : Retarget) {irq' : Nat} (hNe : irq' ≠ irq) : r'.field irq' ≠ r.field irq := by
  intro hEq
  have hIrq := congrArg RoutingField.irq hEq
  rw [field_irq, field_irq] at hIrq
  exact hNe hIrq

/-- Retargetings of different SPIs meet in one state, whichever comes first. -/
theorem Retarget.apply_comm (r r' : Retarget) (g : PhysGic) {irq' : Nat} (cpu' : Nat) (hSpi : 32 ≤ irq)
    (hNum : irq < spiNum) (hSpi' : 32 ≤ irq') (hNum' : irq' < spiNum) (hMax : spiNum ≤ 1024) (hNe : irq' ≠ irq) :
    (r'.apply (r.apply g spiNum cpu irq) spiNum cpu' irq').hardware =
      (r.apply (r'.apply g spiNum cpu' irq') spiNum cpu irq).hardware := by
  have hField : (r.field irq).irq < 1024 := by
    rw [field_irq]
    omega
  have hField' : (r'.field irq').irq < 1024 := by
    rw [field_irq]
    omega
  have hApart := RoutingField.apart hField hField' (r.field_ne r' hNe)
  have hFirst := r.apply_hardware g cpu hSpi hNum hMax
  have hOther := r'.apply_hardware g cpu' hSpi' hNum' hMax
  rw [r'.apply_hardware _ cpu' hSpi' hNum' hMax, r.apply_hardware _ cpu hSpi hNum hMax]
  generalize r.apply g spiNum cpu irq = g₁ at *
  generalize r'.apply g spiNum cpu' irq' = g₂ at *
  cases g₁
  cases g₂
  cases hFirst
  cases hOther
  exact congrArg g.withGicd (store_comm g.gicd hApart.symm)

end

theorem retarget_only (g : PhysGic) (r : Retarget) (spiNum cpu irq : Nat) (hSpi : 32 ≤ irq) (hNum : irq < spiNum)
    (hMax : spiNum ≤ 1024) :
    SetsField g (r.apply g spiNum cpu irq) (r.field irq) r.value ∧
      ∀ (r' : Retarget) (cpu' irq' : Nat), 32 ≤ irq' → irq' < spiNum → irq' ≠ irq →
        (r'.apply (r.apply g spiNum cpu irq) spiNum cpu' irq').hardware =
          (r.apply (r'.apply g spiNum cpu' irq') spiNum cpu irq).hardware := by
  refine ⟨.of_hardware (by rw [r.field_irq]; omega) r.value_lt (r.apply_hardware g cpu hSpi hNum hMax), ?_⟩
  intro r' cpu' irq' hSpi' hNum' hNe
  exact r.apply_comm r' g cpu' hSpi hNum hSpi' hNum' hMax hNe

/-- All interrupts enabled, all routes 0. -/
def openGic : PhysGic := ⟨fun _ => true, fun _ _ => true, fun _ => 0, fun _ _ => 0, []⟩

/-- Two SPIs that share a target register and an enable register. -/
theorem retarget_only_neighbours :
    SetsField openGic (Retarget.apply (.peField 2) openGic 64 0 33) (.cpuTargets 33) 2 ∧
      (Retarget.apply (.peField 4) (Retarget.apply (.peField 2) openGic 64 0 33) 64 1 34).hardware =
        (Retarget.apply (.peField 2) (Retarget.apply (.peField 4) openGic 64 1 34) 64 0 33).hardware := by
  obtain ⟨hSets, hComm⟩ := retarget_only openGic (.peField 2) 64 0 33 (by decide) (by decide) (by decide)
  exact ⟨hSets, hComm (.peField 4) 1 34 (by decide) (by decide) (by decide)⟩

end HyperPoc.Gic
