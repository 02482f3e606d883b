import HyperPoc.Basic
import HyperPoc.Library.Memory
import HyperPoc.Library.Packing
import Mathlib.Logic.Function.Basic

/-! # The physical distributor and redistributors

The set-enable and clear-enable registers act on one enable state: a 1 sets or clears its interrupt, a
0 has no effect, and both read the state. All other registers keep the bytes written to them. The
writes are recorded in a history, latest first, that no code reads. Waiting for a register write to
take effect (`gicv3_wait_for_rwp`) changes nothing here.
-/
namespace HyperPoc.Gic
open Library.Memory Library.Packing
set_option autoImplicit false

inductive RegAddr
  | gicd (offset : Nat)
  | gicr (cpu offset : Nat)
  deriving DecidableEq

/-- `localEnabled` is banked by cpu and holds the SGIs and PPIs. -/
structure PhysGic where
  spiEnabled : Nat → Bool
  localEnabled : Nat → Nat → Bool
  gicd : Mem
  gicr : Nat → Mem
  writes : List (RegAddr × Nat)

def gicdIsenabler (n : Nat) : Nat := 0x100 + n * 4
def gicdItargetsr (n : Nat) : Nat := 0x800 + n * 4
def gicdIrouter (n : Nat) : Nat := 0x6000 + n * 8
def gicrIsenabler0 : Nat := 0x10100
def gicrIcenabler0 : Nat := 0x10180

def enableWord (enabled : Nat → Bool) (n : Nat) : Nat :=
  orUpTo (fun i => if enabled (32 * n + i) then 2 ^ i else 0) 32

def setEnables (enabled : Nat → Bool) (n val : Nat) : Nat → Bool := fun m =>
  if m / 32 = n then enabled m || val.testBit (m % 32) else enabled m

def clearEnables (enabled : Nat → Bool) (n val : Nat) : Nat → Bool := fun m =>
  if m / 32 = n then enabled m && !val.testBit (m % 32) else enabled m

def gicdR (g : PhysGic) (offset : Nat) : Nat :=
  if 0x100 ≤ offset ∧ offset < 0x200 then enableWord g.spiEnabled (offset % 0x80 / 4) else load g.gicd offset 4

def gicdW (g : PhysGic) (offset val : Nat) : PhysGic :=
  let g := { g with writes := (.gicd offset, val) :: g.writes }
  if 0x100 ≤ offset ∧ offset < 0x180 then
    { g with spiEnabled := setEnables g.spiEnabled (offset % 0x80 / 4) val }
  else if 0x180 ≤ offset ∧ offset < 0x200 then
    { g with spiEnabled := clearEnables g.spiEnabled (offset % 0x80 / 4) val }
  else { g with gicd := store g.gicd offset 4 val }

def gicrR32 (g : PhysGic) (cpu offset : Nat) : Nat :=
  if offset = gicrIsenabler0 ∨ offset = gicrIcenabler0 then enableWord (g.localEnabled cpu) 0
  else load (g.gicr cpu) offset 4

def gicrR64 (g : PhysGic) (cpu offset : Nat) : Nat := load (g.gicr cpu) offset 8

def gicrW32 (g : PhysGic) (cpu offset val : Nat) : PhysGic :=
  let g := { g with writes := (.gicr cpu offset, val) :: g.writes }
  if offset = gicrIsenabler0 then
    { g with localEnabled := Function.update g.localEnabled cpu (setEnables (g.localEnabled cpu) 0 val) }
  else if offset = gicrIcenabler0 then
    { g with localEnabled := Function.update g.localEnabled cpu (clearEnables (g.localEnabled cpu) 0 val) }
  else { g with gicr := Function.update g.gicr cpu (store (g.gicr cpu) offset 4 val) }

/-- Reads and writes back the set-enable register of `irq`; `cpu` is the cpu that runs the code. -/
def rewriteEnables (g : PhysGic) (cpu irq : Nat) (edit : Nat → Nat) : PhysGic :=
  if 32 ≤ irq then gicdW g (gicdIsenabler (irq / 32)) (edit (gicdR g (gicdIsenabler (irq / 32))))
  else gicrW32 g cpu gicrIsenabler0 (edit (gicrR32 g cpu gicrIsenabler0))

def gicIrqEnable (g : PhysGic) (cpu irq : Nat) : PhysGic :=
  rewriteEnables g cpu irq fun val => val ||| 1 <<< (irq % 32)

def gicIrqDisable (g : PhysGic) (cpu irq : Nat) : PhysGic :=
  rewriteEnables g cpu irq fun val => val &&& (0xffffffff ^^^ 1 <<< (irq % 32))

def gicIsIrqEnable (g : PhysGic) (spiNum cpu irq : Nat) : Bool :=
  if 32 ≤ irq ∧ irq ≤ spiNum then (gicdR g (gicdIsenabler (irq / 32))).testBit (irq % 32)
  else if irq ≤ 31 then (gicrR32 g cpu gicrIsenabler0).testBit irq
  else false

/-- A routing register is written while its interrupt is disabled, as far as `gic_irq_disable` does that. -/
def gicReroute (g : PhysGic) (spiNum cpu irq : Nat) (route : PhysGic → PhysGic) : PhysGic :=
  if gicIsIrqEnable g spiNum cpu irq then gicIrqEnable (route (gicIrqDisable g cpu irq)) cpu irq else route g

def gicSetTargetByAffinity (g : PhysGic) (spiNum cpu irq aff : Nat) : PhysGic :=
  gicReroute g spiNum cpu irq fun g => gicdW g (gicdIrouter irq) aff

def gicSetTargetByPeField (g : PhysGic) (spiNum cpu irq target : Nat) : PhysGic :=
  gicReroute g spiNum cpu irq fun g =>
    gicdW g (gicdItargetsr (irq / 4))
      (gicdR g (gicdItargetsr (irq / 4)) &&& (0xffffffff ^^^ 0xff <<< (irq % 4 * 8)) ||| target <<< (irq % 4 * 8))

/-- Whether `irq` is enabled for `cpu`. -/
def PhysGic.enabled (g : PhysGic) (cpu irq : Nat) : Bool :=
  if 32 ≤ irq then g.spiEnabled irq else g.localEnabled cpu irq

/-- The INTIDs name one interrupt of the machine: SGIs and PPIs are private to a cpu. -/
def SameIrq (cpu irq cpu' irq' : Nat) : Prop := irq = irq' ∧ (irq < 32 → cpu = cpu')

instance (cpu irq cpu' irq' : Nat) : Decidable (SameIrq cpu irq cpu' irq') :=
  inferInstanceAs (Decidable (_ ∧ _))

theorem testBit_enableWord (enabled : Nat → Bool) (m : Nat) :
    (enableWord enabled (m / 32)).testBit (m % 32) = enabled m := by
  rw [enableWord, testBit_orBits (fun i => enabled (32 * (m / 32) + i)) (Nat.mod_lt m (by decide)), Nat.div_add_mod]

section
variable (g : PhysGic)

theorem isenabler_offset {n : Nat} (hn : n < 32) :
    0x100 ≤ gicdIsenabler n ∧ gicdIsenabler n < 0x180 ∧ gicdIsenabler n % 0x80 / 4 = n := by
  rw [gicdIsenabler]
  omega

theorem gicdR_isenabler {n : Nat} (hn : n < 32) : gicdR g (gicdIsenabler n) = enableWord g.spiEnabled n := by
  obtain ⟨hLow, hHigh, hIndex⟩ := isenabler_offset hn
  rw [gicdR, if_pos ⟨hLow, by omega⟩, hIndex]

theorem gicdW_isenabler {n : Nat} (hn : n < 32) (val : Nat) : gicdW g (gicdIsenabler n) val =
    { g with writes := (.gicd (gicdIsenabler n), val) :: g.writes, spiEnabled := setEnables g.spiEnabled n val } := by
  obtain ⟨hLow, hHigh, hIndex⟩ := isenabler_offset hn
  rw [gicdW, if_pos ⟨hLow, hHigh⟩, hIndex]

theorem gicdW_of_le {offset : Nat} (h : 0x200 ≤ offset) (val : Nat) : gicdW g offset val =
    { g with writes := (.gicd offset, val) :: g.writes, gicd := store g.gicd offset 4 val } := by
  rw [gicdW, if_neg (by omega), if_neg (by omega)]

theorem gicrR32_isenabler0 (cpu : Nat) : gicrR32 g cpu gicrIsenabler0 = enableWord (g.localEnabled cpu) 0 :=
  if_pos (.inl rfl)

theorem gicrW32_isenabler0 (cpu val : Nat) : gicrW32 g cpu gicrIsenabler0 val =
    { g with
      writes := (.gicr cpu gicrIsenabler0, val) :: g.writes
      localEnabled := Function.update g.localEnabled cpu (setEnables (g.localEnabled cpu) 0 val) } := by
  rw [gicrW32, if_pos rfl]

variable (cpu irq : Nat) (edit : Nat → Nat)

/-- The word that `rewriteEnables` reads. -/
def enablesWord : Nat := if 32 ≤ irq then enableWord g.spiEnabled (irq / 32) else enableWord (g.localEnabled cpu) 0

theorem rewriteEnables_memory (hIrq : irq < 1024) :
    (rewriteEnables g cpu irq edit).gicd = g.gicd ∧ (rewriteEnables g cpu irq edit).gicr = g.gicr := by
  rw [rewriteEnables]
  split
  · rw [gicdW_isenabler g (by omega)]
    exact ⟨rfl, rfl⟩
  · rw [gicrW32_isenabler0]
    exact ⟨rfl, rfl⟩

/-- Writing back to the set-enable register adds the 1s of the value written. -/
theorem rewriteEnables_enabled (hIrq : irq < 1024) (cpu' irq' : Nat) :
    (rewriteEnables g cpu irq edit).enabled cpu' irq' =
    (g.enabled cpu' irq' || decide (irq' / 32 = irq / 32 ∧ (irq < 32 → cpu' = cpu)) &&
      (edit (enablesWord g cpu irq)).testBit (irq' % 32)) := by
  rw [rewriteEnables, enablesWord]
  split
  · rename_i hSpi
    rw [gicdR_isenabler g (by omega), gicdW_isenabler g (by omega)]
    have hNotLocal : ¬irq < 32 := by omega
    simp only [PhysGic.enabled, setEnables]
    split
    · split
      · rename_i hSame
        simp [hSame, hNotLocal]
      · rename_i hSame
        simp [hSame]
    · have hNot : ¬irq' / 32 = irq / 32 := by omega
      simp [hNot]
  · rename_i hLocal
    have hLt : irq < 32 := by omega
    rw [gicrR32_isenabler0, gicrW32_isenabler0]
    simp only [PhysGic.enabled]
    split
    · have hNot : ¬irq' / 32 = irq / 32 := by omega
      simp [hNot]
    · have hSame : irq' / 32 = irq / 32 := by omega
      have hZero : irq' / 32 = 0 := by omega
      obtain rfl | hNe := eq_or_ne cpu' cpu
      · rw [Function.update_self, setEnables, if_pos hZero]
        simp [hSame]
      · rw [Function.update_of_ne hNe]
        simp [hLt, hNe]

theorem testBit_enablesWord (cpu' irq' : Nat) (h : irq' / 32 = irq / 32 ∧ (irq < 32 → cpu' = cpu)) :
    (enablesWord g cpu irq).testBit (irq' % 32) = g.enabled cpu' irq' := by
  obtain ⟨hSame, hCpu⟩ := h
  rw [enablesWord, PhysGic.enabled]
  split
  · rw [if_pos (by omega), ← hSame, testBit_enableWord]
  · rename_i hLocal
    have hZero : irq' / 32 = 0 := by omega
    rw [if_neg (by omega), ← hZero, testBit_enableWord, hCpu (by omega)]

/-- Enabling sets the enable bit of `irq` and no other. -/
theorem gicIrqEnable_enabled (hIrq : irq < 1024) (cpu' irq' : Nat) : (gicIrqEnable g cpu irq).enabled cpu' irq' =
    (decide (SameIrq cpu' irq' cpu irq) || g.enabled cpu' irq') := by
  rw [gicIrqEnable, rewriteEnables_enabled g cpu irq _ hIrq, Bool.eq_iff_iff]
  simp only [Bool.or_eq_true, Bool.and_eq_true, decide_eq_true_eq, Nat.testBit_or, Nat.shiftLeft_eq, Nat.one_mul,
    Nat.testBit_two_pow]
  constructor
  · rintro (hOld | ⟨hSame, hBit | hBit⟩)
    · exact .inr hOld
    · rw [testBit_enablesWord g cpu irq cpu' irq' hSame] at hBit
      exact .inr hBit
    · exact .inl ⟨by omega, fun h => hSame.2 (by omega)⟩
  · rintro (⟨rfl, hCpu⟩ | hOld)
    · exact .inr ⟨⟨rfl, hCpu⟩, .inr rfl⟩
    · exact .inl hOld

/-- Disabling writes the remaining 1s to the set-enable register, which changes nothing. -/
theorem gicIrqDisable_enabled (hIrq : irq < 1024) (cpu' irq' : Nat) :
    (gicIrqDisable g cpu irq).enabled cpu' irq' = g.enabled cpu' irq' := by
  rw [gicIrqDisable, rewriteEnables_enabled g cpu irq _ hIrq, Bool.eq_iff_iff]
  simp only [Bool.or_eq_true, Bool.and_eq_true, decide_eq_true_eq, Nat.testBit_and]
  constructor
  · rintro (hOld | ⟨hSame, hBit, _⟩)
    · exact hOld
    · rwa [testBit_enablesWord g cpu irq cpu' irq' hSame] at hBit
  · exact .inl

end

end HyperPoc.Gic
