import HyperPoc.Vm.State

/-! # Records of the emulated interrupt controller

The records of SGIs and PPIs lie in the static array of vgic cpus, those of the SPIs in a page of host
memory: three bytes each, priority, target, and a byte with the bit fields `enabled` and `igroup`. A
pointer to a record is computed from the INTID with no bound, so that an SPI record may be anywhere.
-/
namespace HyperPoc.Vgic
open Library.Memory
set_option autoImplicit false

inductive Bank
  | sgis
  | ppis
  deriving DecidableEq

inductive IrqRef
  | cpu (vgicCpu : Nat) (bank : Bank) (i : Nat)
  | mem (addr : Nat)
  deriving DecidableEq

def irqs (c : VgicCpu) : Bank → Nat → VgicIrq
  | .sgis => c.sgis
  | .ppis => c.ppis

def setIrqs (c : VgicCpu) (bank : Bank) (v : Nat → VgicIrq) : VgicCpu :=
  match bank with
  | .sgis => { c with sgis := v }
  | .ppis => { c with ppis := v }

/-- An assignment to one field of a record. -/
inductive IrqWrite
  | priority (v : Nat)
  | target (v : Nat)
  | enabled (on : Bool)

def IrqWrite.change (c : VgicIrq) : IrqWrite → VgicIrq
  | .priority v => { c with priority := v % 256 }
  | .target v => { c with target := v % 256 }
  | .enabled on => { c with enabled := on }

def IrqWrite.field : IrqWrite → Nat
  | .priority _ => 0
  | .target _ => 1
  | .enabled _ => 2

def IrqWrite.byte (old : UInt8) : IrqWrite → UInt8
  | .priority v => UInt8.ofNat v
  | .target v => UInt8.ofNat v
  | .enabled on => (old &&& 0xfe) ||| (if on then 1 else 0)

def irqByte (s : Hypervisor) (a field : Nat) : UInt8 := s.host.mem (u64 (a + field))

def readIrq (s : Hypervisor) : IrqRef → VgicIrq
  | .cpu g bank i =>
    let c := irqs (s.vgicCpus g) bank i
    { c with priority := c.priority % 256, target := c.target % 256 }
  | .mem a =>
    ⟨(irqByte s a 0).toNat, (irqByte s a 1).toNat, (irqByte s a 2).toNat.testBit 0, (irqByte s a 2).toNat.testBit 1⟩

def writeIrq (s : Hypervisor) (w : IrqWrite) : IrqRef → Hypervisor
  | .cpu g bank i =>
    let c := irqs (s.vgicCpus g) bank
    let cpu := setIrqs (s.vgicCpus g) bank (Function.update c i (w.change (c i)))
    { s with vgicCpus := Function.update s.vgicCpus g cpu }
  | .mem a =>
    { s with host := { s.host with mem := storeByte s.host.mem (u64 (a + w.field)) (w.byte (irqByte s a w.field)) } }

/-- The null pointer where the array of SGIs or PPIs is missing, and for a negative INTID. -/
def vgicIrqGet (s : Hypervisor) (vcpu : Nat) (intid : Int) : Outcome (Option IrqRef) :=
  if 0 ≤ intid ∧ intid < 16 then .ok ((s.vcpus vcpu).vgic.map fun g => .cpu g .sgis intid.toNat)
  else if 16 ≤ intid ∧ intid < 32 then .ok ((s.vcpus vcpu).vgic.map fun g => .cpu g .ppis (intid - 16).toNat)
  else if 32 ≤ intid then
    match (s.vcpus vcpu).vm with
    | none => .error .nullDereference
    | some vm =>
      match (s.vms vm).vgic with
      | none => .error .nullDereference
      | some v => .ok (some (.mem (u64 ((s.vgics v).spis + 3 * (intid - 32).toNat))))
  else .ok none

/-- The records share no byte. -/
def IrqRef.Apart : IrqRef → IrqRef → Prop
  | .cpu g bank i, .cpu g' bank' i' => ¬(g = g' ∧ bank = bank' ∧ i = i')
  | .mem a, .mem a' => ∀ f f', f < 3 → f' < 3 → u64 (a + f) ≠ u64 (a' + f')
  | _, _ => True

section
variable (s : Hypervisor) (w : IrqWrite)

theorem irqs_setIrqs (c : VgicCpu) (bank bank' : Bank) (v : Nat → VgicIrq) :
    irqs (setIrqs c bank v) bank' = if bank' = bank then v else irqs c bank' := by
  cases bank <;> cases bank' <;> rfl

theorem field_lt : w.field < 3 := by
  cases w <;> simp [IrqWrite.field]

theorem u64_add_ne (a : Nat) {f f' : Nat} (hf : f < 3) (hf' : f' < 3) (hNe : f ≠ f') :
    u64 (a + f) ≠ u64 (a + f') := by
  rw [u64, u64]
  omega

theorem irqByte_writeIrq_self (a : Nat) {f : Nat} (hf : f < 3) : irqByte (writeIrq s w (.mem a)) a f =
    if f = w.field then w.byte (irqByte s a f) else irqByte s a f := by
  change (if u64 (a + f) = u64 (a + w.field) then w.byte (irqByte s a w.field) else irqByte s a f) = _
  obtain rfl | hNe := eq_or_ne f w.field
  · rw [if_pos rfl, if_pos rfl]
  · rw [if_neg (u64_add_ne a hf (field_lt w) hNe), if_neg hNe]

theorem irqByte_writeIrq_apart {a a' f : Nat} (h : u64 (a' + f) ≠ u64 (a + w.field)) :
    irqByte (writeIrq s w (.mem a)) a' f = irqByte s a' f :=
  if_neg h

/-- A write changes its own record as it changes a record on its own. -/
theorem readIrq_writeIrq_self (r : IrqRef) : readIrq (writeIrq s w r) r = w.change (readIrq s r) := by
  cases r with
  | cpu g bank i =>
    simp only [readIrq, writeIrq, Function.update_self, irqs_setIrqs, if_true]
    cases w with
    | priority v => simp [IrqWrite.change]
    | target v => simp [IrqWrite.change]
    | enabled on => rfl
  | mem a =>
    have hMask : Nat.testBit 254 1 = true := by decide
    have hOne : Nat.testBit 1 1 = false := by decide
    rw [readIrq, irqByte_writeIrq_self s w a (f := 0) (by decide), irqByte_writeIrq_self s w a (f := 1) (by decide),
      irqByte_writeIrq_self s w a (f := 2) (by decide)]
    cases w with
    | priority v => simp [readIrq, IrqWrite.field, IrqWrite.byte, IrqWrite.change]
    | target v => simp [readIrq, IrqWrite.field, IrqWrite.byte, IrqWrite.change]
    | enabled on => cases on <;> simp [readIrq, IrqWrite.field, IrqWrite.byte, IrqWrite.change, hMask, hOne]

theorem readIrq_writeIrq_apart {r r' : IrqRef} (h : r'.Apart r) : readIrq (writeIrq s w r) r' = readIrq s r' := by
  cases r with
  | cpu g bank i =>
    cases r' with
    | mem a' => rfl
    | cpu g' bank' i' =>
      simp only [readIrq, writeIrq]
      obtain rfl | hg := eq_or_ne g' g
      · rw [Function.update_self, irqs_setIrqs]
        split
        · rename_i hBank
          subst hBank
          have hi : i' ≠ i := fun hEq => h ⟨rfl, rfl, hEq⟩
          rw [Function.update_of_ne hi]
        · rfl
      · rw [Function.update_of_ne hg]
  | mem a =>
    cases r' with
    | cpu g' bank' i' => rfl
    | mem a' =>
      have hNe : ∀ f, f < 3 → u64 (a' + f) ≠ u64 (a + w.field) := fun f hf => h f _ hf (field_lt w)
      rw [readIrq, irqByte_writeIrq_apart s w (hNe 0 (by decide)), irqByte_writeIrq_apart s w (hNe 1 (by decide)),
        irqByte_writeIrq_apart s w (hNe 2 (by decide))]
      rfl

end

end HyperPoc.Vgic
