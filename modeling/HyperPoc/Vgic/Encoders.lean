import HyperPoc.Vgic.Store

/-! # What the emulated registers say about the state

Every field a guest can read out of an emulated register is decoded with the layout of the
architecture and compared with the state it stands for. Each family of registers is packed by a loop
of its own; in two of them, and in one control bit, the result is not the state.
-/
namespace HyperPoc.Vgic
open Library.Memory Library.Packing Library.Run Gic Trap
set_option autoImplicit false

/-- A field of a register: EnableGrp1NS of GICD_CTLR, field `i` of a configuration register, byte `i` of
GICR_IPRIORITYR<n> in frame `k`, and the trigger type of SGI `i` in GICR_ICFGR0 of frame `k`. -/
inductive Field
  | enableGrp1ns
  | config (reg : ConfigReg) (i : Nat)
  | gicrPriority (k n i : Nat)
  | gicrTrigger (k i : Nat)

def gicrIcfgr0 : Nat := 0x10c00

namespace Field

def window : Field → Handler
  | .enableGrp1ns => .vgicd
  | .config reg _ => reg.window
  | .gicrPriority _ _ _ | .gicrTrigger _ _ => .vgicr

def offset : Field → Nat
  | .enableGrp1ns => 0x0
  | .config reg _ => reg.offset
  | .gicrPriority k n _ => k * gicrStride + gicrIpriorityr n
  | .gicrTrigger k _ => k * gicrStride + gicrIcfgr0

def Exists (w : Wiring) : Field → Prop
  | .enableGrp1ns => True
  | .config reg i => reg.Readable w ∧ i < reg.count
  | .gicrPriority k n i => k < w.nvcpu ∧ n < 8 ∧ i < 4
  | .gicrTrigger k i => k < w.nvcpu ∧ i < 16

/-- The field of a 32-bit register value, by the layout of the architecture. -/
def decode (v : Nat) : Field → Nat
  | .enableGrp1ns => v / 2 ^ 1 % 2
  | .config reg i =>
    match reg.family with
    | .enables _ => v / 2 ^ i % 2
    | .priorities | .targets => v / 256 ^ i % 256
  | .gicrPriority _ _ i => v / 256 ^ i % 256
  | .gicrTrigger _ i => v / 4 ^ i % 4

/-- What the field stands for when vcpu `j` reads it. SGIs are edge-triggered. -/
def state (w : Wiring) (s : Hypervisor) (j : Nat) : Field → Nat
  | .enableGrp1ns => (s.vgics w.vgic).enableGrp1ns.toNat
  | .config reg i =>
    match reg.family with
    | .enables _ => (w.irq s (reg.owner j) (reg.first + i)).enabled.toNat
    | .priorities => (w.irq s (reg.owner j) (reg.first + i)).priority
    | .targets => (w.irq s (reg.owner j) (reg.first + i)).target
  | .gicrPriority k n i => (w.irq s k (4 * n + i)).priority
  | .gicrTrigger _ _ => 0b10

def Faithful (w : Wiring) (b : Board) (j old : Nat) (f : Field) : Prop :=
  ∃ v, callRead b (w.vcpu j) f.offset old f.window = .ok (0, v) ∧ f.decode (v % 2 ^ 32) = f.state w b.hv j

/-- When the loops get a field right. The priorities of frame `k` are taken from INTIDs that are
`k * GICRSTRIDE` too high. -/
def Encoded (w : Wiring) (s : Hypervisor) : Field → Prop
  | .enableGrp1ns => (s.vgics w.vgic).enableGrp1ns = true
  | .config _ _ => True
  | .gicrPriority k n i => (w.irq s k (k * gicrStride + 4 * n + i)).priority = (w.irq s k (4 * n + i)).priority
  | .gicrTrigger _ i => i = 0

end Field

section
variable {w : Wiring} {b : Board} {j k n i old : Nat}

theorem vgicd_ctlr_read (h : Wired w b.hv) (hj : j < w.nvcpu) (old : Nat) :
    vgicdMmioRead b (w.vcpu j) 0 old = .ok (0, 0x22) := by
  rw [vgicdMmioRead, h.vm j hj, deref, ok_bind, show gicdReg 0 = some .ctlr from rfl]
  dsimp only
  rw [h.vgic, deref, ok_bind]
  -- the bit that depends on the state is joined again unconditionally
  cases (b.hv.vgics w.vgic).enableGrp1ns <;> rfl

theorem vgicd_ctlr_write (h : Wired w b.hv) (hj : j < w.nvcpu) (cpu val : Nat) :
    ∃ b', vgicdMmioWrite b cpu (w.vcpu j) 0 val = .ok (b', 0) ∧
      (b'.hv.vgics w.vgic).enableGrp1ns = val.testBit 1 := by
  rw [vgicdMmioWrite, h.vm j hj, deref, ok_bind, show gicdReg 0 = some .ctlr from rfl]
  dsimp only
  rw [h.vgic, deref, ok_bind]
  refine ⟨_, rfl, ?_⟩
  dsimp only
  rw [Function.update_self]

theorem vgicr_icfgr0_read (h : Wired w b.hv) (hj : j < w.nvcpu) (hk : k < w.nvcpu) (old : Nat) :
    vgicrMmioRead b (w.vcpu j) (k * gicrStride + gicrIcfgr0) old = .ok (0, 0x1fffe) := by
  have hr : gicrIcfgr0 < gicrStride := by decide
  rw [vgicrMmioRead, h.gicrFrame hj hk hr, ok_bind, gicrReg_frame k hr,
    show gicrReg gicrIcfgr0 = some .icfgr0 from by decide]
  rfl

theorem config_faithful (h : Wired w b.hv) (hj : j < w.nvcpu) {reg : ConfigReg} (hReg : reg.Readable w)
    (hi : i < reg.count) : (Field.config reg i).Faithful w b j old := by
  obtain ⟨v, hRead, hShows, _⟩ := reads_of_wired h hj hReg old
  refine ⟨v, hRead, ?_⟩
  rw [Field.decode, Field.state]
  rw [Shows] at hShows
  cases reg with
  | isenabler _ | icenabler _ | gicrIsenabler0 _ | gicrIcenabler0 _ =>
    have hBit := hShows i hi
    dsimp only [ConfigReg.family]
    rw [← Nat.toNat_testBit, hBit]
  | ipriorityr _ | itargetsr _ => exact hShows i hi

theorem faithful_iff (f : Field) {v : Nat} (hRead : callRead b (w.vcpu j) f.offset old f.window = .ok (0, v)) :
    f.Faithful w b j old ↔ f.decode (v % 2 ^ 32) = f.state w b.hv j := by
  constructor
  · rintro ⟨v', hRead', hDecode⟩
    cases hRead.symm.trans hRead'
    exact hDecode
  · intro hDecode
    exact ⟨v, hRead, hDecode⟩

theorem gicrPriority_faithful_iff (h : Wired w b.hv) (hj : j < w.nvcpu) (hk : k < w.nvcpu) (hn : n < 8) (hi : i < 4) :
    (Field.gicrPriority k n i).Faithful w b j old ↔
      (w.irq b.hv k (k * gicrStride + 4 * n + i)).priority = (w.irq b.hv k (4 * n + i)).priority := by
  -- the records get a name of their own, so that no INTID is evaluated
  obtain ⟨irq, hIrq⟩ : ∃ irq : Nat → VgicIrq, ∀ i, w.irq b.hv k (k * gicrStride + 4 * n + i) = irq i :=
    ⟨_, fun _ => rfl⟩
  have hLt : ∀ i, (irq i).priority < 256 := fun i => hIrq i ▸ (irq_lt w b.hv k _).1
  have hRead : callRead b (w.vcpu j) (Field.gicrPriority k n i).offset old .vgicr =
      .ok (0, orUpTo (fun i => signedPriorityTerm i (irq i)) 4) := by
    rw [Field.offset, callRead, vgicr_ipriorityr_read h hj hk hn]
    simp only [hIrq]
  rw [faithful_iff (.gicrPriority k n i) hRead, Field.decode, byte_signedPriorities hLt hi, Field.state, hIrq]

theorem gicrTrigger_faithful_iff (h : Wired w b.hv) (hj : j < w.nvcpu) (hk : k < w.nvcpu) (hi : i < 16) :
    (Field.gicrTrigger k i).Faithful w b j old ↔ i = 0 := by
  have hFields : ∀ i, i < 16 → (0x1fffe % 2 ^ 32 / 4 ^ i % 4 = 0b10 ↔ i = 0) := by decide
  have hRead : callRead b (w.vcpu j) (Field.gicrTrigger k i).offset old .vgicr = .ok (0, 0x1fffe) := by
    rw [Field.offset, callRead, vgicr_icfgr0_read h hj hk]
  exact (faithful_iff (.gicrTrigger k i) hRead).trans (hFields i hi)

theorem enableGrp1ns_faithful_iff (h : Wired w b.hv) (hj : j < w.nvcpu) :
    Field.enableGrp1ns.Faithful w b j old ↔ (b.hv.vgics w.vgic).enableGrp1ns = true := by
  rw [faithful_iff .enableGrp1ns (vgicd_ctlr_read h hj old), Field.state]
  cases (b.hv.vgics w.vgic).enableGrp1ns with
  | true => exact iff_of_true rfl rfl
  | false => exact iff_of_false (by decide) (by decide)

/-- Which fields of the emulated registers tell a guest the state of its interrupts; `enable_grp1ns`
itself is what the guest wrote last. -/
theorem encoders_faithful_iff (h : Wired w b.hv) (hj : j < w.nvcpu) (old : Nat) :
    (∀ f : Field, f.Exists w → (f.Faithful w b j old ↔ f.Encoded w b.hv)) ∧
    ∀ cpu val, ∃ b', vgicdMmioWrite b cpu (w.vcpu j) 0 val = .ok (b', 0) ∧
      (b'.hv.vgics w.vgic).enableGrp1ns = val.testBit 1 := by
  refine ⟨?_, vgicd_ctlr_write h hj⟩
  intro f hf
  cases f with
  | enableGrp1ns => exact enableGrp1ns_faithful_iff h hj
  | config reg i => exact iff_of_true (config_faithful h hj hf.1 hf.2) trivial
  | gicrPriority k n i => exact gicrPriority_faithful_iff h hj hf.1 hf.2.1 hf.2.2
  | gicrTrigger k i => exact gicrTrigger_faithful_iff h hj hf.1 hf.2

end

theorem encoders_faithful_small : (Field.config (.isenabler 1) 3).Faithful smallWiring smallBoard 0 7 ∧
    (Field.gicrPriority 0 2 1).Faithful smallWiring smallBoard 1 7 := by
  have hFields := fun j (hj : j < 2) => (encoders_faithful_iff (w := smallWiring) (b := smallBoard)
    (j := j) smallBoard_wired hj 7).1
  refine ⟨(hFields 0 (by decide) (.config (.isenabler 1) 3) ⟨(by decide : 1 < 32), (by decide : 3 < 32)⟩).mpr
    trivial, ?_⟩
  refine (hFields 1 (by decide) (.gicrPriority 0 2 1) ⟨(by decide : 0 < 2), by decide, by decide⟩).mpr ?_
  rw [Field.Encoded, Nat.zero_mul, Nat.zero_add]

/-- A VM that has not switched the group on reads that it is on, and that its SGI 9 is level-sensitive. -/
theorem encoders_misreport :
    (smallBoard.hv.vgics 0).enableGrp1ns = false ∧ vgicdMmioRead smallBoard 0 0 0 = .ok (0, 0x22) ∧
    ¬Field.enableGrp1ns.Faithful smallWiring smallBoard 0 0 ∧
    vgicrMmioRead smallBoard 0 (0 * gicrStride + gicrIcfgr0) 0 = .ok (0, 0x1fffe) ∧
    ¬(Field.gicrTrigger 0 9).Faithful smallWiring smallBoard 0 0 := by
  have hOff : (smallBoard.hv.vgics 0).enableGrp1ns = false := by decide +kernel
  refine ⟨hOff, vgicd_ctlr_read (j := 0) smallBoard_wired (by decide) 0, ?_,
    vgicr_icfgr0_read (j := 0) (k := 0) smallBoard_wired (by decide) (by decide) 0, ?_⟩
  · rw [enableGrp1ns_faithful_iff smallBoard_wired (by decide)]
    exact fun hOn => absurd (hOff.symm.trans hOn) (by decide)
  · rw [gicrTrigger_faithful_iff smallBoard_wired (by decide) (by decide) (by decide)]
    decide

end HyperPoc.Vgic
