import HyperPoc.Vgic.Redistributor

/-! # The configuration registers as a store

Enable bits, priorities and targets of a VM's interrupts can be written and read through several
registers of two windows. After any sequence of writes each field of each interrupt is what the last
write that carried something for it left there.
-/
namespace HyperPoc.Vgic
open Library.Memory Library.Packing Library.Run Library.LastWrite Gic Trap
set_option autoImplicit false

/-- A configuration register; those of the redistributors are named with their frame. -/
inductive ConfigReg
  | isenabler (n : Nat)
  | icenabler (n : Nat)
  | ipriorityr (n : Nat)
  | itargetsr (n : Nat)
  | gicrIsenabler0 (k : Nat)
  | gicrIcenabler0 (k : Nat)

inductive Family
  | enables (on : Bool)
  | priorities
  | targets

def Family.term : Family → Nat → VgicIrq → Nat
  | .enables _ => enableTerm
  | .priorities => priorityTerm
  | .targets => targetTerm

namespace ConfigReg

def window : ConfigReg → Handler
  | .gicrIsenabler0 _ | .gicrIcenabler0 _ => .vgicr
  | _ => .vgicd

def offset : ConfigReg → Nat
  | .isenabler n => 0x100 + 4 * n
  | .icenabler n => 0x180 + 4 * n
  | .ipriorityr n => 0x400 + 4 * n
  | .itargetsr n => 0x800 + 4 * n
  | .gicrIsenabler0 k => k * gicrStride + 0x10100
  | .gicrIcenabler0 k => k * gicrStride + 0x10180

def family : ConfigReg → Family
  | .isenabler _ | .gicrIsenabler0 _ => .enables true
  | .icenabler _ | .gicrIcenabler0 _ => .enables false
  | .ipriorityr _ => .priorities
  | .itargetsr _ => .targets

/-- The vcpu whose SGIs and PPIs the register has when vcpu `j` accesses it. -/
def owner (j : Nat) : ConfigReg → Nat
  | .gicrIsenabler0 k | .gicrIcenabler0 k => k
  | _ => j

def first : ConfigReg → Nat
  | .isenabler n | .icenabler n => n * 32
  | .ipriorityr n | .itargetsr n => n * 4
  | .gicrIsenabler0 _ | .gicrIcenabler0 _ => 0

def count : ConfigReg → Nat
  | .ipriorityr _ | .itargetsr _ => 4
  | _ => 32

/-- GICD_ITARGETSR<0..7> can be read but not written. -/
def Readable (w : Wiring) : ConfigReg → Prop
  | .isenabler n | .icenabler n => n < 32
  | .ipriorityr n | .itargetsr n => n < 255
  | .gicrIsenabler0 k | .gicrIcenabler0 k => k < w.nvcpu

def Writable (w : Wiring) : ConfigReg → Prop
  | .itargetsr n => 8 ≤ n ∧ n < 255
  | reg => reg.Readable w

/-- The register has a field for INTID `m` of vcpu `k` when vcpu `j` accesses it. -/
def Names (reg : ConfigReg) (j k m : Nat) : Prop := InLoop (reg.owner j) reg.first reg.count k m

instance (reg : ConfigReg) (j k m : Nat) : Decidable (reg.Names j k m) := inferInstanceAs (Decidable (InLoop _ _ _ _ _))

end ConfigReg

/-- A write of a word by vcpu `vcpu`, which runs on `cpu`. -/
structure RegWrite where
  cpu : Nat
  vcpu : Nat
  reg : ConfigReg
  val : Nat

namespace RegWrite

def Valid (w : Wiring) (op : RegWrite) : Prop := op.vcpu < w.nvcpu ∧ op.reg.Writable w

def run (w : Wiring) (b : Board) (op : RegWrite) : Outcome Board := do
  let (b, _) ← callWrite 0 b op.cpu (w.vcpu op.vcpu) op.reg.offset op.val op.reg.window
  return b

/-- The enable bit the write leaves for INTID `m` of vcpu `k`, if it carries a 1 for it. -/
def enable (op : RegWrite) (k m : Nat) : Option Bool :=
  match op.reg.family with
  | .enables on => if op.reg.Names op.vcpu k m ∧ op.val.testBit (m - op.reg.first) = true then some on else none
  | _ => none

def priority (op : RegWrite) (k m : Nat) : Option Nat :=
  match op.reg.family with
  | .priorities => if op.reg.Names op.vcpu k m then some (op.val / 256 ^ (m - op.reg.first) % 256) else none
  | _ => none

def target (op : RegWrite) (k m : Nat) : Option Nat :=
  match op.reg.family with
  | .targets => if op.reg.Names op.vcpu k m then some (op.val / 256 ^ (m - op.reg.first) % 256) else none
  | _ => none

/-- The assignment of one round of the handler's loop. -/
def assigns (op : RegWrite) (i : Nat) : Option IrqWrite :=
  match op.reg.family with
  | .enables on => enableWrites op.val on i
  | .priorities => priorityWrites op.val i
  | .targets => targetWrites op.val i

/-- What the rounds do to the physical controller. -/
def drives (spiNum : Nat) (op : RegWrite) (g : PhysGic) : PhysGic :=
  match op.reg.family with
  | .enables on => switchAll g op.cpu op.reg.first op.val on
  | .priorities => g
  | .targets => retargetAll g spiNum op.cpu op.reg.first op.val

def next (w : Wiring) (b : Board) (op : RegWrite) : Board :=
  { b with
    hv := assignAll (fun i => w.ref (w.spis b.hv) (op.reg.owner op.vcpu) (op.reg.first + i))
      op.assigns op.reg.count b.hv
    gic := op.drives b.spiNum b.gic }

end RegWrite

def readReg (w : Wiring) (b : Board) (j : Nat) (reg : ConfigReg) (old : Nat) : Outcome (Int × Nat) :=
  callRead b (w.vcpu j) reg.offset old reg.window

/-- The low 32 bits of `v` show the fields the register has for vcpu `j`. -/
def Shows (w : Wiring) (s : Hypervisor) (j : Nat) (reg : ConfigReg) (v : Nat) : Prop :=
  match reg.family with
  | .enables _ => ∀ i, i < 32 → (v % 2 ^ 32).testBit i = (w.irq s (reg.owner j) (reg.first + i)).enabled
  | .priorities => ∀ i, i < 4 → v % 2 ^ 32 / 256 ^ i % 256 = (w.irq s (reg.owner j) (reg.first + i)).priority
  | .targets => ∀ i, i < 4 → v % 2 ^ 32 / 256 ^ i % 256 = (w.irq s (reg.owner j) (reg.first + i)).target

theorem shown_enable (w : Wiring) (s : Hypervisor) (k m : Nat) {i : Nat} (hi : i < 32) :
    (orUpTo (fun i => enableTerm i (w.irq s k (m + i))) 32 % 2 ^ 32).testBit i = (w.irq s k (m + i)).enabled := by
  rw [orUpTo_mod, orUpTo_congr fun i hi => enableTerm_mod (w.irq s k (m + i)) hi]
  exact testBit_orBits (fun i => (w.irq s k (m + i)).enabled) hi

theorem shown_byte {c : Nat → Nat} (hc : ∀ i, c i < 256) {i : Nat} (hi : i < 4) :
    orUpTo (fun i => c i <<< (i * 8)) 4 % 2 ^ 32 / 256 ^ i % 256 = c i := by
  rw [orUpTo_mod, orUpTo_congr fun i hi => shifted_byte_mod (hc i) hi]
  exact byte_orBytes hc hi

section
variable {w : Wiring} {b : Board} {j k m : Nat}

theorem owner_lt {reg : ConfigReg} (hj : j < w.nvcpu) (h : reg.Readable w) : reg.owner j < w.nvcpu := by
  cases reg with
  | gicrIsenabler0 k => exact h
  | gicrIcenabler0 k => exact h
  | isenabler n => exact hj
  | icenabler n => exact hj
  | ipriorityr n => exact hj
  | itargetsr n => exact hj

theorem readable_of_writable {reg : ConfigReg} (h : reg.Writable w) : reg.Readable w := by
  cases reg with
  | itargetsr n => exact h.2
  | isenabler n => exact h
  | icenabler n => exact h
  | ipriorityr n => exact h
  | gicrIsenabler0 k => exact h
  | gicrIcenabler0 k => exact h

theorem first_le {reg : ConfigReg} (h : reg.Readable w) : reg.first + reg.count ≤ 1024 := by
  cases reg with
  | itargetsr n => exact (by omega : n * 4 + 4 ≤ 1024 ∨ 255 ≤ n).resolve_right (Nat.not_le.mpr h)
  | isenabler n => exact (by omega : n * 32 + 32 ≤ 1024 ∨ 32 ≤ n).resolve_right (Nat.not_le.mpr h)
  | icenabler n => exact (by omega : n * 32 + 32 ≤ 1024 ∨ 32 ≤ n).resolve_right (Nat.not_le.mpr h)
  | ipriorityr n => exact (by omega : n * 4 + 4 ≤ 1024 ∨ 255 ≤ n).resolve_right (Nat.not_le.mpr h)
  | gicrIsenabler0 k => exact (by decide : 0 + 32 ≤ 1024)
  | gicrIcenabler0 k => exact (by decide : 0 + 32 ≤ 1024)

theorem RegWrite.run_eq (h : Wired w b.hv) {op : RegWrite} (hOp : op.Valid w) : op.run w b = .ok (op.next w b) := by
  obtain ⟨cpu, j, reg, val⟩ := op
  obtain ⟨hj, hReg⟩ := hOp
  cases reg with
  | isenabler n =>
    simp only [RegWrite.run, callWrite, ConfigReg.window, ConfigReg.offset, vgicdMmioWrite, h.vm j hj, deref, ok_bind,
      gicdReg_isenabler hReg, writeEnables_eq h hj]
    rfl
  | icenabler n =>
    simp only [RegWrite.run, callWrite, ConfigReg.window, ConfigReg.offset, vgicdMmioWrite, h.vm j hj, deref, ok_bind,
      gicdReg_icenabler hReg, writeEnables_eq h hj]
    rfl
  | ipriorityr n =>
    simp only [RegWrite.run, callWrite, ConfigReg.window, ConfigReg.offset, vgicdMmioWrite, h.vm j hj, deref, ok_bind,
      gicdReg_ipriorityr hReg, writePriorities_eq h hj]
    rfl
  | itargetsr n =>
    have hSpi : 32 ≤ n * 4 := by
      have := hReg.1
      omega
    simp only [RegWrite.run, callWrite, ConfigReg.window, ConfigReg.offset, vgicdMmioWrite, h.vm j hj, deref, ok_bind,
      gicdReg_itargetsr hReg.2, writeTargets_eq h hj _ hSpi]
    rfl
  | gicrIsenabler0 k =>
    have hWrite := vgicr_enabler0_write h hj hReg cpu val true
    exact bind_eq_ok.mpr ⟨_, hWrite, rfl⟩
  | gicrIcenabler0 k =>
    have hWrite := vgicr_enabler0_write h hj hReg cpu val false
    exact bind_eq_ok.mpr ⟨_, hWrite, rfl⟩

theorem sameWires_next (w : Wiring) (b : Board) (op : RegWrite) : SameWires b.hv (op.next w b).hv :=
  sameWires_assignAll _ _ _ _

theorem irq_next (h : Wired w b.hv) {op : RegWrite} (hOp : op.Valid w) (hk : k < w.nvcpu) (hm : m < 2 ^ 32) :
    w.irq (op.next w b).hv k m =
      if op.reg.Names op.vcpu k m then changed (w.irq b.hv k m) (op.assigns (m - op.reg.first))
        else w.irq b.hv k m := by
  have hReadable := readable_of_writable hOp.2
  have hFirst := first_le hReadable
  exact irq_assignAll h (owner_lt hOp.1 hReadable) hk (by omega) hm op.assigns

theorem irq_next_fields (h : Wired w b.hv) {op : RegWrite} (hOp : op.Valid w) (hk : k < w.nvcpu) (hm : m < 2 ^ 32) :
    (w.irq (op.next w b).hv k m).enabled = (op.enable k m).getD (w.irq b.hv k m).enabled ∧
      (w.irq (op.next w b).hv k m).priority = (op.priority k m).getD (w.irq b.hv k m).priority ∧
      (w.irq (op.next w b).hv k m).target = (op.target k m).getD (w.irq b.hv k m).target ∧
      (w.irq (op.next w b).hv k m).igroup = (w.irq b.hv k m).igroup := by
  rw [irq_next h hOp hk hm, RegWrite.assigns, RegWrite.enable, RegWrite.priority, RegWrite.target]
  cases op.reg.family with
  | enables on =>
    split
    · rename_i hNames
      simp only [changed_enableWrites, hNames, true_and]
      split <;> simp
    · rename_i hNames
      simp [hNames]
  | priorities =>
    split
    · simp
    · simp
  | targets =>
    split
    · simp
    · simp

theorem readReg_eq (h : Wired w b.hv) (hj : j < w.nvcpu) (reg : ConfigReg) (hReg : reg.Readable w) (old : Nat) :
    readReg w b j reg old =
      .ok (0, orUpTo (fun i => reg.family.term i (w.irq b.hv (reg.owner j) (reg.first + i))) reg.count) := by
  cases reg with
  | isenabler n =>
    simp only [readReg, callRead, ConfigReg.window, ConfigReg.offset, vgicdMmioRead, h.vm j hj, deref, ok_bind,
      gicdReg_isenabler hReg, readLoop_eq h hj]
    rfl
  | icenabler n =>
    simp only [readReg, callRead, ConfigReg.window, ConfigReg.offset, vgicdMmioRead, h.vm j hj, deref, ok_bind,
      gicdReg_icenabler hReg, readLoop_eq h hj]
    rfl
  | ipriorityr n =>
    simp only [readReg, callRead, ConfigReg.window, ConfigReg.offset, vgicdMmioRead, h.vm j hj, deref, ok_bind,
      gicdReg_ipriorityr hReg, readLoop_eq h hj]
    rfl
  | itargetsr n =>
    simp only [readReg, callRead, ConfigReg.window, ConfigReg.offset, vgicdMmioRead, h.vm j hj, deref, ok_bind,
      gicdReg_itargetsr hReg, readLoop_eq h hj]
    rfl
  | gicrIsenabler0 k => exact vgicr_enabler0_read h hj hReg old true
  | gicrIcenabler0 k => exact vgicr_enabler0_read h hj hReg old false

theorem shows_orUpTo (w : Wiring) (s : Hypervisor) (j : Nat) (reg : ConfigReg) :
    Shows w s j reg (orUpTo (fun i => reg.family.term i (w.irq s (reg.owner j) (reg.first + i))) reg.count) := by
  cases reg with
  | isenabler n => exact fun i hi => shown_enable w s j (n * 32) hi
  | icenabler n => exact fun i hi => shown_enable w s j (n * 32) hi
  | gicrIsenabler0 k => exact fun i hi => shown_enable w s k 0 hi
  | gicrIcenabler0 k => exact fun i hi => shown_enable w s k 0 hi
  | ipriorityr n => exact fun i hi => shown_byte (fun i => (irq_lt w s j (n * 4 + i)).1) hi
  | itargetsr n => exact fun i hi => shown_byte (fun i => (irq_lt w s j (n * 4 + i)).2) hi

/-- `b'` is `b` after the writes `ops`: each field is the latest that was written for it, and reads
show the fields. -/
structure ActsAsStore (w : Wiring) (b : Board) (ops : List RegWrite) (b' : Board) : Prop where
  enabled : ∀ k m, k < w.nvcpu → m < 2 ^ 32 →
    (w.irq b'.hv k m).enabled = (latest (fun op => op.enable k m) ops).getD (w.irq b.hv k m).enabled
  priority : ∀ k m, k < w.nvcpu → m < 2 ^ 32 →
    (w.irq b'.hv k m).priority = (latest (fun op => op.priority k m) ops).getD (w.irq b.hv k m).priority
  target : ∀ k m, k < w.nvcpu → m < 2 ^ 32 →
    (w.irq b'.hv k m).target = (latest (fun op => op.target k m) ops).getD (w.irq b.hv k m).target
  /-- A read returns the fields, and as a trapped load it changes its destination only: the transfer register, or
  the word at address 0 for register 31. -/
  reads : ∀ j reg old, j < w.nvcpu → reg.Readable w →
    ∃ v, readReg w b' j reg old = .ok (0, v) ∧ Shows w b'.hv j reg v ∧
      ∀ n cpu t ipa, destination b' (w.vcpu j) t = old → Hits b'.hv (w.vcpu j) ipa reg.window reg.offset →
        mmioEmulate n b' cpu (w.vcpu j) t ⟨ipa, 2, 0⟩ = .ok (setDestination b' (w.vcpu j) t v, 0)
  coincide : ∀ j n old, j < w.nvcpu → n < 32 →
    readReg w b' j (.isenabler n) old = readReg w b' j (.icenabler n) old
  views : ∀ j k old, j < w.nvcpu → k < w.nvcpu →
    readReg w b' j (.gicrIsenabler0 k) old = readReg w b' k (.isenabler 0) old ∧
      readReg w b' j (.gicrIcenabler0 k) old = readReg w b' k (.icenabler 0) old

theorem reads_of_wired (h : Wired w b.hv) {reg : ConfigReg} (hj : j < w.nvcpu) (hReg : reg.Readable w) (old : Nat) :
    ∃ v, readReg w b j reg old = .ok (0, v) ∧ Shows w b.hv j reg v ∧
      ∀ n cpu t ipa, destination b (w.vcpu j) t = old → Hits b.hv (w.vcpu j) ipa reg.window reg.offset →
        mmioEmulate n b cpu (w.vcpu j) t ⟨ipa, 2, 0⟩ = .ok (setDestination b (w.vcpu j) t v, 0) := by
  have hRead := readReg_eq h hj reg hReg old
  refine ⟨_, hRead, shows_orUpTo w b.hv j reg, ?_⟩
  rintro n cpu t ipa rfl hHits
  rw [readReg] at hRead
  rw [mmioEmulate_load hHits, hRead, ok_bind]
  rfl

/-- The configuration of a VM's interrupts is a store, for any sequence of writes by its vcpus. -/
theorem config_acts_as_store (h : Wired w b.hv) (ops : List RegWrite) (hOps : ∀ op ∈ ops, op.Valid w) :
    ∃ b', ops.foldlM (RegWrite.run w) b = .ok b' ∧ ActsAsStore w b ops b' := by
  have hRun : ops.foldlM (RegWrite.run w) b = .ok (ops.foldl (RegWrite.next w) b) := by
    apply foldlM_eq_foldl (I := fun b' => SameWires b.hv b'.hv)
    · intro op hOp b' hSame
      exact ⟨RegWrite.run_eq (h.congr hSame) (hOps op hOp), hSame.trans (sameWires_next w b' op)⟩
    · exact ⟨rfl, rfl, rfl⟩
  have hSame : SameWires b.hv (ops.foldl (RegWrite.next w) b).hv := by
    refine List.foldlRecOn (motive := fun b' : Board => SameWires b.hv b'.hv) ops _ ⟨rfl, rfl, rfl⟩ ?_
    intro b' hb' op _
    exact hb'.trans (sameWires_next w b' op)
  have hWired := h.congr hSame
  refine ⟨_, hRun, ?_, ?_, ?_, ?_, ?_, ?_⟩
  · intro k m hk hm
    refine get_foldl_latest (f := RegWrite.next w) (g := fun b => (w.irq b.hv k m).enabled)
      (I := fun b' => SameWires b.hv b'.hv) ops ?_ b ⟨rfl, rfl, rfl⟩
    intro op hOp b' hb'
    exact ⟨hb'.trans (sameWires_next w b' op), (irq_next_fields (h.congr hb') (hOps op hOp) hk hm).1⟩
  · intro k m hk hm
    refine get_foldl_latest (f := RegWrite.next w) (g := fun b => (w.irq b.hv k m).priority)
      (I := fun b' => SameWires b.hv b'.hv) ops ?_ b ⟨rfl, rfl, rfl⟩
    intro op hOp b' hb'
    exact ⟨hb'.trans (sameWires_next w b' op), (irq_next_fields (h.congr hb') (hOps op hOp) hk hm).2.1⟩
  · intro k m hk hm
    refine get_foldl_latest (f := RegWrite.next w) (g := fun b => (w.irq b.hv k m).target)
      (I := fun b' => SameWires b.hv b'.hv) ops ?_ b ⟨rfl, rfl, rfl⟩
    intro op hOp b' hb'
    exact ⟨hb'.trans (sameWires_next w b' op), (irq_next_fields (h.congr hb') (hOps op hOp) hk hm).2.2.1⟩
  · intro j reg old hj hReg
    exact reads_of_wired hWired hj hReg old
  · intro j n old hj hn
    rw [readReg_eq hWired hj (.isenabler n) hn, readReg_eq hWired hj (.icenabler n) hn]
    rfl
  · intro j k old hj hk
    rw [readReg_eq hWired hj (.gicrIsenabler0 k) hk, readReg_eq hWired hj (.gicrIcenabler0 k) hk,
      readReg_eq hWired hk (.isenabler 0) (by decide : 0 < 32),
      readReg_eq hWired hk (.icenabler 0) (by decide : 0 < 32)]
    exact ⟨rfl, rfl⟩

end

theorem config_acts_as_store_small :
    ∃ b', [⟨0, 0, .isenabler 1, 2⟩, ⟨1, 1, .itargetsr 8, 0x0201⟩, ⟨1, 1, .gicrIcenabler0 0, 1⟩].foldlM
      (RegWrite.run smallWiring) smallBoard = .ok b' ∧
      ActsAsStore smallWiring smallBoard [⟨0, 0, .isenabler 1, 2⟩, ⟨1, 1, .itargetsr 8, 0x0201⟩,
        ⟨1, 1, .gicrIcenabler0 0, 1⟩] b' := by
  apply config_acts_as_store (b := smallBoard) smallBoard_wired
  simp only [List.mem_cons, List.not_mem_nil, or_false]
  rintro op (rfl | rfl | rfl)
  · exact ⟨by decide, (by decide : 1 < 32)⟩
  · exact ⟨by decide, (by decide : 8 ≤ 8), (by decide : 8 < 255)⟩
  · exact ⟨by decide, (by decide : 0 < 2)⟩

end HyperPoc.Vgic
