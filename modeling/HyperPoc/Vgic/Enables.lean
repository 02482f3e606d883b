import HyperPoc.Vgic.Store

/-! # Guest enables and the physical controller

The writes to the enable registers call `gic_irq_enable` and `gic_irq_disable` for the 1s they carry.
Disabling writes to a set-enable register, where it has no effect: an interrupt that was once enabled
stays enabled for ever.
-/
namespace HyperPoc.Vgic
open Library.Packing Library.Run Library.LastWrite Gic
set_option autoImplicit false

/-- A call of `gic_irq_enable` (`on`) or `gic_irq_disable` on `cpu`. -/
structure GicCall where
  cpu : Nat
  irq : Nat
  on : Bool

namespace GicCall

def run (g : PhysGic) (c : GicCall) : PhysGic := switchOne g c.cpu c.irq c.on

/-- What the call should leave for an interrupt, if it names it. -/
def sets (c : GicCall) (cpu irq : Nat) : Option Bool := if SameIrq cpu irq c.cpu c.irq then some c.on else none

end GicCall

/-- Each interrupt whose last call is a disable was neither enabled before the calls nor by one of them. -/
def NeverUndone (g : PhysGic) (calls : List GicCall) : Prop :=
  ∀ cpu irq, latest (fun c => c.sets cpu irq) calls = some false →
    g.enabled cpu irq = false ∧ ∀ c ∈ calls, c.sets cpu irq ≠ some true

/-- The calls a guest's write issues. -/
def RegWrite.calls (op : RegWrite) : List GicCall :=
  match op.reg.family with
  | .enables on => ((List.range 32).filter op.val.testBit).map fun i => ⟨op.cpu, op.reg.first + i, on⟩
  | _ => []

section
variable {g : PhysGic} {cpu irq : Nat}

theorem enabled_call {c : GicCall} (hIrq : c.irq < 1024) :
    (c.run g).enabled cpu irq = (g.enabled cpu irq || c.sets cpu irq == some true) := by
  rw [GicCall.run, GicCall.sets, switchOne]
  cases c.on with
  | true =>
    rw [if_pos rfl, gicIrqEnable_enabled g c.cpu c.irq hIrq]
    split
    · rename_i hSame
      simp [hSame]
    · rename_i hSame
      simp [hSame]
  | false =>
    rw [if_neg Bool.false_ne_true, gicIrqDisable_enabled g c.cpu c.irq hIrq]
    split <;> simp

theorem enabled_calls {calls : List GicCall} (hIrq : ∀ c ∈ calls, c.irq < 1024) :
    (calls.foldl GicCall.run g).enabled cpu irq = true ↔
      g.enabled cpu irq = true ∨ ∃ c ∈ calls, c.sets cpu irq = some true := by
  induction calls generalizing g with
  | nil => simp
  | cons c calls ih =>
    rw [List.foldl_cons, ih fun c' h => hIrq c' (List.mem_cons_of_mem _ h), enabled_call (hIrq c List.mem_cons_self)]
    simp only [Bool.or_eq_true, beq_iff_eq, List.mem_cons, exists_eq_or_imp, or_assoc]

theorem calls_followed_iff {calls : List GicCall} (hIrq : ∀ c ∈ calls, c.irq < 1024) :
    (∀ cpu irq, (calls.foldl GicCall.run g).enabled cpu irq =
      (latest (fun c => c.sets cpu irq) calls).getD (g.enabled cpu irq)) ↔ NeverUndone g calls := by
  constructor
  · intro hFollow cpu irq hLast
    have hOff := hFollow cpu irq
    rw [hLast, Option.getD_some, ← Bool.not_eq_true, enabled_calls hIrq, not_or] at hOff
    obtain ⟨hBefore, hNone⟩ := hOff
    exact ⟨by simpa using hBefore, fun c hc hSets => hNone ⟨c, hc, hSets⟩⟩
  · intro hUndone cpu irq
    rw [Bool.eq_iff_iff, enabled_calls hIrq]
    cases hLast : latest (fun c => c.sets cpu irq) calls with
    | none =>
      rw [Option.getD_none]
      constructor
      · rintro (hBefore | ⟨c, hc, hSets⟩)
        · exact hBefore
        · cases (latest_eq_none hLast c hc).symm.trans hSets
      · exact .inl
    | some on =>
      rw [Option.getD_some]
      cases on with
      | true =>
        obtain ⟨c, hc, hSets⟩ := exists_of_latest hLast
        exact ⟨fun _ => rfl, fun _ => .inr ⟨c, hc, hSets⟩⟩
      | false =>
        obtain ⟨hBefore, hNone⟩ := hUndone cpu irq hLast
        constructor
        · rintro (hOn | ⟨c, hc, hSets⟩)
          · cases hBefore.symm.trans hOn
          · exact False.elim (hNone c hc hSets)
        · intro h
          cases h

end

section
variable {w : Wiring} {b : Board}

theorem switchAll_eq_calls (op : RegWrite) (g : PhysGic) (on : Bool) (hFamily : op.reg.family = .enables on) :
    switchAll g op.cpu op.reg.first op.val on = op.calls.foldl GicCall.run g := by
  rw [RegWrite.calls, hFamily]
  dsimp only
  rw [List.foldl_map, List.foldl_filter, switchAll]
  rfl

theorem count_of_enables {reg : ConfigReg} {on : Bool} (hFamily : reg.family = .enables on) : reg.count = 32 := by
  revert hFamily
  cases reg <;> simp [ConfigReg.family, ConfigReg.count]

theorem mem_calls {op : RegWrite} {on : Bool} (hFamily : op.reg.family = .enables on) {c : GicCall} :
    c ∈ op.calls ↔ ∃ i, i < 32 ∧ op.val.testBit i = true ∧ c = ⟨op.cpu, op.reg.first + i, on⟩ := by
  rw [RegWrite.calls, hFamily]
  simp only [List.mem_map, List.mem_filter, List.mem_range, and_assoc]
  constructor
  · rintro ⟨i, hi, hBit, rfl⟩
    exact ⟨i, hi, hBit, rfl⟩
  · rintro ⟨i, hi, hBit, rfl⟩
    exact ⟨i, hi, hBit, rfl⟩

theorem calls_lt {op : RegWrite} (hOp : op.Valid w) : ∀ c ∈ op.calls, c.irq < 1024 := by
  intro c hc
  have hFirst := first_le (readable_of_writable hOp.2)
  cases hFamily : op.reg.family with
  | enables on =>
    obtain ⟨i, hi, _, rfl⟩ := (mem_calls hFamily).mp hc
    rw [count_of_enables hFamily] at hFirst
    dsimp only
    omega
  | priorities =>
    rw [RegWrite.calls, hFamily] at hc
    cases hc
  | targets =>
    rw [RegWrite.calls, hFamily] at hc
    cases hc

theorem enabled_of_clear {op : RegWrite} (hOp : op.Valid w) (hFamily : op.reg.family = .enables false) (g : PhysGic)
    (cpu irq : Nat) : (op.calls.foldl GicCall.run g).enabled cpu irq = g.enabled cpu irq := by
  rw [Bool.eq_iff_iff, enabled_calls (calls_lt hOp)]
  constructor
  · rintro (hBefore | ⟨c, hc, hSets⟩)
    · exact hBefore
    · obtain ⟨i, _, _, rfl⟩ := (mem_calls hFamily).mp hc
      rw [GicCall.sets] at hSets
      split at hSets
      · cases hSets
      · cases hSets
  · exact .inl

/-- The enable state of the hardware is what the calls say exactly if none of them has to undo an enable. A write to a
clear-enable register clears the shadow bits it names, and leaves the hardware bits as they are. -/
theorem hardware_follows_calls_iff (g : PhysGic) (calls : List GicCall) (hIrq : ∀ c ∈ calls, c.irq < 1024) :
    ((∀ cpu irq, (calls.foldl GicCall.run g).enabled cpu irq =
      (latest (fun c => c.sets cpu irq) calls).getD (g.enabled cpu irq)) ↔ NeverUndone g calls) ∧
    ∀ (w : Wiring) (b : Board) (op : RegWrite), Wired w b.hv → op.Valid w → op.reg.family = .enables false →
      ∃ b', op.run w b = .ok b' ∧ b'.gic = op.calls.foldl GicCall.run b.gic ∧
        ∀ k m, k < w.nvcpu → op.reg.Names op.vcpu k m → op.val.testBit (m - op.reg.first) = true →
          (w.irq b'.hv k m).enabled = false ∧ b'.gic.enabled op.cpu m = b.gic.enabled op.cpu m := by
  refine ⟨calls_followed_iff hIrq, ?_⟩
  intro w b op h hOp hFamily
  have hGic : (op.next w b).gic = op.calls.foldl GicCall.run b.gic := by
    rw [← switchAll_eq_calls op b.gic false hFamily, RegWrite.next, RegWrite.drives, hFamily]
  refine ⟨_, RegWrite.run_eq h hOp, hGic, ?_⟩
  intro k m hk hNames hBit
  have hFirst := first_le (readable_of_writable hOp.2)
  obtain ⟨hLow, hHigh, hCpu⟩ := hNames
  constructor
  · rw [(irq_next_fields h hOp hk (by omega)).1, RegWrite.enable, hFamily]
    dsimp only
    rw [if_pos ⟨⟨hLow, hHigh, hCpu⟩, hBit⟩, Option.getD_some]
  · rw [hGic]
    exact enabled_of_clear hOp hFamily b.gic op.cpu m

end

def switchSpis (val : Nat) (on : Bool) : RegWrite := ⟨0, 0, if on then .isenabler 1 else .icenabler 1, val⟩

theorem switchSpis_valid (val : Nat) (on : Bool) : (switchSpis val on).Valid smallWiring := by
  cases on with
  | false => exact ⟨(by decide : 0 < 2), (by decide : 1 < 32)⟩
  | true => exact ⟨(by decide : 0 < 2), (by decide : 1 < 32)⟩

def enabledBoard : Board := (switchSpis 0x200 true).next smallWiring smallBoard

theorem enabledBoard_wired : Wired smallWiring enabledBoard.hv :=
  smallBoard_wired.congr (sameWires_next smallWiring smallBoard (switchSpis 0x200 true))

theorem enabledBoard_enabled (cpu irq : Nat) : enabledBoard.gic.enabled cpu irq = true ↔ irq = 41 := by
  have hGic : enabledBoard.gic = [GicCall.mk 0 41 true].foldl GicCall.run smallBoard.gic := rfl
  rw [hGic, enabled_calls (by simp)]
  constructor
  · rintro (hBefore | ⟨c, hc, hSets⟩)
    · rw [show smallBoard.gic.enabled cpu irq = false from ite_self _] at hBefore
      cases hBefore
    · rw [List.mem_singleton.mp hc, GicCall.sets] at hSets
      split at hSets
      · rename_i hSame
        exact hSame.1
      · cases hSets
  · rintro rfl
    exact .inr ⟨_, List.mem_singleton_self _, if_pos ⟨rfl, fun h => absurd h (by decide)⟩⟩

/-- SPI 40, which is off, is disabled and SPI 42 is enabled. -/
def mixedCalls : List GicCall := [⟨0, 40, false⟩, ⟨0, 42, true⟩]

theorem mixedCalls_neverUndone : NeverUndone enabledBoard.gic mixedCalls := by
  intro cpu irq hLast
  have hIrq : irq = 40 := by
    obtain ⟨c, hc, hSets⟩ := exists_of_latest hLast
    rw [GicCall.sets] at hSets
    split at hSets
    · rename_i hSame
      rcases List.mem_cons.mp hc with rfl | hc
      · exact hSame.1
      · rw [List.mem_singleton.mp hc] at hSets
        cases hSets
    · cases hSets
  subst hIrq
  constructor
  · rw [← Bool.not_eq_true, enabledBoard_enabled]
    decide
  · intro c hc hSets
    rw [GicCall.sets] at hSets
    split at hSets
    · rename_i hSame
      rcases List.mem_cons.mp hc with rfl | hc
      · cases hSets
      · rw [List.mem_singleton.mp hc] at hSame
        cases hSame.1
    · cases hSets

/-- With SPI 41 on the mixed calls are followed. A write to the clear-enable register of SPI 41 clears its shadow bit,
and the hardware bit stays set. -/
theorem hardware_follows_calls_mixed :
    (∀ cpu irq, (mixedCalls.foldl GicCall.run enabledBoard.gic).enabled cpu irq =
      (latest (fun c => c.sets cpu irq) mixedCalls).getD (enabledBoard.gic.enabled cpu irq)) ∧
    ∃ b', (switchSpis 0x200 false).run smallWiring enabledBoard = .ok b' ∧
      (smallWiring.irq enabledBoard.hv 0 41).enabled = true ∧ (smallWiring.irq b'.hv 0 41).enabled = false ∧
      b'.gic.enabled 0 41 = true := by
  obtain ⟨hIff, hGuest⟩ := hardware_follows_calls_iff enabledBoard.gic mixedCalls (by simp [mixedCalls])
  obtain ⟨b', hRun, _, hBits⟩ := hGuest smallWiring enabledBoard (switchSpis 0x200 false) enabledBoard_wired
    (switchSpis_valid 0x200 false) rfl
  obtain ⟨hShadow, hHardware⟩ := hBits 0 41 (by decide) (by decide) (by decide)
  refine ⟨hIff.mpr mixedCalls_neverUndone, b', hRun, ?_, hShadow,
    hHardware.trans ((enabledBoard_enabled 0 41).mpr rfl)⟩
  rw [enabledBoard, (irq_next_fields smallBoard_wired (switchSpis_valid 0x200 true) (by decide) (by decide)).1]
  rfl

/-- A guest enables SPI 40 and disables it again: the shadow bit is clear, the hardware bit is set. -/
theorem hardware_stays_enabled :
    ∃ b', [switchSpis 0x100 true, switchSpis 0x100 false].foldlM (RegWrite.run smallWiring) smallBoard = .ok b' ∧
      (smallWiring.irq b'.hv 0 40).enabled = false ∧ b'.gic.enabled 0 40 = true ∧
      b'.gic = ((switchSpis 0x100 true).calls ++ (switchSpis 0x100 false).calls).foldl GicCall.run smallBoard.gic ∧
      latest (fun c => c.sets 0 40) ((switchSpis 0x100 true).calls ++ (switchSpis 0x100 false).calls) = some false := by
  have hWired := smallBoard_wired.congr (sameWires_next smallWiring smallBoard (switchSpis 0x100 true))
  refine ⟨(switchSpis 0x100 false).next smallWiring ((switchSpis 0x100 true).next smallWiring smallBoard), ?_, ?_, ?_,
    ?_, ?_⟩
  · rw [List.foldlM_cons, RegWrite.run_eq smallBoard_wired (switchSpis_valid 0x100 true), ok_bind, List.foldlM_cons,
      RegWrite.run_eq hWired (switchSpis_valid 0x100 false), ok_bind]
    rfl
  · rw [(irq_next_fields hWired (switchSpis_valid 0x100 false) (by decide) (by decide)).1]
    rfl
  · decide +kernel
  · rfl
  · decide +kernel

end HyperPoc.Vgic
