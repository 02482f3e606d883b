import HyperPoc.Gic.Coverage
import HyperPoc.Gic.Delivery

/-! # Interrupts that the hypervisor takes itself

`el2_irq_handler` ends with a write to `ICC_EOIR1_EL1`. In EOImode 1, which `init_gicc_v3` selects, this
write leaves the interrupt active; `gic_host_eoi` would deactivate it, but nothing calls it. So the
physical timer, rearmed by the handler, is heard once.
-/
namespace HyperPoc.Gic
open Library.Run
set_option autoImplicit false

/-- `CNTP_CTL_EL0` and what was last written to `CNTP_TVAL_EL0`. -/
structure PhysTimer where
  ctl : Nat
  tval : Nat

/-- A core that runs the hypervisor, with the devices its handler serves; `taken` has the values read from
`ICC_IAR1_EL1`, the last one first. -/
structure HostCore where
  gic : Distributor
  iccCtlrEl1 : Nat
  timer : PhysTimer
  uartRis : Nat
  gFreq : Nat
  taken : List Nat

def physicalTimerIrq : Nat := 30
def uartIrq : Nat := 33

def enableTimer (t : PhysTimer) : PhysTimer := { t with ctl := (t.ctl ||| 1 <<< 0) &&& (2 ^ 64 - 1 - 1 <<< 1) }

def disableTimer (t : PhysTimer) : PhysTimer := { t with ctl := (t.ctl &&& (2 ^ 64 - 1 - 1 <<< 0)) ||| 1 <<< 1 }

def reloadTimer (gFreq : Nat) (t : PhysTimer) : PhysTimer := { t with tval := gFreq / 10000 }

namespace HostCore

/-- All bits of `ICR` are written. -/
def clearUartInterrupt (c : HostCore) : HostCore := { c with uartRis := c.uartRis &&& (0xffffffff ^^^ 0xffff) }

def gicDeactiveIrq (c : HostCore) (irq : Nat) : HostCore :=
  { c with gic := { c.gic with active := Function.update c.gic.active irq false } }

/-- `ICC_EOIR1_EL1` deactivates in EOImode 0 only. -/
def writeEoir1 (c : HostCore) (irq : Nat) : HostCore := if c.iccCtlrEl1.testBit 1 then c else c.gicDeactiveIrq irq

def gicHostEoi (c : HostCore) (irq : Nat) : HostCore := (c.writeEoir1 irq).gicDeactiveIrq irq

def serve (c : HostCore) (irq : Nat) : HostCore :=
  if irq = uartIrq then c.clearUartInterrupt
  else if irq = physicalTimerIrq then { c with timer := enableTimer (reloadTimer c.gFreq (disableTimer c.timer)) }
  else c

def el2IrqHandler (c : HostCore) (irq : Nat) : HostCore := (c.serve irq).writeEoir1 irq

end HostCore

/-- Devices raise and drop their lines, and the core takes interrupts with `handler`. -/
inductive HostStep (handler : HostCore → Nat → HostCore) : HostCore → HostCore → Prop
  | device (c : HostCore) (n : Nat) (level : Bool) :
      HostStep handler c { c with gic := { c.gic with pending := Function.update c.gic.pending n level } }
  | irq {c : HostCore} {iar : Nat} {gic : Distributor} (hIar : ReadIar c.gic iar gic) :
      HostStep handler c (handler { c with gic := gic, taken := iar :: c.taken } iar)

def HostRun (handler : HostCore → Nat → HostCore) : HostCore → HostCore → Prop :=
  Relation.ReflTransGen (HostStep handler)

structure PhysTimer.Armed (t : PhysTimer) (gFreq : Nat) : Prop where
  enabled : t.ctl.testBit 0 = true
  unmasked : t.ctl.testBit 1 = false
  tval : t.tval = gFreq / 10000

/-- All that was taken is active for good. -/
structure Stuck (c : HostCore) : Prop where
  mode : c.iccCtlrEl1.testBit 1 = true
  active : ∀ n ∈ c.taken, n < 1020 → c.gic.active n = true
  once : (c.taken.filter (· < 1020)).Nodup
  timer : physicalTimerIrq ∈ c.taken → c.timer.Armed c.gFreq

section
variable {c c' : HostCore}

theorem enableTimer_armed (t : PhysTimer) (gFreq : Nat) :
    (enableTimer (reloadTimer gFreq (disableTimer t))).Armed gFreq := by
  refine ⟨?_, ?_, rfl⟩
  · rw [enableTimer, Nat.testBit_and, Nat.testBit_or, (by decide : (1 <<< 0).testBit 0 = true), Bool.or_true]
    decide
  · rw [enableTimer, Nat.testBit_and, (by decide : (2 ^ 64 - 1 - 1 <<< 1).testBit 1 = false), Bool.and_false]

theorem serve_same (c : HostCore) (irq : Nat) : (c.serve irq).gic = c.gic ∧ (c.serve irq).taken = c.taken ∧
    (c.serve irq).iccCtlrEl1 = c.iccCtlrEl1 ∧ (c.serve irq).gFreq = c.gFreq := by
  rw [HostCore.serve]
  split
  · exact ⟨rfl, rfl, rfl, rfl⟩
  split
  · exact ⟨rfl, rfl, rfl, rfl⟩
  · exact ⟨rfl, rfl, rfl, rfl⟩

theorem serve_timer (c : HostCore) {irq : Nat} (h : c.timer.Armed c.gFreq ∨ irq = physicalTimerIrq) :
    (c.serve irq).timer.Armed c.gFreq := by
  rw [HostCore.serve]
  split
  · rename_i hUart
    obtain hArmed | hTimer := h
    · exact hArmed
    · exact absurd (hUart.symm.trans hTimer) (by decide)
  split
  · exact enableTimer_armed _ _
  · rename_i hTimer
    exact h.resolve_right hTimer

theorem el2IrqHandler_eq (hMode : c.iccCtlrEl1.testBit 1 = true) (irq : Nat) : c.el2IrqHandler irq = c.serve irq := by
  rw [HostCore.el2IrqHandler, HostCore.writeEoir1, (serve_same c irq).2.2.1, if_pos hMode]

theorem el2IrqHandler_taken (c : HostCore) (irq : Nat) : (c.el2IrqHandler irq).taken = c.taken := by
  rw [HostCore.el2IrqHandler, HostCore.writeEoir1]
  split
  · exact (serve_same c irq).2.1
  · exact (serve_same c irq).2.1

theorem Stuck.step (h : Stuck c) (hStep : HostStep HostCore.el2IrqHandler c c') : Stuck c' := by
  cases hStep with
  | device n level => exact ⟨h.mode, h.active, h.once, h.timer⟩
  | @irq iar gic hIar =>
    obtain ⟨hGic, hTaken, hCtlr, hFreq⟩ := serve_same { c with gic := gic, taken := iar :: c.taken } iar
    rw [el2IrqHandler_eq (c := { c with gic := gic, taken := iar :: c.taken }) h.mode iar]
    have hTimer : physicalTimerIrq ∈ iar :: c.taken → c.timer.Armed c.gFreq ∨ iar = physicalTimerIrq := by
      intro hMem
      obtain hNow | hBefore := List.mem_cons.mp hMem
      · exact .inr hNow.symm
      · exact .inl (h.timer hBefore)
    refine ⟨?_, ?_, ?_, ?_⟩
    · rw [hCtlr]
      exact h.mode
    · rw [hTaken, hGic]
      intro n hn hLt
      cases hIar with
      | spurious =>
        obtain rfl | hBefore := List.mem_cons.mp hn
        · exact absurd hLt (by decide)
        · exact h.active n hBefore hLt
      | ack =>
        obtain rfl | hNe := eq_or_ne n iar
        · exact Function.update_self _ _ _
        · obtain hNow | hBefore := List.mem_cons.mp hn
          · exact absurd hNow hNe
          · exact (Function.update_of_ne hNe _ _).trans (h.active n hBefore hLt)
    · rw [hTaken]
      cases hIar with
      | spurious =>
        rw [List.filter_cons_of_neg (by decide)]
        exact h.once
      | ack _ hDeliverable =>
        obtain ⟨hLt, _, hOff⟩ := hDeliverable
        dsimp only
        rw [List.filter_cons_of_pos (by simpa using hLt), List.nodup_cons]
        refine ⟨?_, h.once⟩
        intro hMem
        rw [h.active iar (List.mem_filter.mp hMem).1 hLt] at hOff
        cases hOff
    · rw [hTaken, hFreq]
      exact fun hMem => serve_timer _ (hTimer hMem)

/-- With `gic_host_eoi` nothing would be left active. -/
theorem hostEoi_releases (hFree : ∀ n, c.gic.active n = false)
    (hRun : HostRun (fun c irq => (c.serve irq).gicHostEoi irq) c c') : ∀ n, c'.gic.active n = false := by
  induction hRun with
  | refl => exact hFree
  | @tail c₁ c₂ _ hStep ih =>
    intro n
    cases hStep with
    | device => exact ih n
    | @irq iar gic hIar =>
      have hGic := (serve_same { c₁ with gic := gic, taken := iar :: c₁.taken } iar).1
      obtain rfl | hNe := eq_or_ne n iar
      · exact Function.update_self _ _ _
      have hEoir : ((HostCore.serve { c₁ with gic := gic, taken := iar :: c₁.taken } iar).writeEoir1 iar).gic.active
          n = gic.active n := by
        rw [HostCore.writeEoir1]
        split
        · rw [hGic]
        · exact (Function.update_of_ne hNe _ _).trans (by rw [hGic])
      refine (Function.update_of_ne hNe _ _).trans (hEoir.trans ?_)
      cases hIar with
      | spurious => exact ih n
      | ack => exact (Function.update_of_ne hNe _ _).trans (ih n)

end

theorem gicrW32_icc (s : Init.Controller) (cpu offset val : Nat) : (s.gicrW32 cpu offset val).icc = s.icc := by
  simp only [Init.Controller.gicrW32]
  repeat' split
  all_goals rfl

theorem gicv3Init_eoiMode (s : Init.Controller) (cpu : Nat) :
    ((Init.gicv3Init s cpu).icc cpu).iccCtlrEl1.testBit 1 = true := by
  simp only [Init.gicv3Init, Init.initGicv3Percpu, Init.initGichV3, Init.initGicrV3, Init.initGiccV3, gicrW32_icc,
    Function.update_self, Init.CpuInterface.init, Nat.testBit_or]
  exact Bool.or_eq_true_iff.mpr (.inr (by decide))

/-- On an initialised core every interrupt is taken at most once by the hypervisor and never delivered again. This
goes for the timer, although the handler leaves it counting and unmasked. -/
theorem host_irq_once (s : Init.Controller) (cpu : Nat) {c₀ c : HostCore}
    (hCtlr : c₀.iccCtlrEl1 = ((Init.gicv3Init s cpu).icc cpu).iccCtlrEl1) (hTaken : c₀.taken = [])
    (hRun : HostRun HostCore.el2IrqHandler c₀ c) :
    (c.taken.filter (· < 1020)).Nodup ∧ (∀ n ∈ c.taken, ¬Deliverable c.gic n) ∧
    (physicalTimerIrq ∈ c.taken → c.timer.Armed c.gFreq) := by
  have hStart : Stuck c₀ := by
    refine ⟨?_, ?_, ?_, ?_⟩
    · rw [hCtlr]
      exact gicv3Init_eoiMode s cpu
    · rw [hTaken]
      exact fun n hn => absurd hn List.not_mem_nil
    · rw [hTaken]
      exact List.nodup_nil
    · rw [hTaken]
      exact fun hn => absurd hn List.not_mem_nil
  have hStuck := invariant (fun _ _ h hStep => h.step hStep) hStart hRun
  refine ⟨hStuck.once, ?_, hStuck.timer⟩
  rintro n hn ⟨hLt, _, hOff⟩
  rw [hStuck.active n hn hLt] at hOff
  cases hOff

def idleCore : HostCore :=
  ⟨⟨fun _ => false, fun _ => false⟩, ((Init.gicv3Init Init.blankController 0).icc 0).iccCtlrEl1, ⟨0, 0⟩, 0,
    62500000, []⟩

theorem fires_again {c : HostCore} (hOff : c.gic.active physicalTimerIrq = false) :
    ∃ c', HostRun HostCore.el2IrqHandler c c' ∧ physicalTimerIrq ∈ c'.taken ∧
      c'.gic.pending physicalTimerIrq = true := by
  have hAck : Deliverable ⟨Function.update c.gic.pending physicalTimerIrq true, c.gic.active⟩ physicalTimerIrq :=
    ⟨by decide, by simp, hOff⟩
  have hRaised : HostRun HostCore.el2IrqHandler c _ := .single (.device c physicalTimerIrq true)
  have hServed := hRaised.tail (.irq (.ack physicalTimerIrq hAck))
  refine ⟨_, hServed.tail (.device _ physicalTimerIrq true), ?_, ?_⟩
  · dsimp only
    rw [el2IrqHandler_taken]
    exact List.mem_cons_self
  · dsimp only
    rw [Function.update_self]

theorem host_irq_once_timer : ∃ c, HostRun HostCore.el2IrqHandler idleCore c ∧ physicalTimerIrq ∈ c.taken ∧
    c.gic.pending physicalTimerIrq = true ∧ ¬Deliverable c.gic physicalTimerIrq ∧ c.timer.Armed c.gFreq := by
  have hCtlr : idleCore.iccCtlrEl1 = ((Init.gicv3Init Init.blankController 0).icc 0).iccCtlrEl1 := by
    simp only [idleCore]
  obtain ⟨c, hRun, hMem, hPending⟩ := fires_again (c := idleCore) rfl
  obtain ⟨_, hNever, hTimer⟩ := host_irq_once Init.blankController 0 hCtlr rfl hRun
  exact ⟨c, hRun, hMem, hPending, hNever _ hMem, hTimer hMem⟩

end HyperPoc.Gic
