import HyperPoc.FirstVm

/-! # Bringing up the other cores

The guest turns on its vcpus with CPU_ON. Firmware starts the core of the same number in `_start`, and
from `vmm_init_secondary` it gets to `enter_vcpu`, which loads the registers of the vcpu and leaves for
the guest. The calls and the entries of the cores may come in any order in which a core is turned on
before it enters.
-/
namespace HyperPoc
open Library.Run Vgic
set_option autoImplicit false

/-- The members of `vcpu->sys` that only the guest gives a meaning to. -/
structure GuestSys where
  spsrEl1 : Nat
  elrEl1 : Nat
  spEl0 : Nat
  spEl1 : Nat
  ttbr0El1 : Nat
  ttbr1El1 : Nat
  tcrEl1 : Nat
  vbarEl1 : Nat
  cntvCtlEl0 : Nat
  cntvTvalEl0 : Nat

/-- What `switch_to_vcpu` and `eret_vm` write on a core; the pointer in `tpidr_el2` is the index of the vcpu. -/
structure Core where
  tpidrEl2 : Nat
  vttbrEl2 : Nat
  vmpidrEl2 : Nat
  vpidrEl2 : Nat
  sctlrEl1 : Nat
  cntfrqEl0 : Nat
  sys : GuestSys
  ichVmcrEl2 : Nat
  ichLr : Nat → Nat
  x : Nat → Nat
  spsrEl2 : Nat
  elrEl2 : Nat

structure Smp where
  board : Board
  sys : Nat → GuestSys
  cores : Nat → Core

def restoreSysreg (v : Vcpu) (sys : GuestSys) (c : Core) : Core :=
  { c with
    sys := sys
    vmpidrEl2 := v.mpidrEl1
    vpidrEl2 := v.midrEl1
    sctlrEl1 := v.sctlrEl1
    cntfrqEl0 := v.cntfrqEl0 }

/-- The cases of the switch from `n` on, each falling through to the next. -/
def restoreLrsFrom (gic : GicState) : Nat → (Nat → Nat) → Nat → Nat
  | 0, lr => Function.update lr 0 (gic.lr 0)
  | n + 1, lr => restoreLrsFrom gic n (Function.update lr (n + 1) (gic.lr (n + 1)))

/-- The switch is on `g_gic_lr_max - 1` and has the cases up to 15. -/
def gicRestoreLr (lrMax : Nat) (gic : GicState) (lr : Nat → Nat) : Nat → Nat :=
  if 0 < lrMax ∧ lrMax ≤ 16 then restoreLrsFrom gic (lrMax - 1) lr else lr

/-- `gic->sre_el1`, which is joined to `ICC_SRE_EL1`, is 0 for ever. -/
def gicRestoreState (lrMax : Nat) (gic : GicState) (c : Core) : Core :=
  { c with ichVmcrEl2 := gic.vmcrEl2, ichLr := gicRestoreLr lrMax gic c.ichLr }

def Core.eretVm (v : Vcpu) (x : Nat → Nat) (c : Core) : Core :=
  { c with x := x, spsrEl2 := v.spsrEl2, elrEl2 := v.elrEl2 }

/-- `enter_vcpu` with all that `switch_to_vcpu` does. -/
def enterGuest (m : Smp) (cpu : Nat) : Outcome Smp := do
  let s ← Trap.enterVcpu m.board.hv cpu
  let vm ← deref (s.vcpus cpu).vm
  let c := { m.cores cpu with tpidrEl2 := cpu, vttbrEl2 := (s.vms vm).stage2Pt }
  let c := restoreSysreg (s.vcpus cpu) (m.sys cpu) c
  let c := gicRestoreState s.gicLrMax (s.vcpus cpu).gic c
  let c := c.eretVm (s.vcpus cpu) (m.board.x cpu)
  return { m with board := { m.board with hv := s }, cores := Function.update m.cores cpu c }

inductive BootStep
  | on (e : Trap.GuestTrap)
  | enter (cpu : Nat)

def bootStep (m : Smp) : BootStep → Outcome Smp
  | .on e => do return { m with board := ← Trap.takeTrap m.board e }
  | .enter cpu => enterGuest m cpu

def bringUp (m : Smp) (steps : List BootStep) : Outcome Smp := steps.foldlM bootStep m

/-- Vcpu 0 calls CPU_ON for another vcpu, and firmware grants it. -/
structure IsCpuOn (nvcpu : Nat) (e : Trap.GuestTrap) : Prop where
  vcpu : e.vcpu = 0
  esr : Trap.getSyncTrapHandler e.esr = some .hvc
  fid : e.x 0 = Trap.psciCpuOnSmc64
  target : 0 < e.x 1 ∧ e.x 1 < nvcpu
  granted : e.firmware % 2 ^ 32 = 0

/-- Each core is turned on at most once, and enters at most once and after that. -/
inductive Orderly (nvcpu : Nat) : List BootStep → Prop
  | nil : Orderly nvcpu []
  | on {steps : List BootStep} {e : Trap.GuestTrap} (h : Orderly nvcpu steps) (hCall : IsCpuOn nvcpu e)
      (hNew : ∀ e', .on e' ∈ steps → e'.x 1 ≠ e.x 1) : Orderly nvcpu (steps ++ [.on e])
  | enter {steps : List BootStep} {e : Trap.GuestTrap} (h : Orderly nvcpu steps) (hOn : .on e ∈ steps)
      (hNew : .enter (e.x 1) ∉ steps) : Orderly nvcpu (steps ++ [.enter (e.x 1)])

/-- Core `k` is in the guest of `vm` at `entry`, as vcpu `k`: in EL1 with exceptions masked. -/
structure InGuest (m : Smp) (vm k entry : Nat) : Prop where
  state : (m.board.hv.vcpus k).state = .running
  vcpu : (m.cores k).tpidrEl2 = k
  tables : (m.cores k).vttbrEl2 = (m.board.hv.vms vm).stage2Pt
  pc : (m.cores k).elrEl2 = entry
  mode : (m.cores k).spsrEl2 = 0x3c5
  number : (m.cores k).vmpidrEl2 = 0xffffffff80000000 ||| k
  lrs : ∀ i, i < m.board.hv.gicLrMax → m.board.hv.gicLrMax ≤ 16 →
    (m.cores k).ichLr i = (m.board.hv.vcpus k).gic.lr i

structure Booting (w : Wiring) (steps : List BootStep) (m : Smp) : Prop where
  wired : Wired w m.board.hv
  made : ∀ k, k < w.nvcpu → (m.board.hv.vcpus k).Made
  caller : (m.board.hv.vcpus 0).state = .running
  ready : ∀ e, .on e ∈ steps → .enter (e.x 1) ∉ steps →
    (m.board.hv.vcpus (e.x 1)).state = .ready ∧ (m.board.hv.vcpus (e.x 1)).elrEl2 = e.x 2
  inGuest : ∀ e, .on e ∈ steps → .enter (e.x 1) ∈ steps → InGuest m w.vm (e.x 1) (e.x 2)

section
variable {nvcpu : Nat} {w : Wiring} {m : Smp} {steps : List BootStep} {e : Trap.GuestTrap}

theorem restoreLrsFrom_eq (gic : GicState) (n : Nat) (lr : Nat → Nat) (i : Nat) :
    restoreLrsFrom gic n lr i = if i ≤ n then gic.lr i else lr i := by
  induction n generalizing lr with
  | zero =>
    rw [restoreLrsFrom, Function.update_apply]
    simp only [Nat.le_zero_eq]
    split
    · rename_i hi
      rw [hi]
    · rfl
  | succ n ih =>
    rw [restoreLrsFrom, ih, Function.update_apply]
    split
    · rw [if_pos (by omega)]
    split
    · rename_i hi
      rw [if_pos (by omega), hi]
    · rw [if_neg (by omega)]

theorem Orderly.call (h : Orderly nvcpu steps) (hOn : .on e ∈ steps) : IsCpuOn nvcpu e := by
  induction h with
  | nil => cases hOn
  | @on steps e' _ hCall _ ih =>
    obtain hOld | hNew := List.mem_append.mp hOn
    · exact ih hOld
    · cases List.mem_singleton.mp hNew
      exact hCall
  | enter _ _ _ ih =>
    obtain hOld | hNew := List.mem_append.mp hOn
    · exact ih hOld
    · cases List.mem_singleton.mp hNew

theorem Orderly.turnedOn (h : Orderly nvcpu steps) {k : Nat} (hEnter : .enter k ∈ steps) :
    ∃ e, .on e ∈ steps ∧ e.x 1 = k := by
  induction h with
  | nil => cases hEnter
  | on _ _ _ ih =>
    obtain hOld | hNew := List.mem_append.mp hEnter
    · obtain ⟨e, hOn, hk⟩ := ih hOld
      exact ⟨e, List.mem_append_left _ hOn, hk⟩
    · cases List.mem_singleton.mp hNew
  | @enter steps e' _ hOn' _ ih =>
    obtain hOld | hNew := List.mem_append.mp hEnter
    · obtain ⟨e, hOn, hk⟩ := ih hOld
      exact ⟨e, List.mem_append_left _ hOn, hk⟩
    · cases List.mem_singleton.mp hNew
      exact ⟨e', List.mem_append_left _ hOn', rfl⟩

theorem Orderly.unique (h : Orderly nvcpu steps) {e' : Trap.GuestTrap} (hOn : .on e ∈ steps) (hOn' : .on e' ∈ steps)
    (hEq : e.x 1 = e'.x 1) : e = e' := by
  induction h with
  | nil => cases hOn
  | on _ _ hNew ih =>
    obtain hOld | hLast := List.mem_append.mp hOn
    · obtain hOld' | hLast' := List.mem_append.mp hOn'
      · exact ih hOld hOld'
      · cases List.mem_singleton.mp hLast'
        exact absurd hEq (hNew e hOld)
    · cases List.mem_singleton.mp hLast
      obtain hOld' | hLast' := List.mem_append.mp hOn'
      · exact absurd hEq.symm (hNew e' hOld')
      · cases List.mem_singleton.mp hLast'
        rfl
  | enter _ _ _ ih =>
    obtain hOld | hLast := List.mem_append.mp hOn
    · obtain hOld' | hLast' := List.mem_append.mp hOn'
      · exact ih hOld hOld'
      · cases List.mem_singleton.mp hLast'
    · cases List.mem_singleton.mp hLast

theorem Vgic.Wired.of_vcpus {s s' : Hypervisor} (h : Wired w s) (hVms : s'.vms = s.vms)
    (hVcpus : ∀ u, ∃ pc st, s'.vcpus u = { s.vcpus u with elrEl2 := pc, state := st }) : Wired w s' := by
  refine ⟨?_, h.nvcpu_le, ?_, ?_, ?_, ?_, ?_, h.distinct⟩
  · rw [hVms]
    exact h.nvcpu
  · rw [hVms]
    exact h.vgic
  · rw [hVms]
    exact h.vcpus
  all_goals intro k hk
  all_goals obtain ⟨pc, st, hEq⟩ := hVcpus (w.vcpu k)
  all_goals rw [hEq]
  · exact h.vm k hk
  · exact h.cpuid k hk
  · exact h.vgicCpu k hk

/-- The board after a call of CPU_ON. -/
structure TurnedOn (b b' : Board) (e : Trap.GuestTrap) : Prop where
  vms : b'.hv.vms = b.hv.vms
  lrMax : b'.hv.gicLrMax = b.hv.gicLrMax
  target : b'.hv.vcpus (e.x 1) = { b.hv.vcpus (e.x 1) with elrEl2 := e.x 2, state := .ready }
  caller : b'.hv.vcpus 0 = { b.hv.vcpus 0 with elrEl2 := e.pc }
  others : ∀ u, u ≠ 0 → u ≠ e.x 1 → b'.hv.vcpus u = b.hv.vcpus u

theorem atTrap_wired {b : Board} (h : Wired w b.hv) (e : Trap.GuestTrap) : Wired w (Trap.atTrap b e).hv := by
  refine h.of_vcpus rfl ?_
  intro u
  obtain rfl | hNe := eq_or_ne u e.vcpu
  · exact ⟨e.pc, _, Function.update_self _ _ _⟩
  · exact ⟨_, _, Function.update_of_ne hNe _ _⟩

theorem takeTrap_cpuOn {b : Board} (h : Wired w b.hv) (hPlaces : ∀ k, k < w.nvcpu → w.vcpu k = k)
    (hCall : IsCpuOn w.nvcpu e) : ∃ b', Trap.takeTrap b e = .ok b' ∧ TurnedOn b b' e := by
  obtain ⟨hPos, hLt⟩ := hCall.target
  have hZero : 0 < w.nvcpu := by omega
  have hX : ∀ t, (Trap.atTrap b e).x (w.vcpu 0) t = e.x t := by
    intro t
    rw [hPlaces 0 hZero, ← hCall.vcpu]
    exact congrFun (Function.update_self _ _ _) t
  have hRun : Trap.lowerElSyncHandler e.rounds e.firmware (Trap.atTrap b e) e.cpu (w.vcpu 0) e.esr e.far e.hpfar = _ :=
    Trap.lowerElSyncHandler_cpuOn (atTrap_wired h e) hZero hCall.esr ((hX 0).trans hCall.fid) (by rw [hX]; exact hLt)
  rw [if_pos hCall.granted, hX, hX, hPlaces _ hLt, hPlaces 0 hZero] at hRun
  have hAt : ∀ u, u ≠ 0 → (Trap.atTrap b e).hv.vcpus u = b.hv.vcpus u := by
    intro u hu
    rw [← hCall.vcpu] at hu
    exact Function.update_of_ne hu _ _
  rw [Trap.takeTrap, hCall.vcpu]
  refine ⟨_, hRun, rfl, rfl, ?_, ?_, ?_⟩
  · refine (Function.update_self _ _ _).trans ?_
    rw [hAt _ (by omega)]
  · refine (Function.update_of_ne (by omega) _ _).trans ?_
    rw [← hCall.vcpu]
    exact Function.update_self _ _ _
  · intro u hu hTarget
    exact (Function.update_of_ne hTarget _ _).trans (hAt u hu)

theorem TurnedOn.vcpus {b b' : Board} (h : TurnedOn b b' e) (u : Nat) :
    ∃ pc st, b'.hv.vcpus u = { b.hv.vcpus u with elrEl2 := pc, state := st } := by
  by_cases hTarget : u = e.x 1
  · rw [hTarget, h.target]
    exact ⟨_, _, rfl⟩
  by_cases hCaller : u = 0
  · rw [hCaller, h.caller]
    exact ⟨_, _, rfl⟩
  · rw [h.others u hCaller hTarget]
    exact ⟨_, _, rfl⟩

theorem InGuest.turnOn {b' : Board} {vm k entry : Nat} (h : InGuest m vm k entry) (hOn : TurnedOn m.board b' e)
    (hk : k ≠ 0) (hTarget : k ≠ e.x 1) : InGuest { m with board := b' } vm k entry := by
  have hSame := hOn.others k hk hTarget
  refine ⟨?_, h.vcpu, ?_, h.pc, h.mode, h.number, ?_⟩
  · dsimp only
    rw [hSame]
    exact h.state
  · dsimp only
    rw [hOn.vms]
    exact h.tables
  · dsimp only
    rw [hSame, hOn.lrMax]
    exact h.lrs

theorem Booting.on (h : Booting w steps m) (hOrderly : Orderly w.nvcpu steps)
    (hPlaces : ∀ k, k < w.nvcpu → w.vcpu k = k) (hCall : IsCpuOn w.nvcpu e)
    (hNew : ∀ e', .on e' ∈ steps → e'.x 1 ≠ e.x 1) :
    ∃ m', bootStep m (.on e) = .ok m' ∧ Booting w (steps ++ [.on e]) m' := by
  obtain ⟨b', hRun, hOn⟩ := takeTrap_cpuOn h.wired hPlaces hCall
  have hStep : bootStep m (.on e) = .ok { m with board := b' } := by
    rw [bootStep, hRun]
    rfl
  refine ⟨_, hStep, h.wired.of_vcpus hOn.vms hOn.vcpus, ?_, ?_, ?_, ?_⟩
  · intro k hk
    obtain ⟨pc, st, hEq⟩ := hOn.vcpus k
    dsimp only
    rw [hEq]
    exact (h.made k hk).edit pc st
  · dsimp only
    rw [hOn.caller]
    exact h.caller
  · intro e' hOn' hOut
    have hBefore : .enter (e'.x 1) ∉ steps := fun hIn => hOut (List.mem_append_left _ hIn)
    dsimp only
    obtain hOld | hLast := List.mem_append.mp hOn'
    · have hPos := (hOrderly.call hOld).target.1
      rw [hOn.others _ (by omega) (hNew e' hOld)]
      exact h.ready e' hOld hBefore
    · cases List.mem_singleton.mp hLast
      rw [hOn.target]
      exact ⟨rfl, rfl⟩
  · intro e' hOn' hIn
    have hEntered : .enter (e'.x 1) ∈ steps := by
      obtain hOld | hLast := List.mem_append.mp hIn
      · exact hOld
      · cases List.mem_singleton.mp hLast
    obtain hOld | hLast := List.mem_append.mp hOn'
    · have hPos := (hOrderly.call hOld).target.1
      exact (h.inGuest e' hOld hEntered).turnOn hOn (by omega) (hNew e' hOld)
    · cases List.mem_singleton.mp hLast
      obtain ⟨e'', hOld, hSame⟩ := hOrderly.turnedOn hEntered
      exact absurd hSame (hNew e'' hOld)

theorem enterGuest_ready {k vm : Nat} (hk : k < vcpuMax) (hReady : (m.board.hv.vcpus k).state = .ready)
    (hCpuid : (m.board.hv.vcpus k).cpuid = k) (hVm : (m.board.hv.vcpus k).vm = some vm)
    (hMade : (m.board.hv.vcpus k).Made) :
    ∃ m', enterGuest m k = .ok m' ∧ InGuest m' vm k (m.board.hv.vcpus k).elrEl2 ∧
      m'.board.hv = Trap.editVcpu m.board.hv k (fun v => { v with state := .running }) ∧
      ∀ u, u ≠ k → m'.cores u = m.cores u := by
  have hEnter : Trap.enterVcpu m.board.hv k =
      .ok (Trap.editVcpu m.board.hv k fun v => { v with state := .running }) := by
    rw [Trap.enterVcpu, if_neg (Nat.not_le.mpr hk), if_neg (not_not.mpr hReady), Trap.switchToVcpu,
      if_neg (not_not.mpr hCpuid.symm)]
  have hVcpu : (Trap.editVcpu m.board.hv k fun v => { v with state := .running }).vcpus k =
      { m.board.hv.vcpus k with state := .running } := by
    rw [Trap.vcpus_editVcpu, if_pos rfl]
  rw [enterGuest, hEnter, ok_bind, hVcpu]
  dsimp only
  rw [hVm, deref, ok_bind]
  refine ⟨_, rfl, ⟨?_, ?_, ?_, ?_, ?_, ?_, ?_⟩, rfl, ?_⟩
  all_goals dsimp only
  · rw [hVcpu]
  · rw [Function.update_self]
    rfl
  · rw [Function.update_self]
    rfl
  · rw [Function.update_self]
    rfl
  · rw [Function.update_self]
    exact hMade.spsr
  · rw [Function.update_self]
    exact hMade.mpidr.trans (by rw [hCpuid])
  · intro i hi hMax
    rw [Function.update_self, hVcpu]
    change gicRestoreLr m.board.hv.gicLrMax _ _ i = _
    change i < m.board.hv.gicLrMax at hi
    change m.board.hv.gicLrMax ≤ 16 at hMax
    rw [gicRestoreLr, if_pos ⟨by omega, hMax⟩, restoreLrsFrom_eq, if_pos (by omega)]
  · intro u hu
    exact Function.update_of_ne hu _ _

theorem Booting.enter (h : Booting w steps m) (hOrderly : Orderly w.nvcpu steps)
    (hPlaces : ∀ k, k < w.nvcpu → w.vcpu k = k) (hOn : .on e ∈ steps) (hNew : .enter (e.x 1) ∉ steps) :
    ∃ m', bootStep m (.enter (e.x 1)) = .ok m' ∧ Booting w (steps ++ [.enter (e.x 1)]) m' := by
  obtain ⟨hPos, hLt⟩ := (hOrderly.call hOn).target
  obtain ⟨hReady, hElr⟩ := h.ready e hOn hNew
  have hCpuid := h.wired.cpuid _ hLt
  have hVm := h.wired.vm _ hLt
  rw [hPlaces _ hLt] at hCpuid hVm
  obtain ⟨m', hRun, hInGuest, hHv, hCores⟩ :=
    enterGuest_ready (Nat.lt_of_lt_of_le hLt h.wired.nvcpu_le) hReady hCpuid hVm (h.made _ hLt)
  have hVms : m'.board.hv.vms = m.board.hv.vms := by
    rw [hHv]
    rfl
  have hLrMax : m'.board.hv.gicLrMax = m.board.hv.gicLrMax := by
    rw [hHv]
    rfl
  have hOthers : ∀ u, u ≠ e.x 1 → m'.board.hv.vcpus u = m.board.hv.vcpus u := by
    intro u hu
    rw [hHv, Trap.vcpus_editVcpu, if_neg hu]
  have hVcpus : ∀ u, ∃ pc st, m'.board.hv.vcpus u = { m.board.hv.vcpus u with elrEl2 := pc, state := st } := by
    intro u
    obtain rfl | hu := eq_or_ne u (e.x 1)
    · exact ⟨_, .running, by rw [hHv, Trap.vcpus_editVcpu, if_pos rfl]⟩
    · exact ⟨_, _, hOthers u hu⟩
  refine ⟨m', hRun, h.wired.of_vcpus hVms hVcpus, ?_, ?_, ?_, ?_⟩
  · intro k hk
    obtain ⟨pc, st, hEq⟩ := hVcpus k
    rw [hEq]
    exact (h.made k hk).edit pc st
  · rw [hOthers 0 (by omega)]
    exact h.caller
  · intro e' hOn' hOut
    have hOld : .on e' ∈ steps := by
      obtain hOld | hLast := List.mem_append.mp hOn'
      · exact hOld
      · cases List.mem_singleton.mp hLast
    have hNe : e'.x 1 ≠ e.x 1 := by
      intro hEq
      exact hOut (List.mem_append_right _ (by rw [hEq]; exact List.mem_singleton_self _))
    rw [hOthers _ hNe]
    exact h.ready e' hOld fun hIn => hOut (List.mem_append_left _ hIn)
  · intro e' hOn' hIn
    have hOld : .on e' ∈ steps := by
      obtain hOld | hLast := List.mem_append.mp hOn'
      · exact hOld
      · cases List.mem_singleton.mp hLast
    by_cases hSame : e'.x 1 = e.x 1
    · cases hOrderly.unique hOld hOn hSame
      rw [← hElr]
      exact hInGuest
    · have hBefore : .enter (e'.x 1) ∈ steps := by
        obtain hOldIn | hLast := List.mem_append.mp hIn
        · exact hOldIn
        · injection List.mem_singleton.mp hLast with hEq
          exact absurd hEq hSame
      obtain ⟨hState, hVcpu, hTables, hPc, hMode, hNumber, hLrs⟩ := h.inGuest e' hOld hBefore
      refine ⟨?_, ?_, ?_, ?_, ?_, ?_, ?_⟩
      · rw [hOthers _ hSame]
        exact hState
      · rw [hCores _ hSame]
        exact hVcpu
      · rw [hCores _ hSame, hVms]
        exact hTables
      · rw [hCores _ hSame]
        exact hPc
      · rw [hCores _ hSame]
        exact hMode
      · rw [hCores _ hSame]
        exact hNumber
      · rw [hCores _ hSame, hOthers _ hSame, hLrMax]
        exact hLrs

theorem Booting.run (h : Booting w [] m) (hOrderly : Orderly w.nvcpu steps)
    (hPlaces : ∀ k, k < w.nvcpu → w.vcpu k = k) : ∃ m', bringUp m steps = .ok m' ∧ Booting w steps m' := by
  have hSnoc : ∀ {steps step m₁}, bringUp m steps = .ok m₁ →
      bringUp m (steps ++ [step]) = bootStep m₁ step := by
    intro steps step m₁ hRun
    rw [bringUp, List.foldlM_append, ← bringUp, hRun, ok_bind, List.foldlM_cons]
    exact bind_pure _
  induction hOrderly with
  | nil => exact ⟨m, rfl, h⟩
  | on hBefore hCall hNew ih =>
    obtain ⟨m₁, hRun, hBooting⟩ := ih
    obtain ⟨m₂, hStep, hNext⟩ := hBooting.on hBefore hPlaces hCall hNew
    exact ⟨m₂, (hSnoc hRun).trans hStep, hNext⟩
  | enter hBefore hOn hNew ih =>
    obtain ⟨m₁, hRun, hBooting⟩ := ih
    obtain ⟨m₂, hStep, hNext⟩ := hBooting.enter hBefore hPlaces hOn hNew
    exact ⟨m₂, (hSnoc hRun).trans hStep, hNext⟩

/-- Whatever has happened on the machine before: if vcpu 0 of the first VM runs, it can turn on the other vcpus of
the VM, and each core gets into the guest at the entry it was called for. -/
theorem cpus_brought_up {b₀ : Board} {es : List Event} (hFresh : Houses b₀.hv.host b₀.hv [])
    (hSteps : Steps b₀ es m.board) (hWired : Wired w m.board.hv) (hVm : w.vm = 0)
    (hCaller : (m.board.hv.vcpus 0).state = .running) (hOrderly : Orderly w.nvcpu steps) :
    ∃ m', bringUp m steps = .ok m' ∧ (m'.board.hv.vcpus 0).state = .running ∧
      ∀ e, .on e ∈ steps → .enter (e.x 1) ∈ steps → InGuest m' 0 (e.x 1) (e.x 2) := by
  obtain ⟨n, hRanked, _⟩ := FirstRuns.steps hFresh hSteps
  obtain ⟨ts, hHouses, _⟩ := (hFresh.simulates.steps hSteps).houses
  have hFirst := hRanked.running 0 hCaller
  obtain ⟨i, hi, hStaff⟩ := hHouses.staff 0 (by rw [hCaller]; decide)
  rw [hFirst] at hStaff
  cases hStaff
  have hEntries := (hHouses.housed 0 _ (List.getElem?_eq_getElem hi)).entries
  -- first fit has put vcpu k of the first VM at place k
  have hPlace : ∀ k, k < w.nvcpu → w.vcpu k = k ∧ w.vcpu k < n := by
    intro k hk
    have hEntry := hWired.vcpus k hk
    rw [hVm] at hEntry
    obtain ⟨hOwner, hUsed⟩ := hEntries k _ (Nat.lt_of_lt_of_le hk hWired.nvcpu_le) hEntry
    have hLt := (hRanked.used _).mp hUsed
    exact ⟨(hRanked.first _ hLt hOwner).symm.trans (hWired.cpuid k hk), hLt⟩
  have hMade : ∀ k, k < w.nvcpu → (m.board.hv.vcpus k).Made := by
    intro k hk
    obtain ⟨hEq, hLt⟩ := hPlace k hk
    rw [hEq] at hLt
    exact hRanked.made k hLt
  have hStart : Booting w [] m :=
    ⟨hWired, hMade, hCaller, fun e hOn => absurd hOn List.not_mem_nil, fun e hOn => absurd hOn List.not_mem_nil⟩
  obtain ⟨m', hRun, hBooting⟩ := hStart.run hOrderly fun k hk => (hPlace k hk).1
  refine ⟨m', hRun, hBooting.caller, ?_⟩
  rw [← hVm]
  exact hBooting.inGuest

end

theorem smallVm_steps : ∃ b, Steps (emptyBoard 16) [.create smallCfg smallImg, .enter 0] b ∧
    b.hv = Trap.enteredSystem.hv := by
  obtain ⟨s, hRun, hZero, _⟩ := smallCfg_created
  have hSmall : Vgic.smallVm = s := by
    rw [Vgic.smallVm, hRun]
  have hBoot : (emptyBoard 16).hv = bootHypervisor := rfl
  have hCreate : Step (emptyBoard 16) (.create smallCfg smallImg) { emptyBoard 16 with hv := s } :=
    .create smallCfg_placed rfl (smallImg_outside rfl (by decide)) (hBoot ▸ hRun) fun g hg => (hZero g hg).1
  have hEnter : Trap.enterVcpu s 0 = .ok Trap.enteredSystem.hv := hSmall ▸ Trap.enterVcpu_small
  exact ⟨_, (Steps.none.snoc hCreate).snoc (.enter hEnter), rfl⟩

/-- Vcpu 0 turns on vcpu 1 at an address in its image. -/
def smallCall : Trap.GuestTrap where
  cpu := 0
  vcpu := 0
  x := fun t => if t = 0 then Trap.psciCpuOnSmc64 else if t = 1 then 1 else if t = 2 then 0x80000040 else 0
  pc := 0x80000008
  esr := 0x5a000000
  far := 0
  hpfar := 0
  rounds := 0
  firmware := 0

theorem smallCall_isCpuOn : IsCpuOn smallWiring.nvcpu smallCall :=
  ⟨rfl, by decide, rfl, by decide, by decide⟩

theorem cpus_brought_up_small : ∃ m m' : Smp, m.board.hv = Trap.enteredSystem.hv ∧
    bringUp m [.on smallCall, .enter 1] = .ok m' ∧ InGuest m' 0 1 0x80000040 := by
  obtain ⟨b, hSteps, hHv⟩ := smallVm_steps
  have hOn : Orderly smallWiring.nvcpu [.on smallCall] := Orderly.on .nil smallCall_isCpuOn fun e hOld =>
    absurd hOld List.not_mem_nil
  have hOrderly : Orderly smallWiring.nvcpu [.on smallCall, .enter 1] :=
    Orderly.enter hOn (List.mem_singleton_self _) (by simp)
  have hWired : Wired smallWiring b.hv := by
    rw [hHv]
    refine smallBoard_wired.of_vcpus rfl ?_
    intro u
    rw [Trap.enteredSystem, Trap.vcpus_editVcpu]
    split
    · exact ⟨_, _, rfl⟩
    · exact ⟨_, _, rfl⟩
  have hCaller : (b.hv.vcpus 0).state = .running := by
    rw [hHv]
    exact Trap.enteredSystem_running
  let c : Core := ⟨0, 0, 0, 0, 0, 0, ⟨0, 0, 0, 0, 0, 0, 0, 0, 0, 0⟩, 0, fun _ => 0, fun _ => 0, 0, 0⟩
  let m : Smp := ⟨b, fun _ => c.sys, fun _ => c⟩
  obtain ⟨m', hRun, _, hInGuest⟩ := cpus_brought_up (m := m)
    (emptyBoard_fresh (by decide)) hSteps hWired rfl hCaller hOrderly
  exact ⟨m, m', hHv, hRun, hInGuest smallCall List.mem_cons_self
    (List.mem_cons_of_mem _ (List.mem_singleton_self _))⟩

end HyperPoc
