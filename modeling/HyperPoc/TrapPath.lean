import HyperPoc.Trap.Contained
import HyperPoc.Vector

/-! # From the trap to the return

The vectors save registers in assembler, the handlers in C work on what was saved, and the registers
are loaded again. A guest whose trap is handled finds that one instruction has been executed.
-/
namespace HyperPoc.Trap
open Library.Memory Library.A64 Library.Run Vgic HyperPoc.Vector
set_option autoImplicit false

/-- The register that the trapped instruction is to write. -/
def written (esr : Nat) : Option Nat :=
  match getSyncTrapHandler esr with
  | some .hvc => some 0
  | some .dataAbort => if issWnr (esrIss esr) ≠ 0 then none else some (issSrt (esrIss esr))
  | some .wfxEmulate => none
  | none => none

/-- Where the guest goes on. At HVC the hardware has moved the pc on. -/
def nextPc (esr pc : Nat) : Nat := if getSyncTrapHandler esr = some .hvc then pc else u64 (pc + 4)

/-- One instruction of the vcpu has been executed. -/
structure Executes (b b' : Board) (vcpu esr : Nat) : Prop where
  x : ∀ u r, b'.x u r = b.x u r ∨ (u = vcpu ∧ written esr = some r)
  pc : (b'.hv.vcpus vcpu).elrEl2 = nextPc esr (b.hv.vcpus vcpu).elrEl2

section
variable {i vcpu spis : Nat} {b b' : Board}

theorem x_setX_or (b : Board) (vcpu t v u r : Nat) : (b.setX vcpu t v).x u r = b.x u r ∨ (u = vcpu ∧ r = t) := by
  rw [x_setX]
  split
  · rename_i hSame
    exact .inr hSame
  · exact .inl rfl

theorem mmioEmulate_x {n cpu esr far hpfar : Nat} {ret : Int} (h : Serves b.hv vcpu i spis)
    (hPlain : Plain b.hv vcpu esr far hpfar)
    (hRun : mmioEmulate n b cpu vcpu (issSrt (esrIss esr)) (abortAccess esr far hpfar) = .ok (b', ret)) :
    b'.hv.vcpus = b.hv.vcpus ∧ ∀ u r, b'.x u r = b.x u r ∨
      (u = vcpu ∧ issWnr (esrIss esr) = 0 ∧ r = issSrt (esrIss esr)) := by
  obtain ⟨vm, hVm, hRest⟩ := bind_eq_ok.mp hRun
  obtain ⟨mmio, hFind, _⟩ := bind_eq_ok.mp hRest
  have hRegion : Selects b.hv vcpu (faultIpa far hpfar) mmio := ⟨vm, deref_eq_ok hVm, hFind⟩
  rw [mmioEmulate_selected hRegion] at hRun
  cases mmio with
  | none =>
    cases hRun
    exact ⟨rfl, fun _ _ => .inl rfl⟩
  | some mmio =>
    rw [emulateIn] at hRun
    split at hRun
    · rename_i hWnr
      cases hHandler : mmio.write with
      | none =>
        rw [hHandler] at hRun
        cases hRun
        exact ⟨rfl, fun _ _ => .inl rfl⟩
      | some handler =>
        rw [hHandler] at hRun
        obtain ⟨hStays, hX⟩ := callWrite_quiet h (hPlain.store mmio handler hWnr hRegion hHandler) hRun
        exact ⟨hStays.vcpus, fun u r => .inl (by rw [hX])⟩
    · rename_i hWnr
      cases hHandler : mmio.read with
      | none =>
        rw [hHandler] at hRun
        cases hRun
        exact ⟨rfl, fun _ _ => .inl rfl⟩
      | some handler =>
        rw [hHandler] at hRun
        obtain ⟨⟨r, v⟩, _, hLast⟩ := bind_eq_ok.mp hRun
        cases hLast
        have hLoad : issWnr (esrIss esr) = 0 := not_not.mp hWnr
        rw [setDestination, if_neg (hPlain.load hLoad)]
        refine ⟨rfl, fun u r => ?_⟩
        obtain hSame | ⟨hu, hr⟩ := x_setX_or b vcpu (issSrt (esrIss esr)) v u r
        · exact .inl hSame
        · exact .inr ⟨hu, hLoad, hr⟩

theorem psciCpuOn_pc {fw x1 x2 ret : Nat} (h : Serves b.hv vcpu i spis) (hOther : (b.hv.vms i).vcpus x1 ≠ some vcpu)
    (hRun : psciCpuOn fw b vcpu x1 x2 = .ok (b', ret)) :
    (b'.hv.vcpus vcpu).elrEl2 = (b.hv.vcpus vcpu).elrEl2 ∧ b'.x = b.x := by
  rw [psciCpuOn, h.vm, deref, ok_bind] at hRun
  dsimp only at hRun
  split at hRun
  · obtain ⟨target, hTarget, hRest⟩ := bind_eq_ok.mp hRun
    have hNe : vcpu ≠ target := by
      rintro rfl
      exact hOther (deref_eq_ok hTarget)
    cases hRest
    simp only [Board.setElr, Function.update_of_ne hNe, and_self]
  · cases hRun

theorem hvcHandler_x {fw : Nat} {ret : Int} (h : Serves b.hv vcpu i spis)
    (hOther : (b.hv.vms i).vcpus (b.x vcpu 1) ≠ some vcpu) (hRun : hvcHandler fw b vcpu = .ok (b', ret)) :
    (b'.hv.vcpus vcpu).elrEl2 = (b.hv.vcpus vcpu).elrEl2 ∧ ∀ u r, b'.x u r = b.x u r ∨ (u = vcpu ∧ r = 0) := by
  rw [hvcHandler, syscallHandler] at hRun
  split at hRun
  swap
  · cases hRun
  obtain ⟨⟨b₁, res⟩, hCall, hLast⟩ := bind_eq_ok.mp hRun
  cases hLast
  have hPsci : (b₁.hv.vcpus vcpu).elrEl2 = (b.hv.vcpus vcpu).elrEl2 ∧ b₁.x = b.x := by
    rw [standardServiceCall] at hCall
    split at hCall
    swap
    · cases hCall
    rw [psciHandler] at hCall
    split at hCall
    · cases hCall
      exact ⟨rfl, rfl⟩
    split at hCall
    · exact psciCpuOn_pc h hOther hCall
    split at hCall
    · cases hCall
      exact ⟨rfl, rfl⟩
    · cases hCall
  refine ⟨hPsci.1, fun u r => ?_⟩
  rw [← hPsci.2]
  exact x_setX_or b₁ vcpu 0 res u r

theorem lowerElSyncHandler_executes {n fw cpu esr far hpfar : Nat} (h : Serves b.hv vcpu i spis)
    (hPlain : Plain b.hv vcpu esr far hpfar)
    (hOther : getSyncTrapHandler esr = some .hvc → (b.hv.vms i).vcpus (b.x vcpu 1) ≠ some vcpu)
    (hRun : lowerElSyncHandler n fw b cpu vcpu esr far hpfar = .ok b') : Executes b b' vcpu esr := by
  rw [lowerElSyncHandler] at hRun
  split at hRun
  · cases hRun
  rename_i handler hHandler
  obtain ⟨⟨b₁, ret⟩, hCall, hLast⟩ := bind_eq_ok.mp hRun
  dsimp only at hLast
  split at hLast
  · cases hLast
  rename_i hRet
  cases hLast
  cases handler with
  | wfxEmulate =>
    cases hCall
    refine ⟨fun _ _ => .inl rfl, ?_⟩
    rw [nextPc, hHandler, if_neg (by decide), advancePc, Board.setElr]
    dsimp only
    rw [Function.update_self]
  | hvc =>
    obtain ⟨hPc, hX⟩ := hvcHandler_x h (hOther hHandler) hCall
    refine ⟨fun u r => ?_, by rw [nextPc, hHandler, if_pos rfl, hPc]⟩
    obtain hSame | ⟨hu, rfl⟩ := hX u r
    · exact .inl hSame
    · exact .inr ⟨hu, by rw [written, hHandler]⟩
  | dataAbort =>
    rw [callSyncTrapHandler, dataAbortHandler] at hCall
    dsimp only at hCall
    split at hCall
    · cases hCall
      exact absurd (by decide) hRet
    obtain ⟨⟨b₂, r⟩, hEmulate, hRest⟩ := bind_eq_ok.mp hCall
    obtain ⟨hVcpus, hX⟩ := mmioEmulate_x h hPlain hEmulate
    dsimp only at hRest
    split at hRest
    · cases hRest
      exact absurd (by decide) hRet
    · cases hRest
      refine ⟨fun u t => ?_, ?_⟩
      · obtain hSame | ⟨hu, hLoad, rfl⟩ := hX u t
        · exact .inl hSame
        · exact .inr ⟨hu, by rw [written, hHandler]; simp [hLoad]⟩
      · rw [nextPc, hHandler, if_neg (by decide), advancePc, Board.setElr]
        dsimp only
        rw [Function.update_self, hVcpus]

theorem takeTrap_executes {e : GuestTrap} (h : Serves b.hv e.vcpu i spis)
    (hPlain : Plain b.hv e.vcpu e.esr e.far e.hpfar)
    (hOther : getSyncTrapHandler e.esr = some .hvc → (b.hv.vms i).vcpus (e.x 1) ≠ some e.vcpu)
    (hRun : takeTrap b e = .ok b') : Executes (atTrap b e) b' e.vcpu e.esr := by
  have hAt : Contained i spis b _ := atTrap_contained h.vm
  refine lowerElSyncHandler_executes (h.contained hAt) (hPlain.contained hAt) ?_ hRun
  intro hHvc
  rw [hAt.vms, atTrap_x]
  exact hOther hHvc

end

/-- The `struct vcpu` at `addr` has the registers that the board has for vcpu `u`. -/
structure Holds (m : Mem) (addr : Nat) (b : Board) (u : Nat) (pstate : Word) : Prop where
  x : ∀ r : Fin 31, RegField.read (.x r) m addr = BitVec.ofNat 64 (b.x u r)
  pc : RegField.read .elrEl2 m addr = BitVec.ofNat 64 (b.hv.vcpus u).elrEl2
  pstate : RegField.read .spsrEl2 m addr = pstate

/-- The guest on the core traps with its registers as they are. -/
structure TrapsFrom (c : Cpu) (e : GuestTrap) : Prop where
  x : ∀ r : Fin 31, e.x r = (c.x r).toNat
  pc : e.pc = (c.sys .elrEl2).toNat

section
variable {i spis addr : Nat} {b b' : Board} {e : GuestTrap} {c c' : Cpu}

theorem TrapsFrom.holds (h : TrapsFrom c e) (hTrapped : Trapped c addr) (b : Board) :
    Holds (c.run vmContextSave).mem addr (atTrap b e) e.vcpu (c.sys .spsrEl2) := by
  refine ⟨fun r => ?_, ?_, vmContextSave_reg hTrapped .spsrEl2⟩
  · rw [vmContextSave_reg hTrapped, atTrap_x, h.x, BitVec.ofNat_toNat, BitVec.setWidth_eq]
    rfl
  · rw [vmContextSave_reg hTrapped, atTrap_elr, h.pc, BitVec.ofNat_toNat, BitVec.setWidth_eq]
    rfl

/-- From the registers of a guest at a trap to those it goes on with. In between `c'` is any state in which the handlers
may have left the core, with the `vcpu` as the model of the handlers has it. -/
theorem trapped_instruction (hTrapped : Trapped c addr) (hFrom : TrapsFrom c e) (hServes : Serves b.hv e.vcpu i spis)
    (hPlain : Plain b.hv e.vcpu e.esr e.far e.hpfar)
    (hOther : getSyncTrapHandler e.esr = some .hvc → (b.hv.vms i).vcpus (e.x 1) ≠ some e.vcpu)
    (hRun : takeTrap b e = .ok b') (hBase : c'.sys .tpidrEl2 = c.sys .tpidrEl2) (hSp : c'.sp = c.sp)
    (hHolds : Holds c'.mem addr b' e.vcpu (c.sys .spsrEl2)) :
    Holds (c.run vmContextSave).mem addr (atTrap b e) e.vcpu (c.sys .spsrEl2) ∧
    (∀ r : Fin 31, written e.esr ≠ some r.val → (eretVm c').x r = c.x r) ∧
    (eretVm c').pc = BitVec.ofNat 64 (nextPc e.esr (c.sys .elrEl2).toNat) ∧
    (eretVm c').pstate = c.sys .spsrEl2 ∧ (eretVm c').sp = c.sp := by
  have hExecutes := takeTrap_executes hServes hPlain hOther hRun
  have hTrapped' : Trapped c' addr := by
    refine ⟨by rw [hBase, hTrapped.base], hTrapped.inside, by rw [hSp]; exact hTrapped.room,
      by rw [hSp]; exact hTrapped.apart⟩
  rw [eretVm_eq hTrapped']
  refine ⟨hFrom.holds hTrapped b, ?_, ?_, hHolds.pstate, hSp⟩
  · intro r hr
    change RegField.read (.x r) c'.mem addr = c.x r
    rw [hHolds.x r]
    obtain hSame | ⟨_, hWritten⟩ := hExecutes.x e.vcpu r
    · rw [hSame, atTrap_x, hFrom.x, BitVec.ofNat_toNat, BitVec.setWidth_eq]
    · exact absurd hWritten hr
  · change RegField.read .elrEl2 c'.mem addr = _
    rw [hHolds.pc, hExecutes.pc, atTrap_elr, hFrom.pc]

end

def waitTrap : GuestTrap := ⟨0, 0, fun r => r, 0x80000000, 0x04000000, 0, 0, 0, 0⟩

def afterWait : Cpu :=
  (trappedCpu.run vmContextSave).setMem (storeWord (trappedCpu.run vmContextSave).mem (0x40010000 + 256) 0x80000004)

theorem waitTrap_from : TrapsFrom trappedCpu waitTrap := by
  refine ⟨fun r => ?_, rfl⟩
  change r.val = (BitVec.ofNat 64 r.val).toNat
  rw [BitVec.toNat_ofNat]
  omega

theorem afterWait_holds (hTrapped : Trapped trappedCpu 0x40010000) :
    Holds afterWait.mem 0x40010000 (advancePc (atTrap smallBoard waitTrap) 0) 0 0x5 := by
  have hSaved := waitTrap_from.holds hTrapped smallBoard
  refine ⟨fun r => ?_, ?_, ?_⟩
  · refine (word_storeWord_of_disjoint ?_).trans (hSaved.x r)
    left
    change 0x40010000 + 8 * r.val + 8 ≤ 0x40010000 + 256
    omega
  · exact word_storeWord _ _ _
  · refine (word_storeWord_of_disjoint ?_).trans hSaved.pstate
    left
    decide

theorem trapped_instruction_wait : Trapped trappedCpu 0x40010000 ∧ (eretVm afterWait).x = trappedCpu.x ∧
    (eretVm afterWait).pc = 0x80000004 := by
  have hTrapped : Trapped trappedCpu 0x40010000 := ⟨by decide, by decide, by decide, by decide⟩
  have hServes := serves_of_wired smallBoard_wired (j := 0) (by decide) smallBoard_unused
  have hPlain : Plain smallBoard.hv 0 waitTrap.esr waitTrap.far waitTrap.hpfar :=
    ⟨fun _ => by decide, fun _ _ hStore => absurd (by decide) hStore⟩
  have hRun : takeTrap smallBoard waitTrap = .ok (advancePc (atTrap smallBoard waitTrap) 0) := rfl
  have hKept : ∀ (d : Cpu) (m : Mem), (d.setMem m).sys = d.sys ∧ (d.setMem m).sp = d.sp := fun _ _ => ⟨rfl, rfl⟩
  have hBase : afterWait.sys .tpidrEl2 = trappedCpu.sys .tpidrEl2 := by
    rw [afterWait, (hKept _ _).1, vmContextSave_sys hTrapped]
  have hSp : afterWait.sp = trappedCpu.sp := by
    rw [afterWait, (hKept _ _).2, vmContextSave_sp hTrapped]
  have hHvc : getSyncTrapHandler waitTrap.esr = some .hvc →
      (smallBoard.hv.vms 0).vcpus (waitTrap.x 1) ≠ some waitTrap.vcpu :=
    fun hHvc => absurd hHvc (by decide)
  obtain ⟨_, hX, hPc, _⟩ := trapped_instruction hTrapped waitTrap_from hServes hPlain hHvc hRun hBase hSp
    (afterWait_holds hTrapped)
  have hNone : written waitTrap.esr = none := by decide
  exact ⟨hTrapped, funext fun r => hX r (by rw [hNone]; exact Option.some_ne_none _ |>.symm), hPc⟩

end HyperPoc.Trap
