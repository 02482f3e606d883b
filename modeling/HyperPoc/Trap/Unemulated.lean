import HyperPoc.Vgic.Setup

/-! # Data aborts that cannot be emulated

The handler gives up on an access in four cases: the fault address is not valid, no region holds the
IPA, the region has no handler for the direction, or the handler gives back a negative result. All of
them leave the machine as it was. Whether the syndrome describes the access at all is not looked at.
-/
namespace HyperPoc.Trap
open Library.Memory Library.Run Vgic
set_option autoImplicit false

/-- ISS.ISV: the syndrome says which register the access is from and how wide it is. -/
def SyndromeValid (esr : Nat) : Prop := esr.testBit 24 = true

instance (esr : Nat) : Decidable (SyndromeValid esr) := inferInstanceAs (Decidable (_ = true))

/-- The region that is taken for `ipa`, if there is one. -/
def Selects (s : Hypervisor) (vcpu ipa : Nat) (mmio : Option (MmioInfo Handler)) : Prop :=
  ∃ vm, (s.vcpus vcpu).vm = some vm ∧ findMmio s.mmio ipa mmioInfoMax (s.vms vm).mmioList = .ok mmio

/-- What `mmio_emulate` does with the region it has selected. -/
def emulateIn (n : Nat) (b : Board) (cpu vcpu t : Nat) (access : MmioAccess) :
    Option (MmioInfo Handler) → Outcome (Board × Int)
  | none => .ok (b, -1)
  | some mmio =>
    if access.issWnr ≠ 0 then
      match mmio.write with
      | none => .ok (b, -1)
      | some handler => callWrite n b cpu vcpu (access.ipa - mmio.ipaBase) (source b vcpu t) handler
    else
      match mmio.read with
      | none => .ok (b, -1)
      | some handler => do
        let (ret, val) ← callRead b vcpu (access.ipa - mmio.ipaBase) (destination b vcpu t) handler
        return (setDestination b vcpu t val, ret)

/-- Why `mmio_emulate` fails for an access with transfer register `t`. -/
inductive EmulationFails (n : Nat) (b : Board) (cpu vcpu t : Nat) (access : MmioAccess) : Prop
  | noRegion (hRegion : Selects b.hv vcpu access.ipa none)
  | noWriteHandler {mmio : MmioInfo Handler} (hRegion : Selects b.hv vcpu access.ipa (some mmio))
      (hWnr : access.issWnr ≠ 0) (hHandler : mmio.write = none)
  | noReadHandler {mmio : MmioInfo Handler} (hRegion : Selects b.hv vcpu access.ipa (some mmio))
      (hWnr : access.issWnr = 0) (hHandler : mmio.read = none)
  | write {mmio : MmioInfo Handler} {handler : Handler} {b' : Board} {ret : Int}
      (hRegion : Selects b.hv vcpu access.ipa (some mmio)) (hWnr : access.issWnr ≠ 0)
      (hHandler : mmio.write = some handler)
      (hCall : callWrite n b cpu vcpu (access.ipa - mmio.ipaBase) (source b vcpu t) handler = .ok (b', ret))
        (hRet : ret < 0)
  | read {mmio : MmioInfo Handler} {handler : Handler} {v : Nat} {ret : Int}
      (hRegion : Selects b.hv vcpu access.ipa (some mmio)) (hWnr : access.issWnr = 0)
      (hHandler : mmio.read = some handler)
      (hCall : callRead b vcpu (access.ipa - mmio.ipaBase) (destination b vcpu t) handler = .ok (ret, v))
        (hRet : ret < 0)

def abortAccess (esr far hpfar : Nat) : MmioAccess := ⟨faultIpa far hpfar, issSas (esrIss esr), issWnr (esrIss esr)⟩

/-- The reasons for which the handler does give up. -/
def GivesUp (n : Nat) (b : Board) (cpu vcpu esr far hpfar : Nat) : Prop :=
  issFnv (esrIss esr) ≠ 0 ∨ EmulationFails n b cpu vcpu (issSrt (esrIss esr)) (abortAccess esr far hpfar)

section
variable {b b' : Board} {n cpu vcpu offset old v t : Nat} {ret : Int} {handler : Handler} {access : MmioAccess}

theorem vgicdMmioRead_ret (hRead : vgicdMmioRead b vcpu offset old = .ok (ret, v)) : ret = 0 := by
  obtain ⟨vm, _, hRead⟩ := bind_eq_ok.mp hRead
  cases hReg : gicdReg offset with
  | none =>
    rw [hReg] at hRead
    cases hRead
    rfl
  | some reg =>
    rw [hReg] at hRead
    cases reg with
    | ctlr | isenabler _ | icenabler _ | ipriorityr _ | itargetsr _ =>
      obtain ⟨_, _, hRead⟩ := bind_eq_ok.mp hRead
      cases hRead
      rfl
    | _ =>
      cases hRead
      rfl

theorem vgicdMmioWrite_ret (hWrite : vgicdMmioWrite b cpu vcpu offset v = .ok (b', ret)) : ret = 0 := by
  obtain ⟨vm, _, hWrite⟩ := bind_eq_ok.mp hWrite
  cases hReg : gicdReg offset with
  | none =>
    rw [hReg] at hWrite
    cases hWrite
    rfl
  | some reg =>
    rw [hReg] at hWrite
    cases reg with
    | ctlr | isenabler _ | icenabler _ | ipriorityr _ | itargetsr _ =>
      obtain ⟨_, _, hWrite⟩ := bind_eq_ok.mp hWrite
      cases hWrite
      rfl
    | _ =>
      cases hWrite
      rfl

theorem vgicrMmioRead_fails (hRet : ret < 0) (hRead : vgicrMmioRead b vcpu offset old = .ok (ret, v)) : v = old := by
  obtain ⟨frame, _, hRead⟩ := bind_eq_ok.mp hRead
  cases frame with
  | none =>
    cases hRead
    rfl
  | some frame =>
    dsimp only at hRead
    cases hReg : gicrReg (offset % gicrStride) with
    | none =>
      rw [hReg] at hRead
      cases hRead
      rfl
    | some reg =>
      rw [hReg] at hRead
      cases reg with
      | igrpmodr0 =>
        cases hRead
        rfl
      | iidr | typer =>
        obtain ⟨_, _, hRead⟩ := bind_eq_ok.mp hRead
        cases hRead
        exact absurd hRet (by decide)
      | isenabler0 | icenabler0 | ipriorityr =>
        obtain ⟨_, _, hRead⟩ := bind_eq_ok.mp hRead
        obtain ⟨_, _, hRead⟩ := bind_eq_ok.mp hRead
        cases hRead
        exact absurd hRet (by decide)
      | _ =>
        cases hRead
        exact absurd hRet (by decide)

theorem vgicrMmioWrite_fails (hRet : ret < 0) (hWrite : vgicrMmioWrite b cpu vcpu offset v = .ok (b', ret)) :
    b' = b := by
  obtain ⟨frame, _, hWrite⟩ := bind_eq_ok.mp hWrite
  cases frame with
  | none =>
    cases hWrite
    rfl
  | some frame =>
    dsimp only at hWrite
    cases hReg : gicrReg (offset % gicrStride) with
    | none =>
      rw [hReg] at hWrite
      cases hWrite
      rfl
    | some reg =>
      rw [hReg] at hWrite
      cases reg with
      | isenabler0 | icenabler0 | ipriorityr =>
        obtain ⟨_, _, hWrite⟩ := bind_eq_ok.mp hWrite
        obtain ⟨_, _, hWrite⟩ := bind_eq_ok.mp hWrite
        cases hWrite
        exact absurd hRet (by decide)
      | _ =>
        cases hWrite
        rfl

theorem callRead_fails (hRet : ret < 0) (hRead : callRead b vcpu offset old handler = .ok (ret, v)) : v = old := by
  cases handler with
  | vgicd => exact absurd hRet (by rw [vgicdMmioRead_ret hRead]; decide)
  | vgicr => exact vgicrMmioRead_fails hRet hRead
  | virtio =>
    obtain ⟨_, _, hRead⟩ := bind_eq_ok.mp hRead
    cases hRead
    exact absurd hRet (by decide)

theorem callWrite_fails (hRet : ret < 0) (hWrite : callWrite n b cpu vcpu offset v handler = .ok (b', ret)) :
    b' = b := by
  cases handler with
  | vgicd => exact absurd hRet (by rw [vgicdMmioWrite_ret hWrite]; decide)
  | vgicr => exact vgicrMmioWrite_fails hRet hWrite
  | virtio =>
    obtain ⟨_, _, hWrite⟩ := bind_eq_ok.mp hWrite
    obtain ⟨_, _, hWrite⟩ := bind_eq_ok.mp hWrite
    cases hWrite
    exact absurd hRet (by decide)

theorem setDestination_self (b : Board) (vcpu t : Nat) : setDestination b vcpu t (destination b vcpu t) = b := by
  rw [setDestination, destination]
  split
  · rw [store_load]
    rfl
  · rw [Board.setX, Function.update_eq_self, Function.update_eq_self]

theorem mmioEmulate_selected {mmio : Option (MmioInfo Handler)} (h : Selects b.hv vcpu access.ipa mmio) :
    mmioEmulate n b cpu vcpu t access = emulateIn n b cpu vcpu t access mmio := by
  obtain ⟨vm, hVm, hFind⟩ := h
  rw [mmioEmulate, hVm, deref, ok_bind, hFind, ok_bind]
  cases mmio with
  | none => rfl
  | some mmio => rfl

theorem EmulationFails.unchanged (h : EmulationFails n b cpu vcpu t access) :
    ∃ ret, ret < 0 ∧ mmioEmulate n b cpu vcpu t access = .ok (b, ret) := by
  cases h with
  | noRegion hRegion => exact ⟨-1, by decide, mmioEmulate_selected hRegion⟩
  | noWriteHandler hRegion hWnr hHandler =>
    refine ⟨-1, by decide, ?_⟩
    rw [mmioEmulate_selected hRegion, emulateIn, if_pos hWnr, hHandler]
  | noReadHandler hRegion hWnr hHandler =>
    refine ⟨-1, by decide, ?_⟩
    rw [mmioEmulate_selected hRegion, emulateIn, if_neg (not_not.mpr hWnr), hHandler]
  | @write _ _ _ ret hRegion hWnr hHandler hCall hRet =>
    refine ⟨ret, hRet, ?_⟩
    rw [callWrite_fails hRet hCall] at hCall
    rw [mmioEmulate_selected hRegion, emulateIn, if_pos hWnr, hHandler]
    exact hCall
  | @read _ _ _ ret hRegion hWnr hHandler hCall hRet =>
    refine ⟨ret, hRet, ?_⟩
    rw [callRead_fails hRet hCall] at hCall
    rw [mmioEmulate_selected hRegion, emulateIn, if_neg (not_not.mpr hWnr), hHandler]
    dsimp only
    rw [hCall, ok_bind]
    dsimp only
    -- the destination is written back with what it held
    rw [setDestination_self]
    rfl

theorem emulationFails_of_neg (h : mmioEmulate n b cpu vcpu t access = .ok (b', ret)) (hRet : ret < 0) :
    EmulationFails n b cpu vcpu t access := by
  obtain ⟨vm, hVm, hRest⟩ := bind_eq_ok.mp h
  obtain ⟨mmio, hFind, _⟩ := bind_eq_ok.mp hRest
  have hRegion : Selects b.hv vcpu access.ipa mmio := by
    refine ⟨vm, ?_, hFind⟩
    cases hEntry : (b.hv.vcpus vcpu).vm with
    | none =>
      rw [hEntry] at hVm
      cases hVm
    | some vm' =>
      rw [hEntry] at hVm
      cases hVm
      rfl
  rw [mmioEmulate_selected hRegion] at h
  cases mmio with
  | none => exact .noRegion hRegion
  | some mmio =>
    rw [emulateIn] at h
    split at h
    · rename_i hWnr
      cases hHandler : mmio.write with
      | none => exact .noWriteHandler hRegion hWnr hHandler
      | some handler =>
        rw [hHandler] at h
        exact .write hRegion hWnr hHandler h hRet
    · rename_i hWnr
      have hLoad : access.issWnr = 0 := not_not.mp hWnr
      cases hHandler : mmio.read with
      | none => exact .noReadHandler hRegion hLoad hHandler
      | some handler =>
        rw [hHandler] at h
        obtain ⟨⟨r, v⟩, hCall, hPure⟩ := bind_eq_ok.mp h
        cases hPure
        exact .read hRegion hLoad hHandler hCall hRet

end

section
variable {n : Nat} {b b' : Board} {cpu vcpu esr far hpfar : Nat}

theorem dataAbortHandler_givesUp (h : GivesUp n b cpu vcpu esr far hpfar) :
    dataAbortHandler n b cpu vcpu esr far hpfar = .ok (b, -1) := by
  rw [dataAbortHandler]
  by_cases hFnv : issFnv (esrIss esr) ≠ 0
  · exact if_pos hFnv
  · obtain ⟨ret, hRet, hEmulate⟩ := (h.resolve_left hFnv).unchanged
    rw [abortAccess] at hEmulate
    dsimp only
    rw [if_neg hFnv, hEmulate, ok_bind]
    exact if_pos hRet

theorem givesUp_of_dataAbortHandler (h : dataAbortHandler n b cpu vcpu esr far hpfar = .ok (b', -1)) :
    GivesUp n b cpu vcpu esr far hpfar := by
  by_cases hFnv : issFnv (esrIss esr) ≠ 0
  · exact .inl hFnv
  · rw [dataAbortHandler] at h
    dsimp only at h
    rw [if_neg hFnv] at h
    obtain ⟨⟨b₁, ret⟩, hEmulate, hRest⟩ := bind_eq_ok.mp h
    dsimp only at hRest
    split at hRest
    · rename_i hRet
      exact .inr (emulationFails_of_neg hEmulate hRet)
    · cases hRest

end

/-- An access that the syndrome does not describe, or that cannot be emulated, is refused without a
change exactly if it is not one that ISV alone rules out. -/
theorem unemulated_unchanged_iff (n : Nat) (b : Board) (cpu vcpu esr far hpfar : Nat) :
    (¬SyndromeValid esr ∨ GivesUp n b cpu vcpu esr far hpfar →
      dataAbortHandler n b cpu vcpu esr far hpfar = .ok (b, -1)) ↔
    (SyndromeValid esr ∨ GivesUp n b cpu vcpu esr far hpfar) := by
  constructor
  · intro h
    by_cases hIsv : SyndromeValid esr
    · exact .inl hIsv
    · exact .inr (givesUp_of_dataAbortHandler (h (.inl hIsv)))
  · rintro (hIsv | hUp) hRefused
    · exact dataAbortHandler_givesUp (hRefused.resolve_left (not_not.mpr hIsv))
    · exact dataAbortHandler_givesUp hUp

def groupOnBoard (b : Board) (v : Nat) : Board :=
  { b with hv := { b.hv with vgics := Function.update b.hv.vgics v { b.hv.vgics v with enableGrp1ns := true } } }

/-- A store to GICD_CTLR whose syndrome is not valid: register 0, taken from bits that mean nothing,
switches the group on and the pc moves on. -/
theorem unemulated_store : ¬SyndromeValid 0x92000040 ∧
    ∃ b', dataAbortHandler 0 (smallBoard.setX 0 0 2) 0 0 0x92000040 0 0x80000 = .ok (b', 0) ∧
      (smallBoard.hv.vgics 0).enableGrp1ns = false ∧ (b'.hv.vgics 0).enableGrp1ns = true ∧
      (b'.hv.vcpus 0).elrEl2 = u64 ((smallBoard.hv.vcpus 0).elrEl2 + 4) := by
  have hHits := smallBoard_hits .vgicd 0 (by decide) 0 0x80000 (by decide)
  have hStore : callWrite 0 (smallBoard.setX 0 0 2) 0 0 0 2 .vgicd = .ok
      (groupOnBoard (smallBoard.setX 0 0 2) 0, 0) := by
    have hVm : ((smallBoard.setX 0 0 2).hv.vcpus 0).vm = some 0 := smallBoard_wired.vm 0 (by decide)
    have hVgic : ((smallBoard.setX 0 0 2).hv.vms 0).vgic = some 0 := smallBoard_wired.vgic
    rw [callWrite, vgicdMmioWrite, hVm, deref, ok_bind, show gicdReg 0 = some .ctlr from rfl]
    dsimp only
    rw [hVgic]
    rfl
  have hRun : dataAbortHandler 0 (smallBoard.setX 0 0 2) 0 0 0x92000040 0 0x80000 =
      .ok (advancePc (groupOnBoard (smallBoard.setX 0 0 2) 0) 0, 0) := by
    have hEmulate := mmioEmulate_store (b := smallBoard.setX 0 0 2) hHits 0 0 (issSrt (esrIss 0x92000040))
      (issSas (esrIss 0x92000040)) (show issWnr (esrIss 0x92000040) ≠ 0 by decide)
    have hSource : source (smallBoard.setX 0 0 2) 0 (issSrt (esrIss 0x92000040)) = 2 := by decide
    rw [hSource, hStore] at hEmulate
    rw [dataAbortHandler, if_neg (by decide), hEmulate]
    rfl
  refine ⟨by decide, _, hRun, ?_, ?_, ?_⟩
  · decide +kernel
  · rw [advancePc, Board.setElr, groupOnBoard]
    dsimp only
    rw [Function.update_self]
  · rw [advancePc, Board.setElr]
    dsimp only
    rw [Function.update_self]
    rfl

end HyperPoc.Trap
