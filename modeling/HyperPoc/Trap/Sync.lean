import HyperPoc.Vgic.Setup

/-! # Synchronous traps

A guest traps with a data abort, with WFI or WFE, or with HVC for a call of PSCI. The handlers give
back an `int`, and anything but 0 stops the hypervisor. `fw` is what firmware answers to `psci_call`.
-/
namespace HyperPoc.Trap
open Library.Run Vgic
set_option autoImplicit false

def psciVersion : Nat := 0x84000000
def psciCpuSuspendSmc32 : Nat := 0x84000001
def psciCpuSuspendSmc64 : Nat := 0xc4000001
def psciCpuOff : Nat := 0x84000002
def psciCpuOnSmc32 : Nat := 0x84000003
def psciCpuOnSmc64 : Nat := 0xc4000003
def psciAffinityInfoSmc32 : Nat := 0x84000004
def psciAffinityInfoSmc64 : Nat := 0xc4000004
def psciFeatures : Nat := 0x8400000a
def psciVersion02 : Nat := 2
def psciESuccess : Nat := 0
def psciENotSupported : Nat := 2 ^ 64 - 1

/-- The target is an index into `vm->vcpus`. It is made ready before firmware is asked. -/
def psciCpuOn (fw : Nat) (b : Board) (vcpu x1 x2 : Nat) : Outcome (Board × Nat) := do
  let vm ← deref (b.hv.vcpus vcpu).vm
  let target ← if x1 < vcpuMax then deref ((b.hv.vms vm).vcpus x1) else .error .outOfBounds
  let b := b.setElr target x2
  let s ← vcpuReady b.hv (some target)
  return ({ b with hv := s }, fw)

def psciFeaturesHandler (smcFid : Nat) : Nat :=
  if smcFid ∈ [psciVersion, psciCpuOff, psciCpuSuspendSmc32, psciCpuSuspendSmc64, psciCpuOnSmc32, psciCpuOnSmc64,
    psciAffinityInfoSmc32, psciAffinityInfoSmc64, psciFeatures] then psciESuccess
  else psciENotSupported

def psciHandler (fw : Nat) (b : Board) (vcpu smcFid x1 x2 : Nat) : Outcome (Board × Nat) :=
  if smcFid = psciVersion then .ok (b, psciVersion02)
  else if smcFid = psciCpuOnSmc64 then psciCpuOn fw b vcpu x1 x2
  else if smcFid = psciFeatures then .ok (b, psciFeaturesHandler (x1 % 2 ^ 32))
  else .error (.panic "Unsupported smc_fid 0x%x\n")

def isPsciFid (fid : Nat) : Prop :=
  (fid &&& 0xff000000 = 0xc4000000 ∨ fid &&& 0xff000000 = 0x84000000) ∧ fid &&& 0xffe0 = 0

instance (fid : Nat) : Decidable (isPsciFid fid) := inferInstanceAs (Decidable (_ ∧ _))

def standardServiceCall (fw : Nat) (b : Board) (vcpu : Nat) : Outcome (Board × Nat) :=
  if isPsciFid (b.x vcpu 0) then psciHandler fw b vcpu (b.x vcpu 0 % 2 ^ 32) (b.x vcpu 1) (b.x vcpu 2)
  else .error (.panic "Unknown smc fid 0x%x\n")

/-- The mask is the complement of a 32-bit `0xffff`. -/
def syscallHandler (fw : Nat) (b : Board) (vcpu : Nat) : Outcome (Board × Int) := do
  if b.x vcpu 0 &&& 0xffff0000 = 0xc4000000 then
    let (b, ret) ← standardServiceCall fw b vcpu
    return (b.setX vcpu 0 ret, toInt32 ret)
  else .error (.panic "Unknown/Unsupported system monitor call fid 0x%x")

/-- HVC has moved the pc on already. -/
def hvcHandler (fw : Nat) (b : Board) (vcpu : Nat) : Outcome (Board × Int) := syscallHandler fw b vcpu

/-- The wait for an interrupt comes to an end and changes nothing. -/
def wfxEmulateHandler (b : Board) (vcpu : Nat) : Outcome (Board × Int) := .ok (advancePc b vcpu, 0)

inductive SyncTrapHandler
  | wfxEmulate
  | hvc
  | dataAbort
  deriving DecidableEq

/-- The mask of the class is a negative `int`. -/
def getSyncTrapHandler (esr : Nat) : Option SyncTrapHandler :=
  match (esr &&& 0xfffffffffc000000) >>> 26 with
  | 0x01 => some .wfxEmulate
  | 0x16 => some .hvc
  | 0x24 => some .dataAbort
  | _ => none

def callSyncTrapHandler (n fw : Nat) (b : Board) (cpu vcpu esr far hpfar : Nat) :
    SyncTrapHandler → Outcome (Board × Int)
  | .wfxEmulate => wfxEmulateHandler b vcpu
  | .hvc => hvcHandler fw b vcpu
  | .dataAbort => dataAbortHandler n b cpu vcpu esr far hpfar

def lowerElSyncHandler (n fw : Nat) (b : Board) (cpu vcpu esr far hpfar : Nat) : Outcome Board :=
  match getSyncTrapHandler esr with
  | none => .error (.panic "ERROR: invalid/unsupported exception class\n")
  | some handler => do
    let (b, ret) ← callSyncTrapHandler n fw b cpu vcpu esr far hpfar handler
    if ret ≠ 0 then .error (.panic "[lower_el_sync_handler]: sync trap handler failed with %d\n")
    else return b

theorem toInt32_eq_zero {n : Nat} : toInt32 n = 0 ↔ n % 2 ^ 32 = 0 := by
  rw [toInt32]
  split
  · omega
  · omega

def cpuOnBoard (b : Board) (target entry : Nat) : Board :=
  let vcpu := { b.hv.vcpus target with elrEl2 := entry, state := .ready }
  { b with hv := { b.hv with vcpus := Function.update b.hv.vcpus target vcpu } }

section
variable {w : Wiring} {b : Board} {j n fw cpu esr far hpfar : Nat}

theorem psciCpuOn_eq (h : Wired w b.hv) (hj : j < w.nvcpu) {k : Nat} (hk : k < w.nvcpu) (fw entry : Nat) :
    psciCpuOn fw b (w.vcpu j) k entry = .ok (cpuOnBoard b (w.vcpu k) entry, fw) := by
  have hLe := h.nvcpu_le
  rw [psciCpuOn, h.vm j hj, deref, ok_bind, if_pos (by omega), h.vcpus k hk, deref, ok_bind]
  simp [vcpuReady, Board.setElr, cpuOnBoard]

theorem hvcHandler_of_smc32 {vcpu : Nat} (hFid : b.x vcpu 0 = psciVersion ∨ b.x vcpu 0 = psciFeatures) (fw : Nat) :
    hvcHandler fw b vcpu = .error (.panic "Unknown/Unsupported system monitor call fid 0x%x") := by
  have hMask : b.x vcpu 0 &&& 0xffff0000 ≠ 0xc4000000 := by
    obtain hFid | hFid := hFid
    · rw [hFid]
      decide
    · rw [hFid]
      decide
  rw [hvcHandler, syscallHandler, if_neg hMask]

theorem hvcHandler_cpuOn (h : Wired w b.hv) (hj : j < w.nvcpu) (hFid : b.x (w.vcpu j) 0 = psciCpuOnSmc64)
    (hTarget : b.x (w.vcpu j) 1 < w.nvcpu) (fw : Nat) :
    hvcHandler fw b (w.vcpu j) =
      .ok ((cpuOnBoard b (w.vcpu (b.x (w.vcpu j) 1)) (b.x (w.vcpu j) 2)).setX (w.vcpu j) 0 fw, toInt32 fw) := by
  have hPsci : isPsciFid psciCpuOnSmc64 := by decide
  rw [hvcHandler, syscallHandler, standardServiceCall, hFid, if_pos (by decide), if_pos hPsci, psciHandler,
    if_neg (by decide), if_pos (by decide), psciCpuOn_eq h hj hTarget]
  rfl

theorem lowerElSyncHandler_hvc (hEsr : getSyncTrapHandler esr = some .hvc) (vcpu : Nat) :
    lowerElSyncHandler n fw b cpu vcpu esr far hpfar = (do
      let (b, ret) ← hvcHandler fw b vcpu
      if ret ≠ 0 then .error (.panic "[lower_el_sync_handler]: sync trap handler failed with %d\n")
      else return b) := by
  rw [lowerElSyncHandler, hEsr]
  rfl

theorem lowerElSyncHandler_cpuOn (h : Wired w b.hv) (hj : j < w.nvcpu) (hEsr : getSyncTrapHandler esr = some .hvc)
    (hFid : b.x (w.vcpu j) 0 = psciCpuOnSmc64) (hTarget : b.x (w.vcpu j) 1 < w.nvcpu) :
    lowerElSyncHandler n fw b cpu (w.vcpu j) esr far hpfar =
      if fw % 2 ^ 32 = 0 then
        .ok ((cpuOnBoard b (w.vcpu (b.x (w.vcpu j) 1)) (b.x (w.vcpu j) 2)).setX (w.vcpu j) 0 fw)
      else .error (.panic "[lower_el_sync_handler]: sync trap handler failed with %d\n") := by
  rw [lowerElSyncHandler_hvc hEsr, hvcHandler_cpuOn h hj hFid hTarget, ok_bind]
  dsimp only
  by_cases hFw : fw % 2 ^ 32 = 0
  · rw [if_neg (not_not.mpr (toInt32_eq_zero.mpr hFw)), if_pos hFw]
    rfl
  · rw [if_pos (fun hEq => hFw (toInt32_eq_zero.mp hEq)), if_neg hFw]

/-- A call of PSCI is back in the guest: its result is in x0, and the rest of the caller's registers
is as it was. -/
structure PsciReturns (b b' : Board) (vcpu result : Nat) : Prop where
  result : b'.x vcpu 0 = result
  registers : ∀ t, t ≠ 0 → b'.x vcpu t = b.x vcpu t
  spsr : (b'.hv.vcpus vcpu).spsrEl2 = (b.hv.vcpus vcpu).spsrEl2
  elr : (b'.hv.vcpus vcpu).elrEl2 = (b.hv.vcpus vcpu).elrEl2

def psciResult (fw : Nat) (b : Board) (vcpu : Nat) : Nat :=
  if b.x vcpu 0 = psciVersion then psciVersion02
  else if b.x vcpu 0 = psciFeatures then psciFeaturesHandler (b.x vcpu 1 % 2 ^ 32)
  else fw

theorem cpuOnBoard_returns (h : Wired w b.hv) (hj : j < w.nvcpu) {k : Nat} (hk : k < w.nvcpu) (entry fw : Nat) :
    PsciReturns b ((cpuOnBoard b (w.vcpu k) entry).setX (w.vcpu j) 0 fw) (w.vcpu j) fw ↔
      (k = j → entry = (b.hv.vcpus (w.vcpu j)).elrEl2) := by
  have hVcpu : ((cpuOnBoard b (w.vcpu k) entry).setX (w.vcpu j) 0 fw).hv.vcpus (w.vcpu j) =
      if k = j then { b.hv.vcpus (w.vcpu j) with elrEl2 := entry, state := .ready } else b.hv.vcpus (w.vcpu j) := by
    obtain rfl | hNe := eq_or_ne k j
    · simp [cpuOnBoard, Board.setX]
    · have hOther : w.vcpu j ≠ w.vcpu k := fun hEq => hNe (h.vcpu_inj hk hj hEq.symm)
      simp [cpuOnBoard, Board.setX, hOther, hNe]
  constructor
  · intro hReturns hSelf
    have hElr := hReturns.elr
    rwa [hVcpu, if_pos hSelf] at hElr
  · intro hEntry
    constructor
    · rw [x_setX, if_pos ⟨rfl, rfl⟩]
    · intro t ht
      rw [x_setX, if_neg (fun hEq => ht hEq.2)]
      rfl
    · rw [hVcpu]
      split
      · rfl
      · rfl
    · rw [hVcpu]
      split
      · rename_i hSelf
        exact hEntry hSelf
      · rfl

/-- A call of PSCI comes back exactly if it is a CPU_ON that firmware grants and that does not give
its caller another pc. -/
theorem psci_returns_iff (h : Wired w b.hv) (hj : j < w.nvcpu) (hEsr : getSyncTrapHandler esr = some .hvc)
    (hFid : b.x (w.vcpu j) 0 = psciVersion ∨ b.x (w.vcpu j) 0 = psciFeatures ∨
      b.x (w.vcpu j) 0 = psciCpuOnSmc64 ∧ b.x (w.vcpu j) 1 < w.nvcpu) :
    (∃ b', lowerElSyncHandler n fw b cpu (w.vcpu j) esr far hpfar = .ok b' ∧
      PsciReturns b b' (w.vcpu j) (psciResult fw b (w.vcpu j))) ↔
    b.x (w.vcpu j) 0 = psciCpuOnSmc64 ∧ fw % 2 ^ 32 = 0 ∧
      (b.x (w.vcpu j) 1 = j → b.x (w.vcpu j) 2 = (b.hv.vcpus (w.vcpu j)).elrEl2) := by
  obtain hFid | hFid | ⟨hFid, hTarget⟩ := hFid
  · rw [lowerElSyncHandler_hvc hEsr, hvcHandler_of_smc32 (.inl hFid), hFid]
    refine iff_of_false ?_ (fun hOn => absurd hOn.1 (by decide))
    rintro ⟨b', hRun, _⟩
    cases hRun
  · rw [lowerElSyncHandler_hvc hEsr, hvcHandler_of_smc32 (.inr hFid), hFid]
    refine iff_of_false ?_ (fun hOn => absurd hOn.1 (by decide))
    rintro ⟨b', hRun, _⟩
    cases hRun
  -- what is left is CPU_ON: the trap fails for a negative answer, and the entry may be the caller's
  · have hResult : psciResult fw b (w.vcpu j) = fw := by
      rw [psciResult, hFid, if_neg (by decide), if_neg (by decide)]
    rw [lowerElSyncHandler_cpuOn h hj hEsr hFid hTarget, hResult]
    constructor
    · rintro ⟨b', hRun, hReturns⟩
      split at hRun
      · rename_i hFw
        cases hRun
        exact ⟨hFid, hFw, (cpuOnBoard_returns h hj hTarget _ fw).mp hReturns⟩
      · cases hRun
    · rintro ⟨_, hFw, hEntry⟩
      rw [if_pos hFw]
      exact ⟨_, rfl, (cpuOnBoard_returns h hj hTarget _ fw).mpr hEntry⟩

end

theorem psci_returns_iff_small :
    ∃ b', lowerElSyncHandler 0 0 ((smallBoard.setX 0 0 psciCpuOnSmc64).setX 0 1 1) 0
      (smallWiring.vcpu 0) 0x5a000000 0 0 =
        .ok b' ∧
      PsciReturns ((smallBoard.setX 0 0 psciCpuOnSmc64).setX 0 1 1) b' (smallWiring.vcpu 0)
        (psciResult 0 ((smallBoard.setX 0 0 psciCpuOnSmc64).setX 0 1 1) (smallWiring.vcpu 0)) := by
  have hWired : Wired smallWiring ((smallBoard.setX 0 0 psciCpuOnSmc64).setX 0 1 1).hv := smallBoard_wired
  refine (psci_returns_iff hWired (by decide) (by decide) (.inr (.inr ⟨rfl, by decide⟩))).mpr
    ⟨rfl, by decide, ?_⟩
  exact fun hSelf => absurd hSelf (by decide)

/-- PSCI_VERSION stops the hypervisor, and so does a CPU_ON that firmware denies. -/
theorem psci_panics :
    lowerElSyncHandler 0 0 (smallBoard.setX 0 0 psciVersion) 0 0 0x5a000000 0 0 =
      .error (.panic "Unknown/Unsupported system monitor call fid 0x%x") ∧
    lowerElSyncHandler 0 (2 ^ 64 - 3) ((smallBoard.setX 0 0 psciCpuOnSmc64).setX 0 1 1) 0 0 0x5a000000 0 0 =
      .error (.panic "[lower_el_sync_handler]: sync trap handler failed with %d\n") := by
  constructor
  · rw [lowerElSyncHandler_hvc (by decide), hvcHandler_of_smc32 (.inl rfl)]
    rfl
  · have hWired : Wired smallWiring ((smallBoard.setX 0 0 psciCpuOnSmc64).setX 0 1 1).hv := smallBoard_wired
    exact (lowerElSyncHandler_cpuOn (j := 0) hWired (by decide) (by decide) rfl (by decide)).trans (if_neg (by decide))

/-- CPU_ON either turns on a vcpu of the caller's VM, with no change outside that vcpu and x0 of the
caller, or gives back an error code and changes nothing else. -/
inductive CpuOnValidates (w : Wiring) (fw : Nat) (b : Board) (j : Nat) : Prop
  | created (hTarget : b.x (w.vcpu j) 1 < w.nvcpu)
      (hRun : hvcHandler fw b (w.vcpu j) =
        .ok ((cpuOnBoard b (w.vcpu (b.x (w.vcpu j) 1)) (b.x (w.vcpu j) 2)).setX (w.vcpu j) 0 fw, toInt32 fw))
  | refused {code : Nat} {ret : Int} (hCode : code ≠ 0)
      (hRun : hvcHandler fw b (w.vcpu j) = .ok (b.setX (w.vcpu j) 0 code, ret))

section
variable {w : Wiring} {b : Board} {j fw : Nat}

theorem hvcHandler_cpuOn_beyond (h : Wired w b.hv) (hj : j < w.nvcpu)
    (hUnused : ∀ k, w.nvcpu ≤ k → k < vcpuMax → (b.hv.vms w.vm).vcpus k = none)
    (hFid : b.x (w.vcpu j) 0 = psciCpuOnSmc64) (hTarget : w.nvcpu ≤ b.x (w.vcpu j) 1) :
    hvcHandler fw b (w.vcpu j) = .error (if b.x (w.vcpu j) 1 < vcpuMax then .nullDereference else .outOfBounds) := by
  have hPsci : isPsciFid psciCpuOnSmc64 := by decide
  rw [hvcHandler, syscallHandler, standardServiceCall, hFid, if_pos (by decide), if_pos hPsci, psciHandler,
    if_neg (by decide), if_pos (by decide), psciCpuOn, h.vm j hj, deref, ok_bind]
  by_cases hIndex : b.x (w.vcpu j) 1 < vcpuMax
  · rw [if_pos hIndex, if_pos hIndex, hUnused _ hTarget hIndex]
    rfl
  · rw [if_neg hIndex, if_neg hIndex]
    rfl

/-- CPU_ON does what it should exactly if the guest names one of its vcpus. -/
theorem cpuOn_validates_iff (h : Wired w b.hv) (hj : j < w.nvcpu)
    (hUnused : ∀ k, w.nvcpu ≤ k → k < vcpuMax → (b.hv.vms w.vm).vcpus k = none)
    (hFid : b.x (w.vcpu j) 0 = psciCpuOnSmc64) : CpuOnValidates w fw b j ↔ b.x (w.vcpu j) 1 < w.nvcpu := by
  constructor
  · rintro (⟨hTarget, _⟩ | ⟨_, hRun⟩)
    · exact hTarget
    · by_contra hBeyond
      rw [hvcHandler_cpuOn_beyond h hj hUnused hFid (Nat.not_lt.mp hBeyond)] at hRun
      cases hRun
  · intro hTarget
    exact .created hTarget (hvcHandler_cpuOn h hj hFid hTarget fw)

end

theorem smallBoard_unused : ∀ k, smallWiring.nvcpu ≤ k → k < vcpuMax →
    (smallBoard.hv.vms 0).vcpus k = none := by
  decide +kernel

theorem cpuOn_validates_small :
    CpuOnValidates smallWiring 0 ((smallBoard.setX 0 0 psciCpuOnSmc64).setX 0 1 1) 0 := by
  have hWired : Wired smallWiring ((smallBoard.setX 0 0 psciCpuOnSmc64).setX 0 1 1).hv := smallBoard_wired
  exact (cpuOn_validates_iff hWired (by decide) smallBoard_unused rfl).mpr (by decide)

/-- Of the indices a guest with two vcpus can pass, 2 is a null pointer and 4 is behind the array. -/
theorem cpuOn_unchecked :
    hvcHandler 0 ((smallBoard.setX 0 0 psciCpuOnSmc64).setX 0 1 2) 0 = .error .nullDereference ∧
    hvcHandler 0 ((smallBoard.setX 0 0 psciCpuOnSmc64).setX 0 1 4) 0 = .error .outOfBounds ∧
    ¬CpuOnValidates smallWiring 0 ((smallBoard.setX 0 0 psciCpuOnSmc64).setX 0 1 4) 0 := by
  have hBeyond : ∀ x, 2 ≤ x → hvcHandler 0 ((smallBoard.setX 0 0 psciCpuOnSmc64).setX 0 1 x) 0 =
      .error (if x < vcpuMax then .nullDereference else .outOfBounds) := by
    intro x hx
    exact hvcHandler_cpuOn_beyond (w := smallWiring) (b := (smallBoard.setX 0 0 psciCpuOnSmc64).setX 0 1 x) (j := 0)
      smallBoard_wired (by decide) smallBoard_unused rfl hx
  refine ⟨hBeyond 2 (by decide), hBeyond 4 (by decide), ?_⟩
  rintro (⟨hTarget, _⟩ | ⟨_, hRun⟩)
  · exact absurd hTarget (by decide)
  · cases (hBeyond 4 (by decide)).symm.trans hRun

end HyperPoc.Trap
