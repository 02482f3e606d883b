import HyperPoc.Separation

/-! # Only the first VM runs

The vcpus of all VMs come from one array by first fit. `enter_vcpu` takes the element with the number of
its core, and `switch_to_vcpu` stops if that vcpu has another number in its VM. The vcpus of the VM that
is created first have their place in the array as number, the vcpus of the VMs after it a smaller one.
-/
namespace HyperPoc
open Library.Run Vgic
set_option autoImplicit false

/-- The registers of a vcpu as `new_vcpu` sets them: EL1 with all exceptions masked, and the number of the vcpu. -/
structure Vcpu.Made (v : Vcpu) : Prop where
  spsr : v.spsrEl2 = 0x3c5
  mpidr : v.mpidrEl1 = 0xffffffff80000000 ||| v.cpuid
  midr : v.midrEl1 = 0x410fd081
  sctlr : v.sctlrEl1 = 0x30c50830
  cntfrq : v.cntfrqEl0 = 62500000

theorem Vcpu.Made.edit {v : Vcpu} (h : v.Made) (pc : Nat) (st : VcpuState) :
    Vcpu.Made { v with elrEl2 := pc, state := st } :=
  ⟨h.spsr, h.mpidr, h.midr, h.sctlr, h.cntfrq⟩

/-- The first `n` elements of the array are in use, and their numbers in their VMs are as above. -/
structure Ranked (n : Nat) (s : Hypervisor) : Prop where
  bound : n ≤ vcpuMax
  used : ∀ u, (s.vcpus u).state ≠ .unused ↔ u < n
  first : ∀ u, u < n → (s.vcpus u).vm = some 0 → (s.vcpus u).cpuid = u
  later : ∀ u, u < n → (s.vcpus u).vm ≠ some 0 → (s.vcpus u).cpuid < u
  running : ∀ u, (s.vcpus u).state = .running → (s.vcpus u).vm = some 0
  made : ∀ u, u < n → (s.vcpus u).Made

/-- The number `k` that VM `i` gives to its next vcpu, with `n` elements in use. -/
def NextNumber (i k n : Nat) : Prop := n = vcpuMax ∨ if i = 0 then k = n else k < n

section
variable {i k n : Nat} {s s' : Hypervisor}

theorem Ranked.congr (h : Ranked n s) (hVm : ∀ u, (s'.vcpus u).vm = (s.vcpus u).vm)
    (hCpuid : ∀ u, (s'.vcpus u).cpuid = (s.vcpus u).cpuid)
    (hState : ∀ u, (s'.vcpus u).state ≠ .unused ↔ (s.vcpus u).state ≠ .unused)
    (hRunning : ∀ u, (s'.vcpus u).state = .running → (s.vcpus u).state = .running ∨ (s.vcpus u).vm = some 0)
    (hMade : ∀ u, (s.vcpus u).Made → (s'.vcpus u).Made) : Ranked n s' where
  bound := h.bound
  used := fun u => (hState u).trans (h.used u)
  first := by
    intro u hu
    rw [hVm, hCpuid]
    exact h.first u hu
  later := by
    intro u hu
    rw [hVm, hCpuid]
    exact h.later u hu
  running := by
    intro u hu
    rw [hVm]
    obtain hOld | hFirst := hRunning u hu
    · exact h.running u hOld
    · exact hFirst
  made := fun u hu => hMade u (h.made u hu)

theorem Ranked.of_vcpus (h : Ranked n s) (hVcpus : s'.vcpus = s.vcpus) : Ranked n s' := by
  refine h.congr ?_ ?_ ?_ ?_ ?_
  all_goals intro u
  all_goals rw [hVcpus]
  · exact .inl
  · exact id

theorem newVcpu_place {u vm vcpuid entrypoint : Nat} (h : newVcpu s vm vcpuid entrypoint = (s', some u)) :
    firstFree (fun i => (s.vcpus i).state == .unused) vcpuMax = some u ∧ (s'.vcpus u).state = .created ∧
      (s'.vcpus u).Made := by
  rw [newVcpu, vcpuAlloc] at h
  cases hFree : firstFree (fun i => (s.vcpus i).state == .unused) vcpuMax with
  | none =>
    rw [hFree] at h
    cases h
  | some place =>
    rw [hFree] at h
    obtain ⟨_, hVcpus, _⟩ := newVgicCpu_spec
      { s with vcpus := Function.update s.vcpus place { s.vcpus place with state := .created } } vcpuid
    dsimp only at h hVcpus
    cases h
    refine ⟨rfl, ?_⟩
    dsimp only
    rw [Function.update_self, hVcpus, Function.update_self]
    exact ⟨rfl, rfl, rfl, rfl, rfl, rfl⟩

theorem newVcpu_full {vm vcpuid entrypoint : Nat} (h : (newVcpu s vm vcpuid entrypoint).2 = none) :
    firstFree (fun i => (s.vcpus i).state == .unused) vcpuMax = none := by
  rw [newVcpu, vcpuAlloc] at h
  cases hFree : firstFree (fun i => (s.vcpus i).state == .unused) vcpuMax with
  | none => rfl
  | some place =>
    rw [hFree] at h
    cases h

/-- First fit takes the element behind those in use, and none if all are. -/
theorem Ranked.firstFree_eq (h : Ranked n s) :
    firstFree (fun i => (s.vcpus i).state == .unused) vcpuMax = if n < vcpuMax then some n else none := by
  split
  · rename_i hn
    refine List.find?_range_eq_some.mpr ⟨?_, List.mem_range.mpr hn, ?_⟩
    · have hFree := (h.used n).not.mpr (Nat.lt_irrefl n)
      rw [not_not.mp hFree]
      rfl
    · intro u hu
      simpa using (h.used u).mpr hu
  · rename_i hn
    refine List.find?_eq_none.mpr ?_
    intro u hu
    have hUsed := (h.used u).mpr (Nat.lt_of_lt_of_le (List.mem_range.mp hu) (Nat.le_of_not_lt hn))
    simpa using hUsed

theorem NextNumber.succ_full (hn : n = vcpuMax) : NextNumber i (k + 1) n := .inl hn

theorem NextNumber.succ (h : NextNumber i k n) (hn : n < vcpuMax) : NextNumber i (k + 1) (n + 1) := by
  obtain hFull | hNext := h
  · omega
  · right
    split at hNext
    · rename_i hi
      rw [if_pos hi, hNext]
    · rename_i hi
      rw [if_neg hi]
      omega

theorem Ranked.addVcpu (h : Ranked n s) (hNext : NextNumber i k n) {entrypoint : Nat}
    (hAdd : addVcpu s i k entrypoint = .ok s') : ∃ n', 0 < n' ∧ Ranked n' s' ∧ NextNumber i (k + 1) n' := by
  rw [HyperPoc.addVcpu] at hAdd
  split at hAdd
  rename_i s₁ vcpu hNew
  split at hAdd
  swap
  · cases hAdd
  have hVcpus : s'.vcpus = s₁.vcpus := by
    cases hAdd
    rfl
  clear hAdd
  obtain hNone | ⟨s₂, u, hSome, _, _, hOthers, hState, hVm, hCpuid, _⟩ := newVcpu_spec s i k entrypoint
  · cases hNew.symm.trans hNone
    have hFull := newVcpu_full (congrArg Prod.snd hNone)
    rw [h.firstFree_eq] at hFull
    split at hFull
    · cases hFull
    rename_i hn
    have hMax : n = vcpuMax := Nat.le_antisymm h.bound (Nat.le_of_not_lt hn)
    refine ⟨n, by rw [hMax]; decide, ?_, .succ_full hMax⟩
    exact h.of_vcpus hVcpus
  · cases hNew.symm.trans hSome
    obtain ⟨hPlace, hCreated, hMade⟩ := newVcpu_place hSome
    rw [h.firstFree_eq] at hPlace
    split at hPlace
    swap
    · cases hPlace
    rename_i hn
    cases hPlace
    refine ⟨n + 1, Nat.succ_pos n, ?_, hNext.succ hn⟩
    have hOld : ∀ u, u < n → s'.vcpus u = s.vcpus u := by
      intro u hu
      rw [hVcpus, hOthers u (by omega)]
    rw [← hVcpus] at hState hVm hCpuid hCreated hMade
    refine ⟨hn, ?_, ?_, ?_, ?_, ?_⟩
    · intro u
      obtain rfl | hNe := eq_or_ne u n
      · exact iff_of_true hState (Nat.lt_succ_self u)
      · rw [hVcpus, hOthers u hNe, h.used u]
        omega
    · intro u hu hFirst
      obtain rfl | hNe := eq_or_ne u n
      · rw [hVm] at hFirst
        cases hFirst
        rw [hCpuid]
        obtain hMax | hEq := hNext
        · omega
        · rwa [if_pos rfl] at hEq
      · have hLt : u < n := by omega
        rw [hOld u hLt] at hFirst ⊢
        exact h.first u hLt hFirst
    · intro u hu hLater
      obtain rfl | hNe := eq_or_ne u n
      · rw [hVm] at hLater
        rw [hCpuid]
        obtain hMax | hLt := hNext
        · omega
        · rwa [if_neg fun hi => hLater (congrArg some hi)] at hLt
      · have hLt : u < n := by omega
        rw [hOld u hLt] at hLater ⊢
        exact h.later u hLt hLater
    · intro u hu
      obtain rfl | hNe := eq_or_ne u n
      · rw [hCreated] at hu
        cases hu
      · rw [hVcpus, hOthers u hNe] at hu ⊢
        exact h.running u hu
    · intro u hu
      obtain rfl | hNe := eq_or_ne u n
      · exact hMade
      · have hLt : u < n := by omega
        rw [hOld u hLt]
        exact h.made u hLt

theorem Ranked.addVcpusLoop {rounds : Nat} (h : Ranked n s) (hn : 0 < n) (hNext : NextNumber i k n)
    (hLoop : addVcpusLoop i rounds k s = .ok s') : ∃ n', 0 < n' ∧ Ranked n' s' := by
  induction rounds generalizing k n s with
  | zero =>
    cases hLoop
    exact ⟨n, hn, h⟩
  | succ rounds ih =>
    obtain ⟨s₁, hAdd, hRest⟩ := bind_eq_ok.mp hLoop
    obtain ⟨n₁, hn₁, h₁, hNext₁⟩ := h.addVcpu hNext hAdd
    exact ih h₁ hn₁ hNext₁ hRest

theorem newVgic_vcpus {g : Nat} (h : newVgic s i = .ok (s', g)) : s'.vcpus = s.vcpus := by
  rw [newVgic] at h
  split at h
  · cases h
  rename_i s₂ g' hAlloc
  obtain ⟨s₃, hGicd, hRest⟩ := bind_eq_ok.mp h
  obtain ⟨s₄, hGicr, hLast⟩ := bind_eq_ok.mp hRest
  cases hLast
  rw [(s2PtTrap_registers hGicr).choose_spec.2.2.2.1, (s2PtTrap_registers hGicd).choose_spec.2.2.2.1]
  dsimp only
  rw [vgicAlloc] at hAlloc
  split at hAlloc
  · cases hAlloc
    rfl
  · cases hAlloc

theorem setName_vcpus {nvcpu : Int} {name : Option String} (h : setName s i nvcpu name = .ok s') :
    s'.vcpus = s.vcpus := by
  cases name with
  | none => cases h
  | some name =>
    rw [setName] at h
    split at h
    · cases h
      rfl
    · cases h

theorem vcpuReady_vcpus {u : Nat} (h : vcpuReady s (some u) = .ok s') (v : Nat) :
    s'.vcpus v = if v = u then { s.vcpus v with state := .ready } else s.vcpus v := by
  cases h
  dsimp only
  rw [Function.update_apply]
  split
  · rename_i hv
    rw [hv]
  · rfl

theorem Ranked.create {cfg : VmConfig} {s₀ : Hypervisor} (h : Ranked n s) (hNext : NextNumber i 0 n)
    (hVm : allocvm s = some (s₀, i)) (hBlank : (s.vms i).vcpus 0 = none) (hRun : createVm s (some cfg) = .ok s') :
    ∃ n', 0 < n' ∧ Ranked n' s' := by
  obtain ⟨c⟩ := createVm_creation hVm hRun
  have hTaken := allocvm_taken hVm
  have hNamed : c.named.vcpus = s.vcpus := by
    rw [setName_vcpus c.hName, hTaken]
    rfl
  have hStart : Ranked n c.named := h.of_vcpus hNamed
  obtain ⟨n₁, hn₁, h₁, hNext₁⟩ := hStart.addVcpu hNext c.hFirst
  obtain ⟨n₂, hn₂, h₂⟩ := h₁.addVcpusLoop hn₁ hNext₁ c.hOthers
  have hVgic : c.vgic.vcpus = c.others.vcpus := by
    rw [newVgic_vcpus c.hVgic, (s2PtTrap_registers c.hVirtio).choose_spec.2.2.2.1]
    rfl
  have hEntry : (c.vgic.vcpus c.vcpu).state ≠ .unused := by
    have hAlloc : Extends i s s₀ := by
      rw [hTaken]
      exact extends_vm rfl rfl rfl rfl fun _ => rfl
    obtain hOld | hNew := (hAlloc.trans c.extends.1).entries 0 c.vcpu c.hVcpu
    · rw [hBlank] at hOld
      cases hOld
    · exact hNew.2
  have hReady : ∀ u, s'.vcpus u = if u = c.vcpu then { c.others.vcpus u with state := .ready }
      else c.others.vcpus u := by
    intro u
    rw [vcpuReady_vcpus c.hReady u, ← hVgic]
    rfl
  refine ⟨n₂, hn₂, h₂.congr ?_ ?_ ?_ ?_ ?_⟩
  all_goals intro u
  all_goals rw [hReady]
  all_goals split
  · rfl
  · rfl
  · rfl
  · rfl
  · rename_i hu
    subst hu
    rw [hVgic] at hEntry
    exact iff_of_true (by simp) hEntry
  · exact Iff.rfl
  · intro hState
    cases hState
  · exact .inl
  · exact fun hMade => hMade.edit _ _
  · exact id

theorem Ranked.trap {b b' : Board} {spis : Nat} {ts : List Tenant} (h : Ranked n b.hv) (hTouch : Touches ts b.hv b'.hv)
    (hContained : Trap.Contained i spis b b') : Ranked n b'.hv := by
  refine h.congr hContained.vm ?_ (fun u => (hTouch.vcpus u).2.not) ?_ ?_
  · intro u
    obtain ⟨pc, st, hEq, _⟩ := hContained.vcpus u
    rw [hEq]
  · intro u hu
    obtain ⟨pc, st, hEq, rfl | ⟨rfl, _⟩⟩ := hContained.vcpus u
    · rw [hEq] at hu
      exact .inl hu
    · rw [hEq] at hu
      cases hu
  · intro u hMade
    obtain ⟨pc, st, hEq, _⟩ := hContained.vcpus u
    rw [hEq]
    exact hMade.edit pc st

theorem Ranked.enter {cpu : Nat} (h : Ranked n s) (hRun : Trap.enterVcpu s cpu = .ok s') : Ranked n s' := by
  rw [Trap.enterVcpu] at hRun
  split at hRun
  · cases hRun
  split at hRun
  · cases hRun
  rename_i hReady
  rw [Trap.switchToVcpu] at hRun
  split at hRun
  · cases hRun
  rename_i hCpuid
  have hUsed : (s.vcpus cpu).state ≠ .unused := by
    rw [not_not.mp hReady]
    decide
  have hFirst : (s.vcpus cpu).vm = some 0 := by
    by_contra hLater
    have hLt := h.later cpu ((h.used cpu).mp hUsed) hLater
    omega
  cases hRun
  refine h.congr ?_ ?_ ?_ ?_ ?_
  all_goals intro u
  all_goals rw [Trap.vcpus_editVcpu]
  all_goals split
  · rfl
  · rfl
  · rfl
  · rfl
  · rename_i hu
    rw [hu]
    exact iff_of_true (by simp) hUsed
  · exact Iff.rfl
  · rename_i hu
    rw [hu]
    exact fun _ => .inr hFirst
  · exact .inl
  · exact fun hMade => hMade.edit _ _
  · exact id

end

section
variable {b₀ b b' : Board} {es : List Event} {h₀ : Host} {ts : List Tenant}

/-- The array is empty until the first VM is created. -/
def FirstRuns (b : Board) : Prop := ∃ n, Ranked n b.hv ∧ ((b.hv.vms 0).used = true ↔ 0 < n)

theorem FirstRuns.step {e : Event} (h : FirstRuns b) (hHouses : Houses h₀ b.hv ts) (hStep : Step b e b') :
    FirstRuns b' := by
  obtain ⟨n, hRanked, hFirst⟩ := h
  cases hStep with
  | @create cfg img s hPlaced hImg hOut hRun hGranted =>
    obtain ⟨s₀, i, hVm⟩ := createVm_takes hImg hRun
    obtain rfl := hHouses.allocvm_eq hVm
    have hBlank := hHouses.blank ts.length 0 (Nat.le_refl _)
    obtain ⟨hExtends, hUsed, _⟩ := createVm_extends hVm hBlank hRun
    have hZero : 0 < vmMax := by decide
    have hNext : NextNumber ts.length 0 n := by
      right
      split
      · rename_i hEmpty
        have hUnused := (hHouses.used 0 hZero).not.mpr (by omega)
        rw [hFirst] at hUnused
        omega
      · rename_i hSome
        exact hFirst.mp ((hHouses.used 0 hZero).mpr (by omega))
    obtain ⟨n', hn', hRanked'⟩ := hRanked.create hNext hVm hBlank hRun
    refine ⟨n', hRanked', iff_of_true ?_ hn'⟩
    obtain hEmpty | hSome := Nat.eq_zero_or_pos ts.length
    · rwa [hEmpty] at hUsed
    · dsimp only
      rw [hExtends.vms 0 (by omega)]
      exact (hHouses.used 0 hZero).mpr hSome
  | @store i ipa v hi hUsed =>
    refine ⟨n, ?_, ?_⟩
    · exact hRanked.of_vcpus (guestStore_vcpus b.hv i ipa v)
    · dsimp only
      rw [guestStore_vms]
      exact hFirst
  | trap hRunning hPlain hRun =>
    obtain ⟨i, t, ht, hServes⟩ := hHouses.serves (by rw [hRunning]; decide)
    have hContained := Trap.takeTrap_contained hServes hPlain hRun
    refine ⟨n, hRanked.trap (hHouses.trap_touches ht hContained) hContained, ?_⟩
    rw [hContained.vms]
    exact hFirst
  | enter hRun =>
    refine ⟨n, hRanked.enter hRun, ?_⟩
    dsimp only
    rw [(enterVcpu_touches ts hRun).1.vms]
    exact hFirst

theorem FirstRuns.steps (hFresh : Houses b₀.hv.host b₀.hv []) (hSteps : Steps b₀ es b) : FirstRuns b := by
  induction hSteps with
  | none =>
    have hUnused : ∀ u, (b₀.hv.vcpus u).state = .unused := by
      intro u
      by_contra hState
      obtain ⟨i, hi, _⟩ := hFresh.staff u hState
      cases hi
    have hNone : ∀ u, ¬u < 0 := Nat.not_lt_zero
    refine ⟨0, ⟨Nat.zero_le _, ?_, fun u hu => absurd hu (hNone u), fun u hu => absurd hu (hNone u), ?_,
      fun u hu => absurd hu (hNone u)⟩, hFresh.used 0 (by decide)⟩
    · intro u
      exact iff_of_false (not_not.mpr (hUnused u)) (hNone u)
    · intro u hu
      rw [hUnused] at hu
      cases hu
  | snoc hBefore hStep ih =>
    obtain ⟨ts, hHouses, _⟩ := (hFresh.simulates.steps hBefore).houses
    exact ih.step hHouses hStep

/-- However VMs are created and run, a vcpu that runs is one of the VM created first. A ready vcpu of another VM stops
the core that would enter it. -/
theorem only_first_vm_runs (hFresh : Houses b₀.hv.host b₀.hv []) (hSteps : Steps b₀ es b) (u : Nat) :
    ((b.hv.vcpus u).state = .running → (b.hv.vcpus u).vm = some 0 ∧ (b.hv.vcpus u).cpuid = u) ∧
    ((b.hv.vcpus u).state = .ready → (b.hv.vcpus u).vm ≠ some 0 →
      Trap.enterVcpu b.hv u = .error (.panic "vcpu cpuid mismatch")) := by
  obtain ⟨n, hRanked, _⟩ := FirstRuns.steps hFresh hSteps
  constructor
  · intro hRunning
    have hVm := hRanked.running u hRunning
    exact ⟨hVm, hRanked.first u ((hRanked.used u).mp (by rw [hRunning]; decide)) hVm⟩
  · intro hReady hVm
    have hu := (hRanked.used u).mp (by rw [hReady]; decide)
    have hCpuid := hRanked.later u hu hVm
    rw [Trap.enterVcpu, if_neg (Nat.not_le.mpr (Nat.lt_of_lt_of_le hu hRanked.bound)), if_neg (not_not.mpr hReady),
      Trap.switchToVcpu, if_pos (Nat.ne_of_gt hCpuid)]

end

/-- Two VMs, the first of which has been entered: its vcpu runs, and core 2 stops at the vcpu of the second. -/
theorem only_first_vm_runs_two :
    ∃ b, Steps roomyBoard [.create smallCfg smallImg, .create smallCfg smallImg, .enter 0] b ∧
    (b.hv.vcpus 0).vm = some 0 ∧ Trap.enterVcpu b.hv 2 = .error (.panic "vcpu cpuid mismatch") := by
  obtain ⟨b, hSteps, _, _, hReady, hCpuid, hReady₂, hVm₂⟩ := roomyBoard_two
  have hAll := hSteps.enter (by decide) hReady hCpuid
  refine ⟨_, hAll, ?_, ?_⟩
  · refine ((only_first_vm_runs roomyBoard_fresh hAll 0).1 ?_).1
    dsimp only
    rw [Trap.vcpus_editVcpu, if_pos rfl]
  · apply (only_first_vm_runs roomyBoard_fresh hAll 2).2
    · dsimp only
      rw [Trap.vcpus_editVcpu, if_neg (by decide)]
      exact hReady₂
    · dsimp only
      rw [Trap.vcpus_editVcpu, if_neg (by decide), hVm₂]
      decide

end HyperPoc
