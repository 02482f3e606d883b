import HyperPoc.Trap.Emulate
import HyperPoc.Vgic.Wiring
import HyperPoc.Vm.Isolation

/-! # What `create_vm` leaves to the trap handlers

Vcpus and their vgic cpus are taken from static arrays by first fit, so those of one VM are all
different. The three windows are at the head of the VM's list of regions.
-/
namespace HyperPoc.Vgic
open Library.Run Trap
set_option autoImplicit false

/-- The first `n` vcpus of a VM, as far as there was a vcpu and a vgic cpu for them. -/
structure Staffed (vm n : Nat) (s : Hypervisor) : Prop where
  made : ∀ k v, k < n → (s.vms vm).vcpus k = some v →
    (s.vcpus v).state ≠ .unused ∧ (s.vcpus v).vm = some vm ∧ (s.vcpus v).cpuid = k
  used : ∀ k v g, k < n → (s.vms vm).vcpus k = some v → (s.vcpus v).vgic = some g → (s.vgicCpus g).used = true
  distinct : ∀ k k' v v' g, k < n → k' < n → (s.vms vm).vcpus k = some v → (s.vms vm).vcpus k' = some v' →
    (s.vcpus v).vgic = some g → (s.vcpus v').vgic = some g → k = k'

section
variable {s s' : Hypervisor} {vm : Nat}

theorem setVm_self (s : Hypervisor) (i : Nat) (v : Vm) : (s.setVm i v).vms i = v := Function.update_self _ _ _

theorem newVgicCpu_spec (s : Hypervisor) (vcpuid : Nat) :
    (newVgicCpu s vcpuid).1.vms = s.vms ∧ (newVgicCpu s vcpuid).1.vcpus = s.vcpus ∧
      (∀ g, (s.vgicCpus g).used = true → ((newVgicCpu s vcpuid).1.vgicCpus g).used = true) ∧
      ∀ g, (newVgicCpu s vcpuid).2 = some g →
        (s.vgicCpus g).used = false ∧ ((newVgicCpu s vcpuid).1.vgicCpus g).used = true := by
  rw [newVgicCpu, vgicCpuAlloc]
  cases hFree : firstFree (fun i => !(s.vgicCpus i).used) vcpuMax with
  | none =>
    refine ⟨rfl, rfl, fun g hg => hg, ?_⟩
    intro g hg
    cases hg
  | some i =>
    have hUnused := List.find?_some hFree
    dsimp only
    rw [Function.update_self, Function.update_idem]
    refine ⟨rfl, rfl, ?_, ?_⟩
    · intro g hg
      obtain rfl | hNe := eq_or_ne g i
      · rw [Function.update_self]
      · rw [Function.update_of_ne hNe]
        exact hg
    · rintro g ⟨⟩
      rw [Function.update_self]
      exact ⟨by simpa using hUnused, rfl⟩

/-- A new vcpu takes a free element and, if there is one, a free vgic cpu. -/
theorem newVcpu_spec (s : Hypervisor) (vm vcpuid entrypoint : Nat) :
    newVcpu s vm vcpuid entrypoint = (s, none) ∨
      ∃ s' i, newVcpu s vm vcpuid entrypoint = (s', some i) ∧ s'.vms = s.vms ∧
        (s.vcpus i).state = .unused ∧ (∀ v, v ≠ i → s'.vcpus v = s.vcpus v) ∧
        (s'.vcpus i).state ≠ .unused ∧ (s'.vcpus i).vm = some vm ∧ (s'.vcpus i).cpuid = vcpuid ∧
        (∀ g, (s.vgicCpus g).used = true → (s'.vgicCpus g).used = true) ∧
        ∀ g, (s'.vcpus i).vgic = some g → (s.vgicCpus g).used = false ∧ (s'.vgicCpus g).used = true := by
  rw [newVcpu, vcpuAlloc]
  cases hFree : firstFree (fun i => (s.vcpus i).state == .unused) vcpuMax with
  | none => exact .inl rfl
  | some i =>
    have hUnused := List.find?_some hFree
    have hCpu := newVgicCpu_spec
      { s with vcpus := Function.update s.vcpus i { s.vcpus i with state := .created } } vcpuid
    dsimp only at hCpu ⊢
    generalize newVgicCpu _ vcpuid = r at hCpu ⊢
    obtain ⟨s₁, vgic⟩ := r
    obtain ⟨hVms, hVcpus, hUsed, hNew⟩ := hCpu
    dsimp only at hVms hVcpus hUsed hNew ⊢
    refine .inr ⟨_, i, rfl, hVms, by simpa using hUnused, ?_⟩
    dsimp only
    rw [Function.update_self, hVcpus, Function.update_self]
    refine ⟨?_, ?_, rfl, rfl, hUsed, hNew⟩
    · intro v hv
      rw [Function.update_of_ne hv, Function.update_of_ne hv]
    · intro hEq
      cases hEq

/-- The entry `add` puts into `vm->vcpus` points to an element that was not in use. -/
structure Adds (vm n : Nat) (s s' : Hypervisor) : Prop where
  nvcpu : (s'.vms vm).nvcpu = (s.vms vm).nvcpu
  bound : n < vcpuMax
  old : ∀ k v, k ≠ n → (s'.vms vm).vcpus k = some v → (s.vms vm).vcpus k = some v
  new : ∀ v, (s'.vms vm).vcpus n = some v → (s.vcpus v).state = .unused ∧
    (s'.vcpus v).state ≠ .unused ∧ (s'.vcpus v).vm = some vm ∧ (s'.vcpus v).cpuid = n ∧
    ∀ g, (s'.vcpus v).vgic = some g → (s.vgicCpus g).used = false ∧ (s'.vgicCpus g).used = true
  same : ∀ v, (s.vcpus v).state ≠ .unused → s'.vcpus v = s.vcpus v
  used : ∀ g, (s.vgicCpus g).used = true → (s'.vgicCpus g).used = true

theorem addVcpu_adds {n entrypoint : Nat} (hAdd : addVcpu s vm n entrypoint = .ok s') : Adds vm n s s' := by
  rw [addVcpu] at hAdd
  split at hAdd
  rename_i s₁ vcpu hNew
  split at hAdd
  swap
  · cases hAdd
  rename_i hBound
  injection hAdd with hResult
  have hEntries : ∀ k, (s'.vms vm).vcpus k = if k = n then vcpu else (s₁.vms vm).vcpus k := by
    intro k
    rw [← hResult, setVm_self]
    exact Function.update_apply _ _ _ _
  have hNvcpu : (s'.vms vm).nvcpu = (s₁.vms vm).nvcpu := by
    rw [← hResult, setVm_self]
  have hSame : s'.vcpus = s₁.vcpus ∧ s'.vgicCpus = s₁.vgicCpus := by
    rw [← hResult]
    exact ⟨rfl, rfl⟩
  clear hResult
  obtain hNone | ⟨s₂, i, hSome, hVms, hUnused, hOthers, hState, hVm, hCpuid, hUsed, hVgic⟩ :=
    newVcpu_spec s vm n entrypoint
  · cases hNew.symm.trans hNone
    refine ⟨hNvcpu, hBound, ?_, ?_, fun v _ => congrFun hSame.1 v, fun g hg => hSame.2 ▸ hg⟩
    · intro k v hk hv
      rwa [hEntries, if_neg hk] at hv
    · intro v hv
      rw [hEntries, if_pos rfl] at hv
      cases hv
  · cases hNew.symm.trans hSome
    rw [hVms] at hEntries hNvcpu
    refine ⟨hNvcpu, hBound, ?_, ?_, ?_, fun g hg => hSame.2 ▸ hUsed g hg⟩
    · intro k v hk hv
      rwa [hEntries, if_neg hk] at hv
    · intro v hv
      rw [hEntries, if_pos rfl] at hv
      cases hv
      rw [hSame.1, hSame.2]
      exact ⟨hUnused, hState, hVm, hCpuid, hVgic⟩
    · intro v hv
      have hNe : v ≠ i := fun hEq => hv (hEq ▸ hUnused)
      rw [hSame.1]
      exact hOthers v hNe

theorem Staffed.add {n : Nat} (h : Staffed vm n s) (hAdds : Adds vm n s s') : Staffed vm (n + 1) s' := by
  have hOld : ∀ k v, k < n + 1 → k ≠ n → (s'.vms vm).vcpus k = some v →
      k < n ∧ (s.vms vm).vcpus k = some v ∧ s'.vcpus v = s.vcpus v := by
    intro k v hk hNe hv
    have hLt : k < n := by omega
    have hEntry := hAdds.old k v hNe hv
    exact ⟨hLt, hEntry, hAdds.same v (h.made k v hLt hEntry).1⟩
  -- a vgic cpu of an older vcpu was in use when the new one took its own
  have hApart : ∀ k v v' g, k < n + 1 → k ≠ n → (s'.vms vm).vcpus k = some v →
      (s'.vms vm).vcpus n = some v' →
      (s'.vcpus v).vgic = some g → (s'.vcpus v').vgic ≠ some g := by
    intro k v v' g hk hNe hv hv' hg hg'
    obtain ⟨hLt, hEntry, hSame⟩ := hOld k v hk hNe hv
    have hFree := ((hAdds.new v' hv').2.2.2.2 g hg').1
    rw [hSame] at hg
    rw [h.used k v g hLt hEntry hg] at hFree
    cases hFree
  refine ⟨?_, ?_, ?_⟩
  · intro k v hk hv
    obtain rfl | hNe := eq_or_ne k n
    · obtain ⟨_, hState, hVm, hCpuid, _⟩ := hAdds.new v hv
      exact ⟨hState, hVm, hCpuid⟩
    · obtain ⟨hLt, hEntry, hSame⟩ := hOld k v hk hNe hv
      rw [hSame]
      exact h.made k v hLt hEntry
  · intro k v g hk hv hg
    obtain rfl | hNe := eq_or_ne k n
    · exact ((hAdds.new v hv).2.2.2.2 g hg).2
    · obtain ⟨hLt, hEntry, hSame⟩ := hOld k v hk hNe hv
      rw [hSame] at hg
      exact hAdds.used g (h.used k v g hLt hEntry hg)
  · intro k k' v v' g hk hk' hv hv' hg hg'
    obtain rfl | hNe := eq_or_ne k n
    · obtain hEq | hNe' := eq_or_ne k' k
      · exact hEq.symm
      · exact False.elim (hApart k' v' v g hk' hNe' hv' hv hg' hg)
    · obtain rfl | hNe' := eq_or_ne k' n
      · exact False.elim (hApart k v v' g hk hNe hv hv' hg hg')
      · obtain ⟨hLt, hEntry, hSame⟩ := hOld k v hk hNe hv
        obtain ⟨hLt', hEntry', hSame'⟩ := hOld k' v' hk' hNe' hv'
        rw [hSame] at hg
        rw [hSame'] at hg'
        exact h.distinct k k' v v' g hLt hLt' hEntry hEntry' hg hg'

theorem addVcpusLoop_staffed {n i : Nat} (h : Staffed vm i s) (hBound : i ≤ vcpuMax)
    (hLoop : addVcpusLoop vm n i s = .ok s') :
    Staffed vm (i + n) s' ∧ i + n ≤ vcpuMax ∧ (s'.vms vm).nvcpu = (s.vms vm).nvcpu := by
  induction n generalizing s i with
  | zero =>
    cases hLoop
    exact ⟨h, hBound, rfl⟩
  | succ n ih =>
    obtain ⟨s₁, hAdd, hRest⟩ := bind_eq_ok.mp hLoop
    have hAdds := addVcpu_adds hAdd
    obtain ⟨hStaffed, hLe, hNvcpu⟩ := ih (h.add hAdds) hAdds.bound hRest
    rw [Nat.add_assoc, Nat.add_comm 1 n] at hStaffed hLe
    exact ⟨hStaffed, hLe, hNvcpu.trans hAdds.nvcpu⟩

theorem s2PtTrap_registers {ipa size : Nat} {handler : Handler} (hTrap : s2PtTrap s vm ipa size handler = .ok s') :
    ∃ n, (s.mmio n).size = 0 ∧
      s'.mmio = Function.update s.mmio n ⟨(s.vms vm).mmioList, ipa, size, some handler, some handler⟩ ∧
      s'.vms vm = { s.vms vm with mmioList := some n } ∧
      s'.vcpus = s.vcpus ∧ s'.vgics = s.vgics ∧ s'.vgicCpus = s.vgicCpus := by
  obtain ⟨h₁, pte, h₂, n, _, _, hFree, rfl⟩ := s2PtTrap_ok hTrap
  exact ⟨n, hFree, rfl, Function.update_self _ _ _, rfl, rfl, rfl⟩

/-- The three windows head the list of the VM's regions. -/
structure Windows (s : Hypervisor) (vm gicr gicd virtio : Nat) : Prop where
  head : (s.vms vm).mmioList = some gicr
  gicr : s.mmio gicr = ⟨some gicd, gicrBase, gicrSize, some .vgicr, some .vgicr⟩
  gicd : s.mmio gicd = ⟨some virtio, gicdBase, gicdSize, some .vgicd, some .vgicd⟩
  virtio : ∃ next, s.mmio virtio = ⟨next, virtio0, virtio0Size, some .virtio, some .virtio⟩

def windowOf : Handler → Nat × Nat
  | .vgicd => (gicdBase, gicdSize)
  | .vgicr => (gicrBase, gicrSize)
  | .virtio => (virtio0, virtio0Size)

instance (w : Nat × Nat) (ipa : Nat) : Decidable (InWindow w ipa) := inferInstanceAs (Decidable (_ ∧ _))

theorem findMmio_window {pool : Nat → MmioInfo Handler} {next : Option Nat} {i : Nat}
    (handler : Handler) (ipa n : Nat)
    (hNode : pool i = ⟨next, (windowOf handler).1, (windowOf handler).2, some handler, some handler⟩) :
    findMmio pool ipa (n + 1) (some i) =
      if InWindow (windowOf handler) ipa then .ok (some (pool i)) else findMmio pool ipa n next := by
  have hEnd : u64 ((windowOf handler).1 + (windowOf handler).2) = (windowOf handler).1 + (windowOf handler).2 := by
    cases handler <;> rfl
  rw [findMmio, hNode, hEnd]
  rfl

theorem windows_apart {handler handler' : Handler} (hNe : handler ≠ handler') {ipa : Nat}
    (hIn : InWindow (windowOf handler) ipa) : ¬InWindow (windowOf handler') ipa := by
  revert hNe hIn
  cases handler <;> cases handler' <;>
    simp [windowOf, InWindow, gicdBase, gicdSize, gicrBase, gicrSize, virtio0, virtio0Size] <;> omega

theorem Windows.hits {gicr gicd virtio vcpu ipa : Nat} (h : Windows s vm gicr gicd virtio)
    (hVm : (s.vcpus vcpu).vm = some vm) {handler : Handler} (hIn : InWindow (windowOf handler) ipa) :
    Hits s vcpu ipa handler (ipa - (windowOf handler).1) := by
  obtain ⟨next, hVirtio⟩ := h.virtio
  have hGicr := findMmio_window .vgicr ipa 63 h.gicr
  have hGicd := findMmio_window .vgicd ipa 62 h.gicd
  have hLast := findMmio_window .virtio ipa 61 hVirtio
  cases handler with
  | vgicr =>
    refine ⟨vm, s.mmio gicr, hVm, ?_, ?_⟩
    · rw [h.head]
      exact hGicr.trans (if_pos hIn)
    · rw [h.gicr]
      exact ⟨rfl, rfl, rfl⟩
  | vgicd =>
    refine ⟨vm, s.mmio gicd, hVm, ?_, ?_⟩
    · rw [h.head]
      exact (hGicr.trans (if_neg (windows_apart (by decide) hIn))).trans (hGicd.trans (if_pos hIn))
    · rw [h.gicd]
      exact ⟨rfl, rfl, rfl⟩
  | virtio =>
    refine ⟨vm, s.mmio virtio, hVm, ?_, ?_⟩
    · rw [h.head]
      exact (hGicr.trans (if_neg (windows_apart (by decide) hIn))).trans
        ((hGicd.trans (if_neg (windows_apart (by decide) hIn))).trans (hLast.trans (if_pos hIn)))
    · rw [hVirtio]
      exact ⟨rfl, rfl, rfl⟩

def wiringOf (s : Hypervisor) (vm : Nat) : Wiring where
  vm := vm
  nvcpu := (s.vms vm).nvcpu.toNat
  vgic := (s.vms vm).vgic.getD 0
  vcpu := fun k => ((s.vms vm).vcpus k).getD 0
  vgicCpu := fun k => (s.vcpus (((s.vms vm).vcpus k).getD 0)).vgic.getD 0

theorem Staffed.wired {n : Nat} (h : Staffed vm n s) (hBound : n ≤ vcpuMax) (hNvcpu : 0 ≤ (s.vms vm).nvcpu)
    (hLe : (s.vms vm).nvcpu ≤ n) (hVgic : (s.vms vm).vgic ≠ none)
    (hFull : ∀ k : Nat, k < (s.vms vm).nvcpu → ∃ v g, (s.vms vm).vcpus k = some v ∧ (s.vcpus v).vgic = some g) :
    Wired (wiringOf s vm) s := by
  have hEntry : ∀ k, k < (wiringOf s vm).nvcpu → (s.vms vm).vcpus k = some ((wiringOf s vm).vcpu k) ∧
      (s.vcpus ((wiringOf s vm).vcpu k)).vgic = some ((wiringOf s vm).vgicCpu k) := by
    intro k hk
    change k < (s.vms vm).nvcpu.toNat at hk
    obtain ⟨v, g, hv, hg⟩ := hFull k (by omega)
    have hVcpu : (wiringOf s vm).vcpu k = v := by
      rw [wiringOf]
      dsimp only
      rw [hv, Option.getD_some]
    have hCpu : (wiringOf s vm).vgicCpu k = g := by
      rw [wiringOf]
      dsimp only
      rw [hv, Option.getD_some, hg, Option.getD_some]
    rw [hVcpu, hCpu]
    exact ⟨hv, hg⟩
  have hLt : ∀ k, k < (wiringOf s vm).nvcpu → k < n := by
    intro k hk
    change k < (s.vms vm).nvcpu.toNat at hk
    omega
  refine ⟨?_, ?_, ?_, fun k hk => (hEntry k hk).1, ?_, ?_, fun k hk => (hEntry k hk).2, ?_⟩
  · exact (Int.toNat_of_nonneg hNvcpu).symm
  · change (s.vms vm).nvcpu.toNat ≤ vcpuMax
    omega
  · obtain ⟨v, hv⟩ := Option.ne_none_iff_exists'.mp hVgic
    change (s.vms vm).vgic = some ((s.vms vm).vgic.getD 0)
    rw [hv, Option.getD_some]
  · intro k hk
    exact (h.made k _ (hLt k hk) (hEntry k hk).1).2.1
  · intro k hk
    exact (h.made k _ (hLt k hk) (hEntry k hk).1).2.2
  · intro k k' hk hk' hEq
    have hSame := (hEntry k hk).2
    rw [hEq] at hSame
    exact h.distinct k k' _ _ _ (hLt k hk) (hLt k' hk') (hEntry k hk).1 (hEntry k' hk').1 hSame (hEntry k' hk').2

/-- The three calls of `s2_pt_trap` on the way to the end of `create_vm`. -/
theorem windows_of_traps {s₀ s₁ s₂ s₃ : Hypervisor}
    (hVirtio : s2PtTrap s₀ vm virtio0 virtio0Size .virtio = .ok s₁) (hVms : s₂.vms = s₁.vms)
    (hMmio : s₂.mmio = s₁.mmio) (hGicd : s2PtTrap s₂ vm gicdBase gicdSize .vgicd = .ok s₃)
    (hGicr : s2PtTrap s₃ vm gicrBase gicrSize .vgicr = .ok s') :
    ∃ gicr gicd virtio, Windows s' vm gicr gicd virtio := by
  obtain ⟨a, _, hMmio₁, hVm₁, _⟩ := s2PtTrap_registers hVirtio
  obtain ⟨c, hFree, hMmio₃, hVm₃, _⟩ := s2PtTrap_registers hGicd
  obtain ⟨d, hFree', hMmio', hVm', _⟩ := s2PtTrap_registers hGicr
  rw [hMmio, hMmio₁] at hFree hMmio₃
  rw [hMmio₃] at hFree' hMmio'
  rw [hVms, hVm₁] at hMmio₃ hMmio'
  rw [hVm₃] at hMmio'
  have hca : c ≠ a := by
    rintro rfl
    rw [Function.update_self] at hFree
    cases hFree
  have hdc : d ≠ c := by
    rintro rfl
    rw [Function.update_self] at hFree'
    cases hFree'
  have hda : d ≠ a := by
    rintro rfl
    rw [Function.update_of_ne hdc, Function.update_self] at hFree'
    cases hFree'
  refine ⟨d, c, a, ?_, ?_, ?_, (s₀.vms vm).mmioList, ?_⟩
  · rw [hVm']
  · rw [hMmio', Function.update_self]
  · rw [hMmio', Function.update_of_ne hdc.symm, Function.update_self]
  · rw [hMmio', Function.update_of_ne hda.symm, Function.update_of_ne hca.symm, Function.update_self]

/-- Nothing the records of the vcpus depend on has changed. -/
structure SameStaff (vm : Nat) (s s' : Hypervisor) : Prop where
  nvcpu : (s'.vms vm).nvcpu = (s.vms vm).nvcpu
  entries : (s'.vms vm).vcpus = (s.vms vm).vcpus
  vcpus : s'.vcpus = s.vcpus
  vgicCpus : s'.vgicCpus = s.vgicCpus

theorem SameStaff.trans {s'' : Hypervisor} (h : SameStaff vm s s') (h' : SameStaff vm s' s'') : SameStaff vm s s'' :=
  ⟨h'.nvcpu.trans h.nvcpu, h'.entries.trans h.entries, h'.vcpus.trans h.vcpus, h'.vgicCpus.trans h.vgicCpus⟩

theorem s2PtTrap_sameStaff {ipa size : Nat} {handler : Handler} (hTrap : s2PtTrap s vm ipa size handler = .ok s') :
    SameStaff vm s s' := by
  obtain ⟨_, _, _, hVm, hVcpus, _, hCpus⟩ := s2PtTrap_registers hTrap
  exact ⟨by rw [hVm], by rw [hVm], hVcpus, hCpus⟩

theorem Staffed.congr {n : Nat} (h : Staffed vm n s) (hSame : SameStaff vm s s') : Staffed vm n s' := by
  obtain ⟨_, hEntries, hVcpus, hCpus⟩ := hSame
  refine ⟨?_, ?_, ?_⟩
  · rw [hEntries, hVcpus]
    exact h.made
  · rw [hEntries, hVcpus, hCpus]
    exact h.used
  · rw [hEntries, hVcpus]
    exact h.distinct

theorem vcpuReady_staffed {n : Nat} {vcpu : Option Nat} (h : Staffed vm n s) (hReady : vcpuReady s vcpu = .ok s') :
    Staffed vm n s' ∧ s'.vms = s.vms ∧ s'.mmio = s.mmio := by
  cases vcpu with
  | none => cases hReady
  | some i =>
    cases hReady
    have hVcpu : ∀ v, ((Function.update s.vcpus i { s.vcpus i with state := .ready } v).state ≠ .unused ∨
        (s.vcpus v).state = .unused) ∧
        (Function.update s.vcpus i { s.vcpus i with state := .ready } v).vm = (s.vcpus v).vm ∧
        (Function.update s.vcpus i { s.vcpus i with state := .ready } v).cpuid = (s.vcpus v).cpuid ∧
        (Function.update s.vcpus i { s.vcpus i with state := .ready } v).vgic = (s.vcpus v).vgic := by
      intro v
      obtain rfl | hNe := eq_or_ne v i
      · rw [Function.update_self]
        exact ⟨.inl (fun hEq => by cases hEq), rfl, rfl, rfl⟩
      · rw [Function.update_of_ne hNe]
        exact ⟨Decidable.or_iff_not_imp_left.mpr (fun hNot => Decidable.not_not.mp hNot), rfl, rfl, rfl⟩
    refine ⟨⟨?_, ?_, ?_⟩, rfl, rfl⟩
    · intro k v hk hv
      obtain ⟨hMade, hVm, hCpuid⟩ := h.made k v hk hv
      obtain ⟨hState, hVm', hCpuid', _⟩ := hVcpu v
      exact ⟨hState.resolve_right hMade, hVm'.trans hVm, hCpuid'.trans hCpuid⟩
    · intro k v g hk hv hg
      exact h.used k v g hk hv ((hVcpu v).2.2.2.symm.trans hg)
    · intro k k' v v' g hk hk' hv hv' hg hg'
      exact h.distinct k k' v v' g hk hk' hv hv' ((hVcpu v).2.2.2.symm.trans hg) ((hVcpu v').2.2.2.symm.trans hg')

theorem setName_nvcpu {nvcpu : Int} {name : Option String} (h : setName s vm nvcpu name = .ok s') :
    (s'.vms vm).nvcpu = nvcpu := by
  cases name with
  | none => cases h
  | some name =>
    rw [setName] at h
    split at h
    · cases h
      rw [setVm_self]
    · cases h

/-- `create_vm` wires the vcpus it could get and registers the three windows. -/
theorem createVm_staffed {s₀ : Hypervisor} {cfg : VmConfig} (hVm : allocvm s = some (s₀, vm))
    (hRun : createVm s (some cfg) = .ok s') :
    (∃ n : Nat, Staffed vm n s' ∧ n ≤ vcpuMax ∧ (s'.vms vm).nvcpu ≤ n) ∧ (s'.vms vm).nvcpu = cfg.nvcpu ∧
      (s'.vms vm).vgic ≠ none ∧ ∃ gicr gicd virtio, Windows s' vm gicr gicd virtio := by
  obtain ⟨img, hImg⟩ : ∃ img, cfg.guestImg = some img := by
    cases hImg : cfg.guestImg with
    | none =>
      simp only [createVm, hImg] at hRun
      cases hRun
    | some img => exact ⟨img, rfl⟩
  simp only [createVm, hImg, hVm] at hRun
  obtain ⟨s₁, hName, hRest⟩ := bind_eq_ok.mp hRun
  obtain ⟨s₂, hFirst, hRest⟩ := bind_eq_ok.mp hRest
  obtain ⟨s₃, hOthers, hRest⟩ := bind_eq_ok.mp hRest
  split at hRest
  · cases hRest
  obtain ⟨h, _, hRest⟩ := bind_eq_ok.mp hRest
  obtain ⟨s₄, hVirtio, hRest⟩ := bind_eq_ok.mp hRest
  obtain ⟨⟨s₅, v⟩, hVgic, hReady⟩ := bind_eq_ok.mp hRest
  dsimp only at hReady
  obtain ⟨s₆, s₇, _, hVms₆, hMmio₆, _, hVcpus₆, hCpus₆, hGicd, hGicr⟩ := newVgic_steps hVgic
  have hEmpty : Staffed vm 0 s₁ := by
    refine ⟨?_, ?_, ?_⟩
    · intro k v hk
      omega
    · intro k v g hk
      omega
    · intro k k' v v' g hk
      omega
  have hAdds := addVcpu_adds hFirst
  obtain ⟨hStaffed, hBound, hNvcpu⟩ := addVcpusLoop_staffed (hEmpty.add hAdds) hAdds.bound hOthers
  have hNvcpu₃ : (s₃.vms vm).nvcpu = cfg.nvcpu := (hNvcpu.trans hAdds.nvcpu).trans (setName_nvcpu hName)
  have hRoot :
      SameStaff vm s₃ ({ s₃ with host := h }.setVm vm { s₃.vms vm with stage2Pt := s₃.host.allocPage.2 }) := by
    refine ⟨?_, ?_, rfl, rfl⟩
    · rw [setVm_self]
    · rw [setVm_self]
  have hSame₄ : SameStaff vm s₃ s₄ := hRoot.trans (s2PtTrap_sameStaff hVirtio)
  have hSame₆ : SameStaff vm s₄ s₆ := ⟨by rw [hVms₆], by rw [hVms₆], hVcpus₆, hCpus₆⟩
  have hSame₅ : SameStaff vm s₃ s₅ :=
    ((hSame₄.trans hSame₆).trans (s2PtTrap_sameStaff hGicd)).trans (s2PtTrap_sameStaff hGicr)
  have hLast : SameStaff vm s₅ (s₅.setVm vm { s₅.vms vm with vgic := some v }) := by
    refine ⟨?_, ?_, rfl, rfl⟩
    · rw [setVm_self]
    · rw [setVm_self]
  obtain ⟨hStaffed', hVms', hMmio'⟩ := vcpuReady_staffed ((hStaffed.congr hSame₅).congr hLast) hReady
  have hVmEq : s'.vms vm = { s₅.vms vm with vgic := some v } := by
    rw [hVms', setVm_self]
  have hNvcpu' : (s'.vms vm).nvcpu = cfg.nvcpu := by
    rw [hVmEq]
    exact hSame₅.nvcpu.trans hNvcpu₃
  refine ⟨⟨_, hStaffed', hBound, by omega⟩, hNvcpu', ?_, ?_⟩
  · rw [hVmEq]
    exact Option.some_ne_none v
  · obtain ⟨gicr, gicd, virtio, hWindows⟩ := windows_of_traps hVirtio hVms₆ hMmio₆ hGicd hGicr
    refine ⟨gicr, gicd, virtio, ?_, ?_, ?_, ?_⟩
    · rw [hVmEq]
      exact hWindows.head
    · rw [hMmio']
      exact hWindows.gicr
    · rw [hMmio']
      exact hWindows.gicd
    · rw [hMmio']
      exact hWindows.virtio

/-- Where every vcpu of the new VM got its records, the VM is wired. -/
theorem createVm_wired {s₀ : Hypervisor} {cfg : VmConfig} (hVm : allocvm s = some (s₀, vm))
    (hRun : createVm s (some cfg) = .ok s') (hNvcpu : 0 ≤ cfg.nvcpu)
    (hFull : ∀ k : Nat, k < cfg.nvcpu → ∃ v g, (s'.vms vm).vcpus k = some v ∧ (s'.vcpus v).vgic = some g) :
    Wired (wiringOf s' vm) s' := by
  obtain ⟨⟨n, hStaffed, hBound, hLe⟩, hSame, hVgic, _⟩ := createVm_staffed hVm hRun
  rw [← hSame] at hNvcpu hFull
  exact hStaffed.wired hBound hNvcpu hLe hVgic hFull

end

/-- The small VM as `create_vm` leaves it. -/
@[irreducible] def smallVm : Hypervisor :=
  match createVm bootHypervisor (some smallCfg) with
  | .ok s => s
  | .error _ => bootHypervisor

def smallWiring : Wiring := ⟨0, 2, 0, id, id⟩

/-- What the small VM is wired to and its list of windows, read off one run of `create_vm`. -/
theorem smallVm_evaluated :
    ((smallVm.vms 0).nvcpu = 2 ∧ (smallVm.vms 0).vgic = some 0 ∧
      ∀ k, k < 2 → (smallVm.vms 0).vcpus k = some k ∧ (smallVm.vcpus k).vm = some 0 ∧
        (smallVm.vcpus k).cpuid = k ∧
        (smallVm.vcpus k).vgic = some k) ∧
    (smallVm.vms 0).mmioList = some 2 ∧
    smallVm.mmio 2 = ⟨some 1, gicrBase, gicrSize, some .vgicr, some .vgicr⟩ ∧
    smallVm.mmio 1 = ⟨some 0, gicdBase, gicdSize, some .vgicd, some .vgicd⟩ ∧
    smallVm.mmio 0 = ⟨none, virtio0, virtio0Size, some .virtio, some .virtio⟩ := by
  decide +kernel

theorem smallVm_wired : Wired smallWiring smallVm := by
  obtain ⟨⟨hNvcpu, hVgic, hVcpus⟩, _⟩ := smallVm_evaluated
  exact {
    nvcpu := hNvcpu
    nvcpu_le := by decide
    vgic := hVgic
    vcpus := fun k hk => (hVcpus k hk).1
    vm := fun k hk => (hVcpus k hk).2.1
    cpuid := fun k hk => (hVcpus k hk).2.2.1
    vgicCpu := fun k hk => (hVcpus k hk).2.2.2
    distinct := fun _ _ _ _ hEq => hEq }

theorem smallVm_windows : Windows smallVm 0 2 1 0 := by
  obtain ⟨_, hHead, hGicr, hGicd, hVirtio⟩ := smallVm_evaluated
  exact ⟨hHead, hGicr, hGicd, none, hVirtio⟩

/-- The small VM on a machine where no interrupt is enabled and all registers are 0. -/
def smallBoard : Board where
  hv := smallVm
  x := fun _ _ => 0
  gic := ⟨fun _ => false, fun _ _ => false, fun _ => 0, fun _ _ => 0, []⟩
  spiNum := 288
  virtio := ⟨0x50000000, 0, 0, ⟨⟨0, 0⟩, 0, 0, 0, 0, 0, 0, 0⟩, [], []⟩

theorem smallBoard_wired : Wired smallWiring smallBoard.hv := smallVm_wired

theorem smallBoard_hits (handler : Handler) (offset : Nat) (hOffset : offset < (windowOf handler).2) (far hpfar : Nat)
    (hIpa : faultIpa far hpfar = (windowOf handler).1 + offset) :
    Hits smallBoard.hv 0 (faultIpa far hpfar) handler offset := by
  have hIn : InWindow (windowOf handler) (faultIpa far hpfar) := by
    rw [hIpa]
    exact ⟨by omega, by omega⟩
  have hHits := smallVm_windows.hits (smallBoard_wired.vm 0 (by decide)) hIn
  rw [hIpa, Nat.add_sub_cancel_left] at hHits
  rw [hIpa]
  exact hHits

end HyperPoc.Vgic
