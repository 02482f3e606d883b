import HyperPoc.Stage2.Map
import HyperPoc.Vm.Create

/-! # Steps of `create_vm` outside the guest's RAM

Setting up names and vcpus touches neither host memory nor the regions. Trapping a window that is
not mapped leaves the tables alone: where a level 3 table covers the window already, the entry found
there is 0 and `pageunmap` panics.
-/
namespace HyperPoc
open Library.Memory Library.RadixTable Library.Run Stage2
set_option autoImplicit false

structure Hypervisor.SameHost (s s' : Hypervisor) : Prop where
  host : s'.host = s.host
  mmio : s'.mmio = s.mmio
  vgics : s'.vgics = s.vgics

theorem Hypervisor.SameHost.trans {s s' s'' : Hypervisor} (h : s.SameHost s') (h' : s'.SameHost s'') :
    s.SameHost s'' :=
  ⟨h'.host.trans h.host, h'.mmio.trans h.mmio, h'.vgics.trans h.vgics⟩

theorem allocvm_sameHost {s s' : Hypervisor} {i : Nat} (h : allocvm s = some (s', i)) : s.SameHost s' := by
  rw [allocvm] at h
  split at h
  · cases h
    exact ⟨rfl, rfl, rfl⟩
  · cases h

theorem setName_sameHost {s s' : Hypervisor} {vm : Nat} {nvcpu : Int} {name : Option String}
    (h : setName s vm nvcpu name = .ok s') : s.SameHost s' := by
  cases name with
  | none => cases h
  | some name =>
    rw [setName] at h
    split at h
    · cases h
      exact ⟨rfl, rfl, rfl⟩
    · cases h

theorem newVgicCpu_sameHost (s : Hypervisor) (vcpuid : Nat) : s.SameHost (newVgicCpu s vcpuid).1 := by
  rw [newVgicCpu, vgicCpuAlloc]
  cases firstFree (fun i => !(s.vgicCpus i).used) vcpuMax with
  | none => exact ⟨rfl, rfl, rfl⟩
  | some i => exact ⟨rfl, rfl, rfl⟩

theorem newVcpu_sameHost (s : Hypervisor) (vm vcpuid entrypoint : Nat) :
    s.SameHost (newVcpu s vm vcpuid entrypoint).1 := by
  rw [newVcpu, vcpuAlloc]
  cases firstFree (fun i => (s.vcpus i).state == .unused) vcpuMax with
  | none => exact ⟨rfl, rfl, rfl⟩
  | some i =>
    obtain ⟨hHost, hMmio, hVgics⟩ := newVgicCpu_sameHost
      { s with vcpus := Function.update s.vcpus i { s.vcpus i with state := .created } } vcpuid
    exact ⟨hHost, hMmio, hVgics⟩

theorem addVcpu_sameHost {s s' : Hypervisor} {vm i entrypoint : Nat} (h : addVcpu s vm i entrypoint = .ok s') :
    s.SameHost s' := by
  obtain ⟨hHost, hMmio, hVgics⟩ := newVcpu_sameHost s vm i entrypoint
  rw [addVcpu] at h
  dsimp only at h
  split at h
  · cases h
    exact ⟨hHost, hMmio, hVgics⟩
  · cases h

theorem addVcpusLoop_sameHost {s s' : Hypervisor} {vm n i : Nat} (h : addVcpusLoop vm n i s = .ok s') :
    s.SameHost s' := by
  induction n generalizing s i with
  | zero =>
    cases h
    exact ⟨rfl, rfl, rfl⟩
  | succ n ih =>
    obtain ⟨s₁, hAdd, hRest⟩ := bind_eq_ok.mp h
    exact (addVcpu_sameHost hAdd).trans (ih hRest)

theorem vcpuReady_eq {s s' : Hypervisor} {vcpu : Option Nat} (h : vcpuReady s vcpu = .ok s') :
    s.SameHost s' ∧ s'.vms = s.vms := by
  cases vcpu with
  | none => cases h
  | some i =>
    cases h
    exact ⟨⟨rfl, rfl, rfl⟩, rfl⟩

/-- `pageunmap` does not return from a page that is not mapped. -/
theorem pageunmap_unmapped {h h' : Host} {root va size : Nat} {node : Nat → Nat → Option Nat}
    (hTree : Tree h.mem root node) (hVa : va < 2 ^ 48) (hLeaf : leafDesc h.mem node (va / 4096) = none)
    (hSize : 4096 ≤ size) (hEntry : entryAddr node (pageKey va) ≠ 0) : pageunmap h root va size ≠ .ok h' := by
  intro hUnmap
  rw [pageunmap] at hUnmap
  split at hUnmap
  · cases hUnmap
  · obtain ⟨n, hn⟩ : ∃ n, size / pageSize = n + 1 := Nat.exists_eq_succ_of_ne_zero (by rw [pageSize]; omega)
    rw [hn] at hUnmap
    obtain ⟨⟨h₁, pte⟩, hWalk, hRest⟩ := bind_eq_ok.mp hUnmap
    rw [hTree.pagewalk_read va] at hWalk
    cases hWalk
    obtain ⟨t, ht, hPte⟩ := entryAddr_ne_zero hEntry
    have hZero : load h.mem (entryAddr node (pageKey va)) 8 = 0 := by
      rw [hPte]
      exact hTree.unmapped_entry ht (pageKey_of_lt hVa ▸ hLeaf)
    dsimp only at hRest
    rw [if_neg hEntry, if_pos hZero] at hRest
    cases hRest

/-- The parts of a call that returns: a walk, maybe an unmapping, and one region in front of the list. -/
theorem s2PtTrap_ok {s s' : Hypervisor} {vm ipa size : Nat} {handler : Handler}
    (hTrap : s2PtTrap s vm ipa size handler = .ok s') :
    ∃ h₁ pte h₂ n, pagewalk s.host (s.vms vm).stage2Pt ipa false = .ok (h₁, pte) ∧
      (if pte ≠ 0 then pageunmap h₁ (s.vms vm).stage2Pt ipa size else .ok h₁) = .ok h₂ ∧
      (s.mmio n).size = 0 ∧
      s' = { s with
        host := h₂
        mmio := Function.update s.mmio n ⟨(s.vms vm).mmioList, ipa, size, some handler, some handler⟩ }.setVm
          vm { s.vms vm with mmioList := some n } := by
  obtain ⟨⟨h₁, pte⟩, hWalk, hRest⟩ := bind_eq_ok.mp hTrap
  obtain ⟨h₂, hUnmap, hReg⟩ := bind_eq_ok.mp hRest
  cases hCall : mmioRegHandler s.mmio (s.vms vm).mmioList ipa size (some handler) (some handler) with
  | mk regions ret =>
    obtain ⟨mmio, mmioList⟩ := regions
    rw [hCall] at hReg
    dsimp only at hReg
    split at hReg
    · cases hReg
    · rename_i hRet
      obtain ⟨n, hFree, rfl, rfl⟩ := mmioRegHandler_ok hRet hCall
      cases hReg
      exact ⟨h₁, pte, h₂, n, hWalk, hUnmap, hFree, rfl⟩

theorem s2PtTrap_spec {s s' : Hypervisor} {vm ipa size : Nat} {handler : Handler}
    {node : Nat → Nat → Option Nat} (hTree : Tree s.host.mem (s.vms vm).stage2Pt node) (hIpa : ipa < 2 ^ 48)
    (hLeaf : leafDesc s.host.mem node (ipa / 4096) = none) (hSize : 4096 ≤ size)
    (hTrap : s2PtTrap s vm ipa size handler = .ok s') :
    ∃ n, (s.mmio n).size = 0 ∧ s' =
      { s with mmio := Function.update s.mmio n ⟨(s.vms vm).mmioList, ipa, size, some handler, some handler⟩ }.setVm
        vm { s.vms vm with mmioList := some n } := by
  obtain ⟨h₁, pte, h₂, n, hWalk, hUnmap, hFree, hEnd⟩ := s2PtTrap_ok hTrap
  rw [hTree.pagewalk_read ipa] at hWalk
  cases hWalk
  have hHost : h₂ = s.host := by
    split at hUnmap
    · rename_i hEntry
      exact False.elim (pageunmap_unmapped hTree hIpa hLeaf hSize hEntry hUnmap)
    · cases hUnmap
      rfl
  subst hHost
  exact ⟨n, hFree, hEnd⟩

end HyperPoc
