import HyperPoc.Vgic.Setup

/-! # The records a new VM takes

`create_vm` may be called again while other VMs are there. It takes a VM, vcpus and a vgic that nobody
uses, so the records of all other VMs stay as they are.
-/
namespace HyperPoc
open Library.Run Vgic
set_option autoImplicit false

/-- From `s` to `s'` records have been taken for VM `i` that were free or its own. -/
structure Extends (i : Nat) (s s' : Hypervisor) : Prop where
  vms : ∀ j, j ≠ i → s'.vms j = s.vms j
  used : (s.vms i).used = true → (s'.vms i).used = true
  vcpus : ∀ u, s'.vcpus u = s.vcpus u ∨ ((s.vcpus u).state = .unused ∨ (s.vcpus u).vm = some i) ∧
    (s'.vcpus u).vm = some i ∧ (s'.vcpus u).state ≠ .unused
  entries : ∀ k u, (s'.vms i).vcpus k = some u → (s.vms i).vcpus k = some u ∨
    (s'.vcpus u).vm = some i ∧ (s'.vcpus u).state ≠ .unused
  vgics : ∀ g, (s.vgics g).used = true → s'.vgics g = s.vgics g

section
variable {i : Nat} {s s₁ s₂ : Hypervisor}

theorem Extends.trans (h : Extends i s s₁) (h' : Extends i s₁ s₂) : Extends i s s₂ where
  vms := fun j hj => (h'.vms j hj).trans (h.vms j hj)
  used := fun hUsed => h'.used (h.used hUsed)
  vcpus := by
    intro u
    obtain hSame | ⟨hFree, hVm, hState⟩ := h.vcpus u
    · obtain hSame' | hNew := h'.vcpus u
      · exact .inl (hSame'.trans hSame)
      · rw [hSame] at hNew
        exact .inr hNew
    · obtain hSame' | ⟨_, hNew⟩ := h'.vcpus u
      · rw [hSame']
        exact .inr ⟨hFree, hVm, hState⟩
      · exact .inr ⟨hFree, hNew⟩
  entries := by
    intro k u hu
    obtain hOld | hNew := h'.entries k u hu
    · obtain hOlder | hNew := h.entries k u hOld
      · exact .inl hOlder
      · obtain hSame | ⟨_, hNew⟩ := h'.vcpus u
        · rw [hSame]
          exact .inr hNew
        · exact .inr hNew
    · exact .inr hNew
  vgics := by
    intro g hg
    have hSame := h.vgics g hg
    rw [h'.vgics g (by rw [hSame]; exact hg), hSame]

theorem extends_same (hVms : s₁.vms = s.vms) (hVcpus : s₁.vcpus = s.vcpus) (hVgics : s₁.vgics = s.vgics) :
    Extends i s s₁ where
  vms := fun j _ => by rw [hVms]
  used := fun hUsed => by rwa [hVms]
  vcpus := fun u => .inl (by rw [hVcpus])
  entries := fun k u hu => .inl (by rwa [hVms] at hu)
  vgics := fun g _ => by rw [hVgics]

theorem extends_vm {vm : Vm} (hVms : s₁.vms = Function.update s.vms i vm) (hVcpus : s₁.vcpus = s.vcpus)
    (hVgics : s₁.vgics = s.vgics) (hEntries : vm.vcpus = (s.vms i).vcpus)
    (hUsed : (s.vms i).used = true → vm.used = true) :
    Extends i s s₁ where
  vms := by
    intro j hj
    rw [hVms, Function.update_of_ne hj]
  used := by
    rw [hVms, Function.update_self]
    exact hUsed
  vcpus := fun u => .inl (by rw [hVcpus])
  entries := by
    intro k u hu
    rw [hVms, Function.update_self, hEntries] at hu
    exact .inl hu
  vgics := fun g _ => by rw [hVgics]

theorem setName_extends {nvcpu : Int} {name : Option String} (h : setName s i nvcpu name = .ok s₁) :
    Extends i s s₁ := by
  cases name with
  | none => cases h
  | some name =>
    rw [setName] at h
    split at h
    · cases h
      exact extends_vm rfl rfl rfl rfl id
    · cases h

theorem newVcpu_vgics (s : Hypervisor) (vm vcpuid entrypoint : Nat) :
    (newVcpu s vm vcpuid entrypoint).1.vgics = s.vgics := by
  rw [newVcpu, vcpuAlloc]
  cases firstFree (fun i => (s.vcpus i).state == .unused) vcpuMax with
  | none => rfl
  | some k =>
    dsimp only
    rw [newVgicCpu, vgicCpuAlloc]
    cases firstFree (fun i => !(s.vgicCpus i).used) vcpuMax with
    | none => rfl
    | some g => rfl

theorem addVcpu_extends {n entrypoint : Nat} (hAdd : addVcpu s i n entrypoint = .ok s₁) : Extends i s s₁ := by
  have hVgics := newVcpu_vgics s i n entrypoint
  rw [addVcpu] at hAdd
  split at hAdd
  rename_i s₂ vcpu hNew
  rw [hNew] at hVgics
  split at hAdd
  swap
  · cases hAdd
  cases hAdd
  obtain hNone | ⟨s₃, k, hSome, hVms, hUnused, hOthers, hState, hVm, _⟩ := newVcpu_spec s i n entrypoint
  · cases hNew.symm.trans hNone
    refine ⟨fun j hj => Function.update_of_ne hj _ _, ?_, fun u => .inl rfl, ?_, fun g _ => rfl⟩
    · rw [setVm_self]
      exact id
    · intro k u hu
      rw [setVm_self] at hu
      dsimp only at hu
      obtain rfl | hk := eq_or_ne k n
      · rw [Function.update_self] at hu
        cases hu
      · rw [Function.update_of_ne hk] at hu
        exact .inl hu
  · cases hNew.symm.trans hSome
    refine ⟨?_, ?_, ?_, ?_, fun g _ => congrFun hVgics g⟩
    · intro j hj
      exact (Function.update_of_ne hj _ _).trans (congrFun hVms j)
    · rw [setVm_self, hVms]
      exact id
    · intro u
      obtain rfl | hNe := eq_or_ne u k
      · exact .inr ⟨.inl hUnused, hVm, hState⟩
      · exact .inl (hOthers u hNe)
    · intro k' u hu
      rw [setVm_self] at hu
      dsimp only at hu
      obtain rfl | hk := eq_or_ne k' n
      · rw [Function.update_self] at hu
        cases hu
        exact .inr ⟨hVm, hState⟩
      · rw [Function.update_of_ne hk, hVms] at hu
        exact .inl hu

theorem addVcpusLoop_extends {n k : Nat} (hLoop : addVcpusLoop i n k s = .ok s₁) : Extends i s s₁ := by
  induction n generalizing s k with
  | zero =>
    cases hLoop
    exact extends_same rfl rfl rfl
  | succ n ih =>
    obtain ⟨s₂, hAdd, hRest⟩ := bind_eq_ok.mp hLoop
    exact (addVcpu_extends hAdd).trans (ih hRest)

theorem s2PtTrap_extends {ipa size : Nat} {handler : Handler} (hTrap : s2PtTrap s i ipa size handler = .ok s₁) :
    Extends i s s₁ := by
  obtain ⟨h₁, pte, h₂, n, _, _, _, rfl⟩ := s2PtTrap_ok hTrap
  exact extends_vm rfl rfl rfl rfl id

theorem newVgic_extends {g : Nat} (h : newVgic s i = .ok (s₁, g)) :
    Extends i s s₁ ∧ (s₁.vgics g).used = true := by
  rw [newVgic] at h
  split at h
  · cases h
  rename_i s₂ g' hAlloc
  obtain ⟨s₃, hGicd, hRest⟩ := bind_eq_ok.mp h
  obtain ⟨s₄, hGicr, hLast⟩ := bind_eq_ok.mp hRest
  cases hLast
  rw [vgicAlloc] at hAlloc
  split at hAlloc
  swap
  · cases hAlloc
  rename_i hFree
  cases hAlloc
  have hUnused : (s.vgics g).used = false := by simpa using List.find?_some hFree
  have hVgics : s₁.vgics = _ := (s2PtTrap_registers hGicr).choose_spec.2.2.2.2.1.trans
    (s2PtTrap_registers hGicd).choose_spec.2.2.2.2.1
  refine ⟨Extends.trans ?_ ((s2PtTrap_extends hGicd).trans (s2PtTrap_extends hGicr)), ?_⟩
  · refine ⟨fun _ _ => rfl, id, fun _ => .inl rfl, fun _ _ hu => .inl hu, ?_⟩
    intro g' hg'
    have hNe : g' ≠ g := by
      rintro rfl
      rw [hUnused] at hg'
      cases hg'
    dsimp only
    rw [Function.update_of_ne hNe, Function.update_of_ne hNe]
  · rw [hVgics]
    dsimp only
    rw [Function.update_self, Function.update_self]

theorem vcpuReady_extends {u : Nat} (hVm : (s.vcpus u).vm = some i) (h : vcpuReady s (some u) = .ok s₁) :
    Extends i s s₁ := by
  cases h
  refine ⟨fun _ _ => rfl, id, ?_, fun _ _ hu => .inl hu, fun _ _ => rfl⟩
  intro u'
  obtain rfl | hNe := eq_or_ne u' u
  · right
    dsimp only
    rw [Function.update_self]
    exact ⟨.inr hVm, hVm, nofun⟩
  · exact .inl (Function.update_of_ne hNe _ _)

end

theorem vcpuReady_same {s s' : Hypervisor} {u : Nat} (h : vcpuReady s (some u) = .ok s') :
    s'.vms = s.vms ∧ s'.vgics = s.vgics := by
  cases h
  exact ⟨rfl, rfl⟩

theorem allocvm_taken {s s₀ : Hypervisor} {i : Nat} (hVm : allocvm s = some (s₀, i)) :
    s₀ = s.setVm i { s.vms i with used := true } := by
  rw [allocvm] at hVm
  split at hVm
  · cases hVm
    rfl
  · cases hVm

/-- The steps of `create_vm` on the records. -/
structure Creation (cfg : VmConfig) (i : Nat) (s₀ s' : Hypervisor) where
  name : Option String
  named : Hypervisor
  first : Hypervisor
  others : Hypervisor
  host : Host
  virtio : Hypervisor
  vgic : Hypervisor
  g : Nat
  vcpu : Nat
  hName : setName s₀ i cfg.nvcpu name = .ok named
  hFirst : addVcpu named i 0 cfg.entrypoint = .ok first
  hOthers : addVcpusLoop i (cfg.nvcpu - 1).toNat 1 first = .ok others
  hVirtio :
    virtioMmioInit ({ others with host := host }.setVm i { others.vms i with stage2Pt := others.host.allocPage.2 })
    i = .ok virtio
  hVgic : newVgic virtio i = .ok (vgic, g)
  hVcpu : (vgic.vms i).vcpus 0 = some vcpu
  hReady : vcpuReady (vgic.setVm i { vgic.vms i with vgic := some g }) (some vcpu) = .ok s'

theorem createVm_creation {s s₀ s' : Hypervisor} {cfg : VmConfig} {i : Nat} (hVm : allocvm s = some (s₀, i))
    (hRun : createVm s (some cfg) = .ok s') : Nonempty (Creation cfg i s₀ s') := by
  obtain ⟨img, hImg⟩ : ∃ img, cfg.guestImg = some img := by
    cases hImg : cfg.guestImg with
    | none =>
      simp only [createVm, hImg] at hRun
      cases hRun
    | some img => exact ⟨img, rfl⟩
  simp only [createVm, hImg, hVm] at hRun
  obtain ⟨s₁, hName, hRest⟩ := bind_eq_ok.mp hRun
  obtain ⟨s₂, hFirst, hRest⟩ := bind_eq_ok.mp hRest
  obtain ⟨s₃, hOthers, hRest⟩ := bind_eq_ok.mp hRest
  split at hRest
  · cases hRest
  obtain ⟨h, _, hRest⟩ := bind_eq_ok.mp hRest
  obtain ⟨s₄, hVirtio, hRest⟩ := bind_eq_ok.mp hRest
  obtain ⟨⟨s₅, g⟩, hVgic, hReady⟩ := bind_eq_ok.mp hRest
  dsimp only at hReady
  rw [setVm_self] at hReady
  dsimp only at hReady
  cases hVcpu : (s₅.vms i).vcpus 0 with
  | none =>
    rw [hVcpu] at hReady
    cases hReady
  | some u =>
    rw [hVcpu] at hReady
    exact ⟨⟨img.name, s₁, s₂, s₃, h, s₄, s₅, g, u, hName, hFirst, hOthers, hVirtio, hVgic, hVcpu,
      hReady⟩⟩

section
variable {s s₀ s' : Hypervisor} {cfg : VmConfig} {i : Nat}

theorem Creation.extends (c : Creation cfg i s₀ s') : Extends i s₀ c.vgic ∧ (c.vgic.vgics c.g).used = true := by
  obtain ⟨hVgic, hUsed⟩ := newVgic_extends c.hVgic
  have hRoot : Extends i c.others ({ c.others with host := c.host }.setVm i
      { c.others.vms i with stage2Pt := c.others.host.allocPage.2 }) := extends_vm rfl rfl rfl rfl id
  have hVirtio := hRoot.trans (s2PtTrap_extends c.hVirtio)
  have hOthers := (addVcpu_extends c.hFirst).trans (addVcpusLoop_extends c.hOthers)
  exact ⟨(setName_extends c.hName).trans (hOthers.trans (hVirtio.trans hVgic)), hUsed⟩

/-- What `create_vm` takes for its VM was free before, if no vcpu is entered in a VM that is free. -/
theorem createVm_extends (hVm : allocvm s = some (s₀, i)) (hBlank : (s.vms i).vcpus 0 = none)
    (hRun : createVm s (some cfg) = .ok s') :
    Extends i s s' ∧ (s'.vms i).used = true ∧ ∃ g, (s'.vms i).vgic = some g ∧ (s'.vgics g).used = true := by
  obtain ⟨c⟩ := createVm_creation hVm hRun
  obtain ⟨hCreated, hUsedVgic⟩ := c.extends
  have hTaken := allocvm_taken hVm
  have hAlloc : Extends i s s₀ := by
    rw [hTaken]
    exact extends_vm rfl rfl rfl rfl fun _ => rfl
  have hUsed : (s₀.vms i).used = true := by
    rw [hTaken, setVm_self]
  have hEntered : Extends i c.vgic (c.vgic.setVm i { c.vgic.vms i with vgic := some c.g }) :=
    extends_vm rfl rfl rfl rfl id
  have hAll := hAlloc.trans (hCreated.trans hEntered)
  have hVcpu : ((c.vgic.setVm i { c.vgic.vms i with vgic := some c.g }).vms i).vcpus 0 = some c.vcpu := by
    rw [setVm_self]
    exact c.hVcpu
  obtain hOld | hNew := hAll.entries 0 c.vcpu hVcpu
  · rw [hBlank] at hOld
    cases hOld
  have hLast := vcpuReady_extends hNew.1 c.hReady
  refine ⟨hAll.trans hLast, hLast.used (hEntered.used (hCreated.used hUsed)), c.g, ?_⟩
  obtain ⟨hVms, hVgics⟩ := vcpuReady_same c.hReady
  rw [hVms, hVgics, setVm_self]
  exact ⟨rfl, hUsedVgic⟩

end

end HyperPoc
