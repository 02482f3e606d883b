import HyperPoc.Vm.GuestMap
import HyperPoc.Vm.Trap

/-! # The tables and frames of a created VM

The steps of `create_vm` in order, with the joint record of table pages and frames carried through
them. Nothing is unmapped on the way, since the trapped windows are apart from the RAM.
-/
namespace HyperPoc
open Library.Memory Library.RadixTable Library.Run Stage2
set_option autoImplicit false

/-- Base and size of the windows `create_vm` hands to `s2_pt_trap`. -/
def trapWindows : List (Nat × Nat) := [(virtio0, virtio0Size), (gicdBase, gicdSize), (gicrBase, gicrSize)]

def InWindow (w : Nat × Nat) (ipa : Nat) : Prop := w.1 ≤ ipa ∧ ipa < w.1 + w.2

def InRam (cfg : VmConfig) (img : Guest) (ipa : Nat) : Prop :=
  InWindow (cfg.entrypoint, ramBytes cfg img) ipa

/-- The guest's RAM is page-aligned, below 2^48 and apart from the devices. -/
structure Placed (cfg : VmConfig) (img : Guest) : Prop where
  aligned : cfg.entrypoint % 4096 = 0
  below : cfg.entrypoint + ramBytes cfg img ≤ 2 ^ 48
  apart : ∀ w ∈ (uartBase, pageSize) :: trapWindows, ∀ ipa, InRam cfg img ipa → ¬InWindow w ipa

/-- The pool lies below 2^48 and does not hold the UART page. -/
structure RamPool (a : PageAllocator) : Prop where
  pool : a.Pool
  below : (a.basePfn + a.totalPages) * 4096 ≤ 2 ^ 48
  apart : ∀ k, k < a.totalPages → a.pageAddr k ≠ uartBase

/-- Free region nodes may have been filled with windows of the list, all others are as before. -/
def Registers (ws : List (Nat × Nat)) (s s' : Hypervisor) : Prop :=
  ∀ n, s'.mmio n = s.mmio n ∨ ((s.mmio n).size = 0 ∧ ((s'.mmio n).ipaBase, (s'.mmio n).size) ∈ ws)

theorem Registers.update {ws : List (Nat × Nat)} {s s₁ s₂ : Hypervisor} (h : Registers ws s s₁) {n : Nat}
    {info : MmioInfo Handler} (hFree : (s₁.mmio n).size = 0) (hMem : (info.ipaBase, info.size) ∈ ws)
    (hMmio : s₂.mmio = Function.update s₁.mmio n info) : Registers ws s s₂ := by
  intro k
  rw [hMmio]
  obtain rfl | hk := eq_or_ne k n
  · right
    rw [Function.update_self]
    obtain hSame | ⟨hSize, _⟩ := h k
    · exact ⟨hSame ▸ hFree, hMem⟩
    · exact ⟨hSize, hMem⟩
  · rw [Function.update_of_ne hk]
    exact h k

theorem s2PtTrap_grants {s s' : Hypervisor} {vm ipa size : Nat} {handler : Handler}
    (hTrap : s2PtTrap s vm ipa size handler = .ok s') : s'.host.grants = s.host.grants := by
  obtain ⟨h₁, pte, h₂, n, hWalk, hUnmap, _, rfl⟩ := s2PtTrap_ok hTrap
  have hSame : h₁ = s.host := pagewalkLoop_host hWalk
  subst hSame
  have hGrants : h₂.grants = s.host.grants := by
    split at hUnmap
    · rw [pageunmap] at hUnmap
      split at hUnmap
      · cases hUnmap
      · exact pageunmapLoop_grants hUnmap
    · cases hUnmap
      rfl
  exact hGrants

theorem newVgicWith_steps {take : Take} {Fr : Grant → Prop} (hSpis : take.Gives .spis Fr) {s s' : Hypervisor}
    {vm v : Nat} (h : newVgicWith take s vm = .ok (s', v)) :
    Fr ⟨s.host.mem, s.host.allocPage.2⟩ ∧ ∃ s₁ s₂, s₁.host = s.host.allocPage.1 ∧ s₁.vms = s.vms ∧
      s₁.mmio = s.mmio ∧
      (s₁.vgics v).spis = s.host.allocPage.2 ∧ s₁.vcpus = s.vcpus ∧ s₁.vgicCpus = s.vgicCpus ∧
      s2PtTrap s₁ vm gicdBase gicdSize .vgicd = .ok s₂ ∧ s2PtTrap s₂ vm gicrBase gicrSize .vgicr = .ok s' := by
  rw [newVgicWith] at h
  split at h
  · cases h
  · rename_i s₀ i hAlloc
    obtain ⟨r, hTake, hRest⟩ := bind_eq_ok.mp h
    obtain ⟨rfl, _, hGrant⟩ := hSpis _ r hTake
    obtain ⟨s₂, hGicd, hRest⟩ := bind_eq_ok.mp hRest
    obtain ⟨s₃, hGicr, hLast⟩ := bind_eq_ok.mp hRest
    cases hLast
    rw [vgicAlloc] at hAlloc
    split at hAlloc
    · cases hAlloc
      refine ⟨hGrant, _, s₂, ?_, ?_, ?_, ?_, ?_, ?_, hGicd, hGicr⟩
      · rfl
      · rfl
      · rfl
      · dsimp only
        rw [Function.update_self]
        rfl
      · rfl
      · rfl
    · cases hAlloc

theorem newVgic_steps {s s' : Hypervisor} {vm v : Nat} (h : newVgic s vm = .ok (s', v)) :
    ∃ s₁ s₂, s₁.host = s.host.allocPage.1 ∧ s₁.vms = s.vms ∧ s₁.mmio = s.mmio ∧
      (s₁.vgics v).spis = s.host.allocPage.2 ∧ s₁.vcpus = s.vcpus ∧ s₁.vgicCpus = s.vgicCpus ∧
      s2PtTrap s₁ vm gicdBase gicdSize .vgicd = .ok s₂ ∧ s2PtTrap s₂ vm gicrBase gicrSize .vgicr = .ok s' := by
  rw [← newVgicWith_takePage] at h
  exact (newVgicWith_steps (takePage_gives .spis) h).2

def guestLeaf (cfg : VmConfig) (data : List Nat) (key : Nat) : Option Nat :=
  if key = uartBase / 4096 then some (pageDesc uartBase uartAttr)
  else if cfg.entrypoint / 4096 ≤ key then (data[key - cfg.entrypoint / 4096]?).map fun f => pageDesc f ramAttr
  else none

/-- What `create_vm` leaves behind for VM `i`. -/
structure Created (I : List Nat → Host → (Nat → Nat → Option Nat) → Prop) (cfg : VmConfig) (img : Guest)
    (s s' : Hypervisor) (i : Nat) (data : List Nat) (node : Nat → Nat → Option Nat) : Prop where
  tree : Tree s'.host.mem (s'.vms i).stage2Pt node
  size : data.length * 4096 = ramBytes cfg img
  leaf : ∀ key, leafDesc s'.host.mem node key = guestLeaf cfg data key
  vgic : ∃ v, (s'.vms i).vgic = some v ∧ I ((s'.vgics v).spis :: data.reverse) s'.host node
  registers : Registers trapWindows s s'
  zeroed : ZeroSince s.host s'.host

/-- What is in place after `create_vm`, whatever pages it was given. -/
structure Laid (I : List Nat → Host → (Nat → Nat → Option Nat) → Prop) (cfg : VmConfig) (img : Guest)
    (s s' : Hypervisor) (i : Nat) (data : List Nat) (node : Nat → Nat → Option Nat) : Prop where
  tree : Tree s'.host.mem (s'.vms i).stage2Pt node
  size : data.length * 4096 = ramBytes cfg img
  leaf : ∀ key, leafDesc s'.host.mem node key = guestLeaf cfg data key
  vgic : ∃ v, (s'.vms i).vgic = some v ∧ I ((s'.vgics v).spis :: data.reverse) s'.host node
  registers : Registers trapWindows s s'
  lay : ∃ r, layGuest cfg img s.host.allocator = .ok (data, r)

theorem createVmWith_steps {take : Take} {Ok : Grant → Prop} (hTake : take.Gives .root Ok) {s s₀ s' : Hypervisor}
    {cfg : VmConfig} {img : Guest} {i : Nat} (hImg : cfg.guestImg = some img) (hVm : allocvm s = some (s₀, i))
    (hRun : createVmWith take s (some cfg) = .ok s') :
    s.host.allocPage.2 ≠ 0 ∧ Ok ⟨s.host.mem, s.host.allocPage.2⟩ ∧ ∃ h s₁ s₂ s₃ v,
      mapGuestWith take cfg img s.host.allocPage.2 s.host.allocPage.1 = .ok h ∧
      s2PtTrap s₁ i virtio0 virtio0Size .virtio = .ok s₂ ∧ newVgicWith take s₂ i = .ok (s₃, v) ∧
      s₁.host = h ∧ s₁.mmio = s.mmio ∧ (s₁.vms i).stage2Pt = s.host.allocPage.2 ∧
      s'.host = s₃.host ∧ s'.mmio = s₃.mmio ∧ s'.vgics = s₃.vgics ∧
      (s'.vms i).stage2Pt = (s₃.vms i).stage2Pt ∧ (s'.vms i).vgic = some v := by
  simp only [createVmWith, hImg, hVm] at hRun
  obtain ⟨s₁, hName, hRest⟩ := bind_eq_ok.mp hRun
  obtain ⟨s₂, hFirst, hRest⟩ := bind_eq_ok.mp hRest
  obtain ⟨s₃, hOthers, hRest⟩ := bind_eq_ok.mp hRest
  have hSame : s.SameHost s₃ := (((allocvm_sameHost hVm).trans (setName_sameHost hName)).trans
    (addVcpu_sameHost hFirst)).trans (addVcpusLoop_sameHost hOthers)
  rw [furnishVmWith, hSame.host] at hRest
  obtain ⟨r, hRoot, hRest⟩ := bind_eq_ok.mp hRest
  obtain ⟨rfl, hPos, hGrant⟩ := hTake _ r hRoot
  obtain ⟨h, hMap, hRest⟩ := bind_eq_ok.mp hRest
  obtain ⟨s₄, hVirtio, hRest⟩ := bind_eq_ok.mp hRest
  obtain ⟨⟨s₅, v⟩, hVgic, hReady⟩ := bind_eq_ok.mp hRest
  dsimp only at hReady
  obtain ⟨⟨hHost, hMmio, hVgics⟩, hVms⟩ := vcpuReady_eq hReady
  refine ⟨hPos (by decide), hGrant, h, _, s₄, s₅, v, hMap, hVirtio, hVgic, rfl, hSame.mmio, ?_, hHost, hMmio,
    hVgics, ?_, ?_⟩
  · rw [Hypervisor.setVm]
    dsimp only
    rw [Function.update_self]
    rfl
  · rw [hVms, Hypervisor.setVm]
    dsimp only
    rw [Function.update_self]
  · rw [hVms, Hypervisor.setVm]
    dsimp only
    rw [Function.update_self]

/-- No page of a trapped window is mapped while the RAM and the UART are all there is. -/
theorem trapWindow_unmapped {cfg : VmConfig} {img : Guest} (hPlaced : Placed cfg img) {data : List Nat}
    (hSize : data.length * 4096 = ramBytes cfg img) {w : Nat × Nat} (hw : w ∈ trapWindows) {key : Nat}
    (hKey : InWindow w (key * 4096)) : guestLeaf cfg data key = none := by
  have hAligned := hPlaced.aligned
  have hUart : key ≠ uartBase / 4096 := by
    intro hEq
    have hNone : ∀ w ∈ trapWindows, ¬InWindow w (uartBase / 4096 * 4096) := by
      unfold InWindow
      decide
    rw [hEq] at hKey
    exact hNone w hw hKey
  rw [guestLeaf, if_neg hUart]
  split
  · rename_i hFirst
    have hOut : data.length ≤ key - cfg.entrypoint / 4096 := by
      by_contra hIn
      apply hPlaced.apart w (List.mem_cons_of_mem _ hw) (key * 4096) _ hKey
      rw [InRam, InWindow, ← hSize]
      omega
    rw [List.getElem?_eq_none hOut]
    rfl
  · rfl

theorem s2PtTrap_window {cfg : VmConfig} {img : Guest} (hPlaced : Placed cfg img) {data : List Nat}
    (hSize : data.length * 4096 = ramBytes cfg img) {s s' : Hypervisor} {vm : Nat} {handler : Handler}
    {node : Nat → Nat → Option Nat} {w : Nat × Nat} (hw : w ∈ trapWindows)
    (hTree : Tree s.host.mem (s.vms vm).stage2Pt node)
    (hLeaf : ∀ key, leafDesc s.host.mem node key = guestLeaf cfg data key)
    (hTrap : s2PtTrap s vm w.1 w.2 handler = .ok s') :
    s'.host = s.host ∧ (s'.vms vm).stage2Pt = (s.vms vm).stage2Pt ∧ s'.vgics = s.vgics ∧
      ∀ s₀, Registers trapWindows s₀ s → Registers trapWindows s₀ s' := by
  have hShape : ∀ w ∈ trapWindows, w.1 < 2 ^ 48 ∧ 4096 ≤ w.2 ∧ InWindow w (w.1 / 4096 * 4096) := by
    unfold InWindow
    decide
  obtain ⟨hBase, hPages, hFirst⟩ := hShape w hw
  have hNone : leafDesc s.host.mem node (w.1 / 4096) = none :=
    (hLeaf _).trans (trapWindow_unmapped hPlaced hSize hw hFirst)
  obtain ⟨n, hFree, rfl⟩ := s2PtTrap_spec hTree hBase hNone hPages hTrap
  refine ⟨rfl, ?_, rfl, ?_⟩
  · rw [Hypervisor.setVm]
    dsimp only
    rw [Function.update_self]
  · intro s₀ hRegisters
    exact hRegisters.update hFree hw rfl

section
variable {take : Take} {Ok Fr Seen : Grant → Prop} {Puts : Nat → Mem → Nat → Mem → Prop}
  {I : List Nat → Host → (Nat → Nat → Option Nat) → Prop}

theorem built_root {h : Host} {a₀ : PageAllocator} (hAccount : Account h.allocPage.2 a₀ Ok Fr Seen Puts I)
    (hPool : RamPool a₀) (hStart : I [] h (fun _ _ => none)) (hGrant : Ok ⟨h.mem, h.allocPage.2⟩)
    (hPos : h.allocPage.2 ≠ 0) (first : Nat) :
    Built I h.allocPage.2 first [] h.allocPage.1 (hang (fun _ _ => none) 0 0 h.allocPage.2) := by
  obtain ⟨hNe, hZero, hInv⟩ := hAccount.root h hStart hGrant
  obtain ⟨_, _, hTaken⟩ := (hAccount.owned _ _ _ hStart).allocPage_new hNe
  obtain ⟨hAligned, hTop⟩ := hTaken.bounds hPool.below
  refine ⟨tree_root hZero hAligned (by omega) (by omega), hInv, ?_⟩
  intro key
  rw [leafDesc_eq, hang, if_neg (by omega), List.getElem?_nil, Option.map_none, Option.bind_none, ite_self]

/-- The joint record of tables and frames after `create_vm`, with the pages tested as they were taken. -/
theorem createVmWith_laid {s s₀ s' : Hypervisor} {cfg : VmConfig} {img : Guest} {i : Nat}
    (hAccount : ∀ root, Account root s.host.allocator Ok Fr Seen Puts I) (hTests : take.Tests Ok Fr)
    (hContent : ∀ j m page, page + 4096 ≤ 2 ^ 48 → Puts j m page (frameContent img j m page))
    (hPool : RamPool s.host.allocator) (hStart : I [] s.host (fun _ _ => none)) (hPlaced : Placed cfg img)
    (hImg : cfg.guestImg = some img) (hVm : allocvm s = some (s₀, i))
    (hRun : createVmWith take s (some cfg) = .ok s') :
    Since Seen s.host s'.host ∧ ∃ data node, Laid I cfg img s s' i data node := by
  obtain ⟨hPos, hOkRoot, h, s₁, s₂, s₃, v, hMap, hVirtio, hVgic, hHost₁, hMmio₁, hPt₁, hHost, hMmio,
      hVgics, hPt, hV⟩ :=
    createVmWith_steps hTests.root hImg hVm hRun
  obtain ⟨hOkSpis, s₄, s₅, hHost₄, hVms₄, hMmio₄, hSpis, _, _, hGicd, hGicr⟩ :=
    newVgicWith_steps hTests.spis hVgic
  have hAligned := hPlaced.aligned
  have hAcc := hAccount s.host.allocPage.2
  obtain ⟨hSince, data, node, hSize, hTree, hInv, hLeaf, r, hLay, hUart⟩ :=
    mapGuestWith_spec hAcc hTests hPool.below
      (built_root hAcc hPool hStart hOkRoot hPos (cfg.entrypoint / 4096)) (by omega) hPlaced.below hContent hMap
  rw [← hHost₁] at hTree hInv hLeaf
  rw [← hPt₁] at hTree
  obtain ⟨hHost₂, hPt₂, _, hReg₂⟩ := s2PtTrap_window (w := (virtio0, virtio0Size)) hPlaced hSize (by decide)
    hTree hLeaf hVirtio
  rw [← hHost₂] at hTree hInv hLeaf
  rw [← hPt₂] at hTree
  -- the page of the SPI records comes behind the frames of the RAM, and nothing is loaded into it
  have hCount : data.reverse.length = ramBytes cfg img / 4096 := by
    rw [← hSize, List.length_reverse, Nat.mul_div_cancel _ (by decide)]
  obtain ⟨_, _, hTaken⟩ := (hAcc.owned _ _ _ hInv).allocPage_new (hAcc.granted _ hOkSpis)
  have hSpisContent := hContent data.reverse.length s₂.host.mem _ (hTaken.bounds hPool.below).2
  rw [hCount, frameContent_ramBytes, ← hCount] at hSpisContent
  obtain ⟨hSpisSeen, hInv₄⟩ := hAcc.frame _ _ _ _ hInv hOkSpis hSpisContent
  have hInv₄ : I (s₂.host.allocPage.2 :: data.reverse) s₄.host node := by
    rw [hHost₄]
    exact hInv₄
  have hTree₄ : Tree s₄.host.mem (s₄.vms i).stage2Pt node := by
    rw [hHost₄, hVms₄]
    exact hTree
  have hLeaf₄ : ∀ key, leafDesc s₄.host.mem node key = guestLeaf cfg data key := by
    rw [hHost₄]
    exact hLeaf
  obtain ⟨hHost₅, hPt₅, hVgics₅, hReg₅⟩ := s2PtTrap_window (w := (gicdBase, gicdSize)) hPlaced hSize
    (by decide) hTree₄ hLeaf₄ hGicd
  rw [← hHost₅] at hTree₄ hInv₄ hLeaf₄
  rw [← hPt₅] at hTree₄
  obtain ⟨hHost₃, hPt₃, hVgics₃, hReg₃⟩ := s2PtTrap_window (w := (gicrBase, gicrSize)) hPlaced hSize
    (by decide) hTree₄ hLeaf₄ hGicr
  rw [← hHost₃, ← hHost] at hTree₄ hInv₄ hLeaf₄
  rw [← hPt₃, ← hPt] at hTree₄
  refine ⟨?_, data, node, hTree₄, hSize, hLeaf₄, ⟨v, hV, ?_⟩, ?_, ?_⟩
  · have hSame : s'.host = s₂.host.allocPage.1 := by rw [hHost, hHost₃, hHost₅, hHost₄]
    rw [hSame]
    apply Since.trans _ (.alloc hSpisSeen)
    rw [hHost₂, hHost₁]
    exact (Since.alloc (hAcc.zero _ (hAcc.root _ hStart hOkRoot).2.1)).trans hSince
  · rw [hVgics, hVgics₃, hVgics₅, hSpis]
    exact hInv₄
  · have hFirst : Registers trapWindows s s₁ := fun n => .inl (by rw [hMmio₁])
    have hSecond : Registers trapWindows s s₄ := by
      intro n
      rw [hMmio₄]
      exact hReg₂ s hFirst n
    intro n
    rw [hMmio]
    exact hReg₃ s (hReg₅ s hSecond) n
  · have hPages : data.length = ramBytes cfg img / 4096 := data.length_reverse.symm.trans hCount
    rw [hPages] at hLay
    exact ⟨_, layGuest_eq (hAcc.root _ hStart hOkRoot).1 (layMemory_eq hLay hUart)⟩

end

section
variable {C : Site → Grant → Prop} [∀ site g, Decidable (C site g)] {Ok : Grant → Prop}

theorem newVgic_grants {s s' : Hypervisor} {vm v : Nat} (h : newVgic s vm = .ok (s', v)) :
    s'.host.grants = ⟨s.host.mem, s.host.allocPage.2⟩ :: s.host.grants := by
  obtain ⟨s₁, s₂, hHost, _, _, _, _, _, hGicd, hGicr⟩ := newVgic_steps h
  rw [s2PtTrap_grants hGicr, s2PtTrap_grants hGicd, hHost]
  rfl

theorem newVgicWith_unless (hC : ∀ site g, Ok g → C site g) (s : Hypervisor) (vm : Nat) :
    UnlessRefused Ok (fun r => r.1.host.grants) (newVgic s vm) (newVgicWith (takeIf C) s vm) := by
  rw [← newVgicWith_takePage, newVgicWith, newVgicWith]
  split
  · exact .inl rfl
  · rename_i s₀ i hAlloc
    refine unlessRefused_bind (takeIf_unless hC .spis s₀.host) (fun r => .inl rfl) ?_
    intro r r' hRest
    obtain ⟨s₂, hGicd, hRest⟩ := bind_eq_ok.mp hRest
    obtain ⟨s₃, hGicr, hLast⟩ := bind_eq_ok.mp hRest
    cases hLast
    dsimp only
    rw [s2PtTrap_grants hGicr, s2PtTrap_grants hGicd]
    exact fun g hg => hg

theorem finishVm_grants {s s' : Hypervisor} {vm : Nat} (h : finishVmWith takePage vm s = .ok s') :
    ∀ g, g ∈ s.host.grants → g ∈ s'.host.grants := by
  obtain ⟨s₁, hVirtio, hRest⟩ := bind_eq_ok.mp h
  obtain ⟨⟨s₂, v⟩, hVgic, hReady⟩ := bind_eq_ok.mp hRest
  rw [newVgicWith_takePage] at hVgic
  dsimp only at hReady
  have hHost : s'.host = s₂.host := (vcpuReady_eq hReady).1.host
  rw [hHost, newVgic_grants hVgic, s2PtTrap_grants hVirtio]
  exact fun g hg => List.mem_cons_of_mem _ hg

theorem finishVmWith_unless (hC : ∀ site g, Ok g → C site g) (vm : Nat) (s : Hypervisor) :
    UnlessRefused Ok (fun r => r.host.grants) (finishVmWith takePage vm s) (finishVmWith (takeIf C) vm s) := by
  rw [finishVmWith, finishVmWith]
  refine unlessRefused_same _ fun s₁ => ?_
  rw [newVgicWith_takePage]
  refine unlessRefused_bind (newVgicWith_unless hC s₁ vm) (fun r => .inl rfl) ?_
  intro r s' hReady g hg
  dsimp only at hReady
  have hHost : s'.host = r.1.host := (vcpuReady_eq hReady).1.host
  rw [hHost]
  exact hg

theorem furnishVmWith_unless (hC : ∀ site g, Ok g → C site g) (cfg : VmConfig) (img : Guest) (vm : Nat)
    (s : Hypervisor) :
    UnlessRefused Ok (fun r => r.host.grants) (furnishVmWith takePage cfg img vm s)
      (furnishVmWith (takeIf C) cfg img vm s) := by
  rw [furnishVmWith, furnishVmWith]
  refine unlessRefused_bind (takeIf_unless hC .root s.host) (fun r => ?_) ?_
  · dsimp only
    rw [mapGuestWith_takePage]
    refine unlessRefused_bind (mapGuestWith_unless hC cfg img _ _) (fun h => finishVmWith_unless hC vm _) ?_
    intro h s' hRest
    exact finishVm_grants hRest
  · intro r s' hRest g hg
    obtain ⟨h, hMap, hRest⟩ := bind_eq_ok.mp hRest
    rw [mapGuestWith_takePage] at hMap
    have hGrants := finishVm_grants hRest
    exact hGrants g (mapGuest_grants hMap g hg)

theorem createVmWith_unless (hC : ∀ site g, Ok g → C site g) (s : Hypervisor) (vmcfg : Option VmConfig) :
    UnlessRefused Ok (fun r => r.host.grants) (createVm s vmcfg) (createVmWith (takeIf C) s vmcfg) := by
  rw [← createVmWith_takePage]
  cases vmcfg with
  | none => exact .inl rfl
  | some cfg =>
    rw [createVmWith, createVmWith]
    cases cfg.guestImg with
    | none => exact .inl rfl
    | some img =>
      cases allocvm s with
      | none => exact .inl rfl
      | some r =>
        exact unlessRefused_same _ fun s₁ => unlessRefused_same _ fun s₂ => unlessRefused_same _ fun s₃ =>
          furnishVmWith_unless hC cfg img r.2 s₃

end

theorem createVm_created {Ok : Grant → Prop} {I : List Nat → Host → (Nat → Nat → Option Nat) → Prop}
    {s s₀ s' : Hypervisor} {cfg : VmConfig} {img : Guest} {i : Nat}
    (hLedger : ∀ root, Ledger root s.host.allocator Ok I) (hPool : RamPool s.host.allocator)
    (hStart : I [] s.host (fun _ _ => none)) (hPlaced : Placed cfg img) (hImg : cfg.guestImg = some img)
    (hVm : allocvm s = some (s₀, i)) (hRun : createVm s (some cfg) = .ok s') (hOk : ∀ g ∈ s'.host.grants, Ok g) :
    ∃ data node, Created I cfg img s s' i data node := by
  classical
  have hUnless := createVmWith_unless (C := fun _ g => Ok g) (fun _ _ hOk => hOk) s (some cfg)
  have hStrict := hUnless.eq_ok hRun fun ⟨g, hg, hNot⟩ => hNot (hOk g hg)
  obtain ⟨hSince, data, node, hLaid⟩ := createVmWith_laid (fun root => (hLedger root).account) (takeIf_tests Ok)
    (fun j m page hPage => frameContent_sameOutside img j m hPage) hPool hStart hPlaced hImg hVm hStrict
  exact ⟨data, node, hLaid.tree, hLaid.size, hLaid.leaf, hLaid.vgic, hLaid.registers, hSince⟩

end HyperPoc
