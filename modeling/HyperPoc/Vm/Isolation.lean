import Mathlib.Data.List.Nodup
import HyperPoc.Vm.Created

/-! # Isolation of a created VM

From the joint record of tables and frames: what the guest reaches through its stage-2 tables is its
RAM, frame by frame its own, and the UART.
-/
namespace HyperPoc
open Library.Memory Library.RadixTable Library.Run Stage2
set_option autoImplicit false

/-- What the guest of VM `i` reaches through its stage-2 tables. -/
structure Isolated (cfg : VmConfig) (img : Guest) (s s' : Hypervisor) (i : Nat) : Prop where
  translates : ∀ ipa, (archWalk s'.host.mem (s'.vms i).stage2Pt ipa).isSome ↔
    InRam cfg img ipa ∨ InWindow (uartBase, pageSize) ipa
  distinct : ∀ ipa ipa' t t', InRam cfg img ipa → InRam cfg img ipa' →
    archWalk s'.host.mem (s'.vms i).stage2Pt ipa = some t →
    archWalk s'.host.mem (s'.vms i).stage2Pt ipa' = some t' → t.pa / 4096 = t'.pa / 4096 → ipa / 4096 = ipa' / 4096
  tables : ∀ ipa t l, archWalk s'.host.mem (s'.vms i).stage2Pt ipa = some t →
    ¬Table shape (descriptor s'.host.mem) (s'.vms i).stage2Pt l (t.pa / 4096 * 4096)
  spis : ∀ ipa t v, archWalk s'.host.mem (s'.vms i).stage2Pt ipa = some t → (s'.vms i).vgic = some v →
    t.pa / 4096 * 4096 ≠ (s'.vgics v).spis
  fresh : ∀ ipa t k, archWalk s'.host.mem (s'.vms i).stage2Pt ipa = some t → k < s.host.allocator.totalPages →
    s.host.allocator.InUse k → t.pa / 4096 * 4096 ≠ s.host.allocator.pageAddr k
  trapped : ∀ n ipa, (s.mmio n).size = 0 → (s'.mmio n).size ≠ 0 →
    InWindow ((s'.mmio n).ipaBase, (s'.mmio n).size) ipa → archWalk s'.host.mem (s'.vms i).stage2Pt ipa = none

section
variable {cfg : VmConfig} {img : Guest} {s s' : Hypervisor} {i : Nat} {data : List Nat}
  {node : Nat → Nat → Option Nat}

theorem Created.taken (h : Created (Owned s.host.allocator) cfg img s s' i data node) {f : Nat} (hf : f ∈ data) :
    Taken s.host.allocator s'.host.allocator f := by
  obtain ⟨v, _, hOwned⟩ := h.vgic
  exact hOwned.taken f (List.mem_cons_of_mem _ (List.mem_reverse.mpr hf))

theorem pageDesc_frame {pa attr ipa : Nat} (hAttr : attr < 4096) (hAligned : pa % 4096 = 0) (hLt : pa < 2 ^ 48) :
    (outputAddress (pageDesc pa attr) + ipa % 4096) / 4096 * 4096 = pa := by
  rw [pageDesc, pageDesc_output pa attr hAttr hAligned hLt]
  omega

theorem Created.walk (h : Created (Owned s.host.allocator) cfg img s s' i data node)
    (hPool : RamPool s.host.allocator) {ipa : Nat} {t : Translation}
    (hWalk : archWalk s'.host.mem (s'.vms i).stage2Pt ipa = some t) :
    (∃ j f, data[j]? = some f ∧ ipa / 4096 = cfg.entrypoint / 4096 + j ∧ t.pa / 4096 * 4096 = f) ∨
    (ipa / 4096 = uartBase / 4096 ∧ t.pa / 4096 * 4096 = uartBase) := by
  have hIpa := lt_of_archWalk hWalk
  rw [h.tree.archWalk_eq ipa hIpa, h.leaf, guestLeaf] at hWalk
  split at hWalk
  · rename_i hUart
    cases hWalk
    exact .inr ⟨hUart, pageDesc_frame (by decide) (by decide) (by decide)⟩
  · split at hWalk
    · rename_i hFirst
      cases hFrame : data[ipa / 4096 - cfg.entrypoint / 4096]? with
      | none =>
        rw [hFrame] at hWalk
        cases hWalk
      | some f =>
        rw [hFrame] at hWalk
        cases hWalk
        obtain ⟨k, hFree, _, rfl⟩ := h.taken (List.mem_of_getElem? hFrame)
        have hk : k < s.host.allocator.totalPages := hFree.1
        have hBelow := hPool.below
        refine .inl ⟨_, _, hFrame, by omega, pageDesc_frame (by decide) ?_ ?_⟩
        · rw [PageAllocator.pageAddr]
          omega
        · rw [PageAllocator.pageAddr]
          omega
    · cases hWalk

theorem Created.frame (h : Created (Owned s.host.allocator) cfg img s s' i data node)
    (hPool : RamPool s.host.allocator) {ipa : Nat} {t : Translation}
    (hWalk : archWalk s'.host.mem (s'.vms i).stage2Pt ipa = some t) :
    t.pa / 4096 * 4096 ∈ data ∨ t.pa / 4096 * 4096 = uartBase := by
  obtain ⟨j, f, hFrame, _, hPa⟩ | ⟨_, hPa⟩ := h.walk hPool hWalk
  · exact .inl (hPa ▸ List.mem_of_getElem? hFrame)
  · exact .inr hPa

theorem Stage2.Taken.ne_uart {a₀ a : PageAllocator} (hPool : RamPool a₀) {page : Nat} (h : Taken a₀ a page) :
    page ≠ uartBase := by
  obtain ⟨k, hFree, _, rfl⟩ := h
  exact hPool.apart k hFree.1

theorem Created.translates (h : Created (Owned s.host.allocator) cfg img s s' i data node) (hPlaced : Placed cfg img)
    (ipa : Nat) : (archWalk s'.host.mem (s'.vms i).stage2Pt ipa).isSome ↔
      InRam cfg img ipa ∨ InWindow (uartBase, pageSize) ipa := by
  have hAligned := hPlaced.aligned
  have hBelow := hPlaced.below
  have hUart : InWindow (uartBase, pageSize) ipa ↔ ipa / 4096 = uartBase / 4096 := by
    simp only [InWindow, uartBase, pageSize]
    omega
  have hRam : InRam cfg img ipa ↔
      cfg.entrypoint / 4096 ≤ ipa / 4096 ∧ ipa / 4096 - cfg.entrypoint / 4096 < data.length := by
    rw [InRam, InWindow, ← h.size]
    omega
  by_cases hIpa : ipa < 2 ^ 48
  · rw [h.tree.archWalk_eq ipa hIpa, h.leaf, guestLeaf, Option.isSome_map, hUart, hRam]
    split
    · rename_i hKey
      simp [hKey]
    · rename_i hKey
      split
      · rename_i hFirst
        simp [hKey, hFirst]
      · rename_i hFirst
        simp [hKey, hFirst]
  · rw [archWalk, if_neg hIpa, hUart, InRam, InWindow]
    simp only [Option.isSome_none, Bool.false_eq_true, false_iff, uartBase]
    omega

theorem Created.trapped (h : Created (Owned s.host.allocator) cfg img s s' i data node) (hPlaced : Placed cfg img)
    {w : Nat × Nat} (hw : w ∈ trapWindows) {ipa : Nat} (hIn : InWindow w ipa) :
    archWalk s'.host.mem (s'.vms i).stage2Pt ipa = none := by
  have hShape : ∀ w ∈ trapWindows, w.1 % 4096 = 0 ∧ w.1 + w.2 ≤ 2 ^ 48 := by decide
  obtain ⟨hBase, hEnd⟩ := hShape w hw
  obtain ⟨hLow, hHigh⟩ := hIn
  have hKey : InWindow w (ipa / 4096 * 4096) := ⟨by omega, by omega⟩
  rw [h.tree.archWalk_eq ipa (by omega), h.leaf, trapWindow_unmapped hPlaced h.size hw hKey, Option.map_none]

theorem Created.isolated (h : Created (Owned s.host.allocator) cfg img s s' i data node) (hPlaced : Placed cfg img)
    (hPool : RamPool s.host.allocator) : Isolated cfg img s s' i := by
  obtain ⟨v, hV, hOwned⟩ := h.vgic
  have hNodup := hOwned.nodup
  rw [List.nodup_cons, List.nodup_reverse] at hNodup
  refine ⟨h.translates hPlaced, ?_, ?_, ?_, ?_, ?_⟩
  · intro ipa ipa' t t' hRam hRam' hWalk hWalk' hEq
    have hNot : ∀ ipa, InRam cfg img ipa → ipa / 4096 ≠ uartBase / 4096 := by
      intro ipa hIn hUart
      apply hPlaced.apart _ List.mem_cons_self ipa hIn
      rw [uartBase] at hUart
      rw [InWindow, uartBase, pageSize]
      omega
    obtain ⟨j, f, hFrame, hKey, hPa⟩ | ⟨hUart, _⟩ := h.walk hPool hWalk
    · obtain ⟨j', f', hFrame', hKey', hPa'⟩ | ⟨hUart, _⟩ := h.walk hPool hWalk'
      · have hSame : f = f' := by rw [← hPa, ← hPa', hEq]
        have hIndex : j = j' := by
          apply (List.getElem?_inj (List.getElem?_eq_some_iff.mp hFrame).1 hNodup.2).mp
          rw [hFrame, hFrame', hSame]
        rw [hKey, hKey', hIndex]
      · exact False.elim (hNot ipa' hRam' hUart)
    · exact False.elim (hNot ipa hRam hUart)
  · intro ipa t l hWalk hTable
    obtain ⟨p, hNode⟩ := h.tree.rep.node_of_table hTable
    obtain ⟨hTaken, hNotFrame⟩ := hOwned.tables l p _ hNode
    obtain hData | hUart := h.frame hPool hWalk
    · exact hNotFrame (List.mem_cons_of_mem _ (List.mem_reverse.mpr hData))
    · exact hTaken.ne_uart hPool hUart
  · intro ipa t v' hWalk hV' hEq
    rw [hV] at hV'
    cases hV'
    obtain hData | hUart := h.frame hPool hWalk
    · rw [hEq] at hData
      exact hNodup.1 (List.mem_reverse.mpr hData)
    · rw [hEq] at hUart
      exact (hOwned.taken _ List.mem_cons_self).ne_uart hPool hUart
  · intro ipa t k hWalk hk hUsed hEq
    obtain hData | hUart := h.frame hPool hWalk
    · obtain ⟨j, hFree, _, hAddr⟩ := h.taken hData
      rw [hEq] at hAddr
      rw [PageAllocator.pageAddr_inj _ hAddr, PageAllocator.InUse, hFree.2] at hUsed
      cases hUsed
    · exact hPool.apart k hk (hEq.symm.trans hUart)
  · intro n ipa hFree hUsed hIn
    obtain hSame | ⟨_, hWindow⟩ := h.registers n
    · rw [hSame, hFree] at hUsed
      exact False.elim (hUsed rfl)
    · exact h.trapped hPlaced hWindow hIn

end

theorem createVm_owned {s s₀ s' : Hypervisor} {cfg : VmConfig} {img : Guest} {i : Nat}
    (hPlaced : Placed cfg img) (hPool : RamPool s.host.allocator) (hImg : cfg.guestImg = some img)
    (hVm : allocvm s = some (s₀, i)) (hRun : createVm s (some cfg) = .ok s')
    (hZero : ∀ g ∈ s'.host.grants, GrantedZero g) :
    ∃ data node, Created (Owned s.host.allocator) cfg img s s' i data node :=
  createVm_created (fun root => ownedLedger root _ hPool.below) hPool (owned_start s.host hPool.pool) hPlaced hImg hVm
    hRun hZero

/-- Guest memory isolation: with enough free pages that read as zero, a VM that `create_vm` returns
from reaches exactly its RAM and the UART, no frame twice, no table, and nothing that was in use. -/
theorem createVm_isolates {s s₀ s' : Hypervisor} {cfg : VmConfig} {img : Guest} {i : Nat}
    (hPlaced : Placed cfg img) (hPool : RamPool s.host.allocator) (hImg : cfg.guestImg = some img)
    (hVm : allocvm s = some (s₀, i)) (hRun : createVm s (some cfg) = .ok s')
    (hZero : ∀ g ∈ s'.host.grants, GrantedZero g) : Isolated cfg img s s' i := by
  obtain ⟨data, node, hCreated⟩ := createVm_owned hPlaced hPool hImg hVm hRun hZero
  exact hCreated.isolated hPlaced hPool

/-- A machine before its first VM: sixteen zeroed pages of RAM, all free. -/
def bootHypervisor : Hypervisor where
  host := ⟨fun _ => 0, ⟨fun _ => 0, 16, 0x40000, 0⟩, []⟩
  vms := fun _ => ⟨"", 0, fun _ => none, 0, none, none, false⟩
  vcpus := fun _ => ⟨0, 0, 0, 0, 0, 0, .unused, ⟨fun _ => 0, 0⟩, none, none, 0⟩
  vgics := fun _ => ⟨false, 0, 0, false, 0⟩
  vgicCpus := fun _ => ⟨false, 0, fun _ => ⟨0, 0, false, false⟩, fun _ => ⟨0, 0, false, false⟩⟩
  mmio := fun _ => ⟨none, 0, 0, none, none⟩
  gicLrMax := 4
  gicdTyper := 8
  ichVmcrEl2 := 2

/-- An image of 50 bytes and two pages of RAM. -/
def smallImg : Guest := ⟨some "small", 0x40100000, 100, 0x40100032⟩

def smallCfg : VmConfig := ⟨some smallImg, 2, 5000, 0x80000000⟩

/-- The image with `ramSize` bytes of RAM. -/
def ramCfg (ramSize : Nat) : VmConfig := ⟨some smallImg, 2, ramSize, 0x80000000⟩

theorem ramCfg_placed {n : Nat} (hBytes : 0x80000000 + ramBytes (ramCfg n) smallImg ≤ 2 ^ 48) :
    Placed (ramCfg n) smallImg := by
  have hAligned : (ramCfg n).entrypoint % 4096 = 0 := show 0x80000000 % 4096 = 0 by decide
  refine ⟨hAligned, hBytes, ?_⟩
  intro w hw ipa hIn hWindow
  have hEnd : ∀ w ∈ (uartBase, pageSize) :: trapWindows, w.1 + w.2 ≤ 0x80000000 := by decide
  have hLow := hEnd w hw
  obtain ⟨hStart, _⟩ := hIn
  obtain ⟨_, hStop⟩ := hWindow
  change 0x80000000 ≤ ipa at hStart
  omega

theorem smallCfg_placed : Placed smallCfg smallImg := ramCfg_placed (n := 5000) (by decide)

theorem bootHypervisor_ramPool : RamPool bootHypervisor.host.allocator where
  pool := ⟨by decide, by decide⟩
  below := by decide
  apart := by
    intro k _
    change (0x40000 + k) * 4096 ≠ 0x09000000
    omega

/-- If the free pages are zeroed before the call, so is every page it takes. -/
theorem createVm_zeroed {s s₀ s' : Hypervisor} {cfg : VmConfig} {img : Guest} {i : Nat} (hPlaced : Placed cfg img)
    (hPool : RamPool s.host.allocator) (hImg : cfg.guestImg = some img) (hVm : allocvm s = some (s₀, i))
    (hFree : ∀ k, s.host.allocator.Free k → Zero s.host.mem (s.host.allocator.pageAddr k) 4096)
    (hRun : createVm s (some cfg) = .ok s') (hGranted : ∀ g ∈ s'.host.grants, Granted g) :
    ZeroSince s.host s'.host := by
  have hStart : OwnedZeroed s.host.allocator [] s.host (fun _ _ => none) := ⟨owned_start _ hPool.pool, hFree⟩
  obtain ⟨_, _, hCreated⟩ := createVm_created (fun root => zeroedLedger root _ hPool.below) hPool hStart hPlaced
    hImg hVm hRun hGranted
  exact hCreated.zeroed

/-- A VM on the machine above gets zeroed pages, if it gets its pages at all. -/
theorem bootVm_created {cfg : VmConfig} {img : Guest} {test : Hypervisor → Bool} (hPlaced : Placed cfg img)
    (hImg : cfg.guestImg = some img) (hReturns : returns (createVm bootHypervisor (some cfg))
      (fun s => s.host.grants.all (fun g => g.page != minusOne) && test s) = true) :
    ∃ s', createVm bootHypervisor (some cfg) = .ok s' ∧ (∀ g ∈ s'.host.grants, GrantedZero g) ∧
      test s' = true := by
  obtain ⟨s', hRun, hTests⟩ := exists_of_returns hReturns
  obtain ⟨hAll, hTest⟩ := Bool.and_eq_true_iff.mp hTests
  have hGranted : ∀ g ∈ s'.host.grants, Granted g := by
    intro g hg
    simpa [Granted] using List.all_eq_true.mp hAll g hg
  refine ⟨s', hRun, ?_, hTest⟩
  intro g hg
  obtain hOld | hZero := createVm_zeroed hPlaced bootHypervisor_ramPool hImg rfl (fun _ _ _ _ => rfl) hRun hGranted g hg
  · cases hOld
  · exact ⟨hGranted g hg, hZero⟩

theorem ramCfg_created {n : Nat} {test : Hypervisor → Bool} (hPlaced : Placed (ramCfg n) smallImg)
    (hReturns : returns (createVm bootHypervisor (some (ramCfg n)))
      (fun s => s.host.grants.all (fun g => g.page != minusOne) && test s) = true) :
    ∃ s', createVm bootHypervisor (some (ramCfg n)) = .ok s' ∧ (∀ g ∈ s'.host.grants, GrantedZero g) ∧
      test s' = true :=
  bootVm_created hPlaced rfl hReturns

theorem smallCfg_returns : returns (createVm bootHypervisor (some (ramCfg 5000))) (fun s =>
    s.host.grants.all (fun g => g.page != minusOne) && ((s.vms 0).stage2Pt == 0x40000000 &&
    archWalk s.host.mem 0x40000000 0x80000000 == some ⟨0x400014c7, 0x40001000⟩ &&
    archWalk s.host.mem 0x40000000 0x1000 == none)) = true := by
  decide +kernel

theorem smallCfg_created : ∃ s', createVm bootHypervisor (some smallCfg) = .ok s' ∧
    (∀ g ∈ s'.host.grants, GrantedZero g) ∧ (s'.vms 0).stage2Pt = 0x40000000 ∧
    archWalk s'.host.mem 0x40000000 0x80000000 = some ⟨0x400014c7, 0x40001000⟩ ∧
    archWalk s'.host.mem 0x40000000 0x1000 = none := by
  obtain ⟨s', hRun, hZero, hTests⟩ := ramCfg_created smallCfg_placed smallCfg_returns
  simp only [Bool.and_eq_true, beq_iff_eq] at hTests
  obtain ⟨⟨hRoot, hWalk⟩, hNone⟩ := hTests
  exact ⟨s', hRun, hZero, hRoot, hWalk, hNone⟩

theorem createVm_isolates_small : ∃ s', createVm bootHypervisor (some smallCfg) = .ok s' ∧
    Isolated smallCfg smallImg bootHypervisor s' 0 := by
  obtain ⟨s', hRun, hZero, _⟩ := smallCfg_created
  exact ⟨s', hRun, createVm_isolates smallCfg_placed bootHypervisor_ramPool rfl rfl hRun hZero⟩

end HyperPoc
