import HyperPoc.Trap.Emulate
import HyperPoc.Vm.Isolation

/-! # Trapping a region that may be mapped

`s2_pt_trap` looks at the first page of the region only. If a level 3 table covers it, every page of the
region is unmapped in turn: the first one that is not mapped ends in a panic, or in a null pointer where
its table is missing too. Otherwise nothing is unmapped.
-/
namespace HyperPoc
open Library.Memory Library.RadixTable Library.Run Stage2 Trap
set_option autoImplicit false

/-- A level 3 table covers the page. -/
def Covered (node : Nat → Nat → Option Nat) (key : Nat) : Prop := (node 3 (key / 512)).isSome

def Mapped (m : Mem) (node : Nat → Nat → Option Nat) (key : Nat) : Prop := (leafDesc m node key).isSome

section
variable {h : Host} {root : Nat} {node : Nat → Nat → Option Nat} {va n : Nat}

theorem Stage2.Tree.entryAddr_eq_zero {m : Mem} (hTree : Tree m root node) (key : Nat) :
    entryAddr node key = 0 ↔ ¬Covered node key := by
  rw [entryAddr, Covered]
  cases hNode : node 3 (key / 512) with
  | none => simp
  | some t =>
    have hPos := hTree.pos 3 _ t hNode
    simp only [Option.isSome_some, not_true_eq_false, iff_false]
    omega

theorem Stage2.Tree.entry_eq_zero {m : Mem} (hTree : Tree m root node) {key : Nat} (hCovered : Covered node key) :
    load m (entryAddr node key) 8 = 0 ↔ ¬Mapped m node key := by
  obtain ⟨t, ht⟩ := Option.isSome_iff_exists.mp hCovered
  have hEntry : load m (entryAddr node key) 8 = descriptor m t (key % 512) := by
    rw [entryAddr, ht]
    rfl
  rw [Mapped, leafDesc_eq, ht, Option.bind_some, page, hEntry]
  split
  · rename_i hPage
    simp only [Option.isSome_some, not_true_eq_false, iff_false]
    omega
  · rename_i hPage
    simpa using hTree.clean _ t _ ht (Nat.mod_lt _ (by decide)) hPage

theorem Mapped.covered {m : Mem} {key : Nat} (hMapped : Mapped m node key) : Covered node key := by
  rw [Mapped, leafDesc_eq] at hMapped
  rw [Covered]
  cases hNode : node 3 (key / 512) with
  | none =>
    rw [hNode] at hMapped
    cases hMapped
  | some t => rfl

/-- The loop dereferences a null pointer exactly if the first page that is not mapped has no table. -/
theorem pageunmapLoop_null_iff (hTree : Tree h.mem root node) (hVa : va + n * 4096 ≤ 2 ^ 48) :
    pageunmapLoop root n h va = .error .nullDereference ↔
      ∃ k < n, ¬Covered node (va / 4096 + k) ∧ ∀ j < k, Mapped h.mem node (va / 4096 + j) := by
  induction n generalizing h va with
  | zero =>
    constructor
    · intro hNull
      cases hNull
    · rintro ⟨k, hk, _⟩
      omega
  | succ n ih =>
    have hKey : pageKey va = va / 4096 := pageKey_of_lt (by omega)
    rw [pageunmapLoop, hTree.pagewalk_read va, ok_bind, hKey]
    dsimp only
    by_cases hCovered : Covered node (va / 4096)
    · rw [if_neg (mt (hTree.entryAddr_eq_zero _).mp (not_not.mpr hCovered))]
      by_cases hMapped : Mapped h.mem node (va / 4096)
      · -- the page is unmapped, and the loop goes on with the next one
        rw [if_neg (mt (hTree.entry_eq_zero hCovered).mp (not_not.mpr hMapped))]
        obtain ⟨t, ht⟩ := Option.isSome_iff_exists.mp hCovered
        have hEntry : entryAddr node (va / 4096) = t + 8 * (va / 4096 % 512) := by rw [entryAddr, ht]
        obtain ⟨hTree', hLeaf⟩ := hTree.write (va / 4096) 0 ht (by decide) (.inr rfl)
        have hNext : ∀ j, (va + 4096) / 4096 + j = va / 4096 + (j + 1) := fun j => by omega
        have hLater : ∀ j, Mapped (store h.mem (t + 8 * (va / 4096 % 512)) 8 0) node (va / 4096 + (j + 1)) ↔
            Mapped h.mem node (va / 4096 + (j + 1)) := by
          intro j
          rw [Mapped, Mapped, hLeaf, if_neg (by omega)]
        rw [hEntry, pageSize, u64_of_lt (by omega)]
        refine (ih (h := (h.freePage _).store64 (t + 8 * (va / 4096 % 512)) 0) hTree' (by omega)).trans ?_
        simp only [hNext]
        constructor
        · rintro ⟨k, hk, hMissing, hBefore⟩
          refine ⟨k + 1, by omega, hMissing, fun j hj => ?_⟩
          cases j with
          | zero => exact hMapped
          | succ j => exact (hLater j).mp (hBefore j (by omega))
        · rintro ⟨k, hk, hMissing, hBefore⟩
          cases k with
          | zero => exact (hMissing hCovered).elim
          | succ k => exact ⟨k, by omega, hMissing, fun j hj => (hLater j).mpr (hBefore (j + 1) (by omega))⟩
      · -- an entry that is 0 makes the loop panic, whatever follows
        rw [if_pos ((hTree.entry_eq_zero hCovered).mpr hMapped)]
        constructor
        · intro hNull
          cases hNull
        · rintro ⟨k, _, hMissing, hBefore⟩
          cases k with
          | zero => exact (hMissing hCovered).elim
          | succ k => exact (hMapped (hBefore 0 (by omega))).elim
    · rw [if_pos ((hTree.entryAddr_eq_zero _).mpr hCovered)]
      exact ⟨fun _ => ⟨0, by omega, hCovered, fun j hj => by omega⟩, fun _ => rfl⟩

end

/-- What a VM relies on once a region traps: no page of it translates, all others translate as before, and
each access of a vcpu of the VM gets to the handlers; no call may follow a null pointer. -/
structure Traps (s : Hypervisor) (vm ipa size : Nat) (handler : Handler) : Prop where
  no_null : s2PtTrap s vm ipa size handler ≠ .error .nullDereference
  hole : ∀ s' a, s2PtTrap s vm ipa size handler = .ok s' → ipa ≤ a → a < ipa + size →
    archWalk s'.host.mem (s.vms vm).stage2Pt a = none
  outside : ∀ s' a, s2PtTrap s vm ipa size handler = .ok s' → a < ipa ∨ ipa + size ≤ a →
    archWalk s'.host.mem (s.vms vm).stage2Pt a = archWalk s.host.mem (s.vms vm).stage2Pt a
  dispatched : ∀ s' a vcpu, s2PtTrap s vm ipa size handler = .ok s' → ipa ≤ a → a < ipa + size →
    (s'.vcpus vcpu).vm = some vm → Hits s' vcpu a handler (a - ipa)

section
variable {s s' : Hypervisor} {vm ipa size : Nat} {handler : Handler} {node : Nat → Nat → Option Nat}

theorem s2PtTrap_hits (hEnd : ipa + size ≤ 2 ^ 48) (hTrap : s2PtTrap s vm ipa size handler = .ok s') {a vcpu : Nat}
    (hLow : ipa ≤ a) (hHigh : a < ipa + size) (hVm : (s'.vcpus vcpu).vm = some vm) :
    Hits s' vcpu a handler (a - ipa) := by
  obtain ⟨_, _, _, n, _, _, _, rfl⟩ := s2PtTrap_ok hTrap
  refine ⟨vm, ⟨(s.vms vm).mmioList, ipa, size, some handler, some handler⟩, hVm, ?_, rfl, rfl, rfl⟩
  simp only [Hypervisor.setVm, Function.update_self]
  rw [show mmioInfoMax = 63 + 1 from rfl, findMmio, Function.update_self]
  dsimp only
  rw [u64_of_lt (by omega), if_pos ⟨hLow, hHigh⟩]

def registerRegion (s : Hypervisor) (vm ipa size : Nat) (handler : Handler) (host : Host) : Outcome Hypervisor :=
  match mmioRegHandler s.mmio (s.vms vm).mmioList ipa size (some handler) (some handler) with
  | ((mmio, mmioList), ret) =>
    if ret < 0 then .error (.panic "mmio_reg_handler failed")
    else .ok ({ s with host := host, mmio := mmio }.setVm vm { s.vms vm with mmioList := mmioList })

theorem registerRegion_cases (s : Hypervisor) (vm ipa : Nat) {size : Nat} (handler : Handler) (host : Host)
    (hSize : size ≠ 0) :
    (∀ i < mmioInfoMax, (s.mmio i).size ≠ 0) ∧
      registerRegion s vm ipa size handler host = .error (.panic "mmio_reg_handler failed") ∨
    (∃ i < mmioInfoMax, (s.mmio i).size = 0) ∧
      ∃ s', registerRegion s vm ipa size handler host = .ok s' ∧ s'.host = host := by
  rw [registerRegion]
  obtain ⟨hFull, hCall⟩ | ⟨i, hi, hFree, hCall⟩ :=
    mmioRegHandler_cases s.mmio (s.vms vm).mmioList ipa (some handler) (some handler) hSize
  · rw [hCall]
    exact .inl ⟨hFull, rfl⟩
  · rw [hCall]
    exact .inr ⟨⟨i, hi, hFree⟩, _, rfl, rfl⟩

theorem s2PtTrap_covered (hTree : Tree s.host.mem (s.vms vm).stage2Pt node) (hIpa : ipa < 2 ^ 48)
    (hCovered : Covered node (ipa / 4096)) : s2PtTrap s vm ipa size handler =
      pageunmap s.host (s.vms vm).stage2Pt ipa size >>= registerRegion s vm ipa size handler := by
  have hEntry : entryAddr node (ipa / 4096) ≠ 0 := fun hZero => (hTree.entryAddr_eq_zero _).mp hZero hCovered
  rw [s2PtTrap, hTree.pagewalk_read ipa, ok_bind, pageKey_of_lt hIpa]
  dsimp only
  rw [if_pos hEntry]
  rfl

theorem s2PtTrap_uncovered (hTree : Tree s.host.mem (s.vms vm).stage2Pt node) (hIpa : ipa < 2 ^ 48)
    (hCovered : ¬Covered node (ipa / 4096)) : s2PtTrap s vm ipa size handler =
      registerRegion s vm ipa size handler s.host := by
  have hEntry : entryAddr node (ipa / 4096) = 0 := (hTree.entryAddr_eq_zero _).mpr hCovered
  rw [s2PtTrap, hTree.pagewalk_read ipa, ok_bind, pageKey_of_lt hIpa]
  dsimp only
  rw [if_neg (by simp [hEntry])]
  rfl

/-- If a table covers the first page, one covers the first page that is not mapped; otherwise no page of
the region is mapped, unless the region cannot be registered anyway. -/
structure Trappable (s : Hypervisor) (node : Nat → Nat → Option Nat) (first n : Nat) : Prop where
  covered : Covered node first → ∀ k < n, ¬Mapped s.host.mem node (first + k) →
    (∀ j < k, Mapped s.host.mem node (first + j)) → Covered node (first + k)
  uncovered : ¬Covered node first → (∃ i < mmioInfoMax, (s.mmio i).size = 0) →
    ∀ k < n, ¬Mapped s.host.mem node (first + k)

theorem pageunmap_aligned {h : Host} {root va : Nat} (hVa : va % 4096 = 0) (hSize : size % 4096 = 0) :
    pageunmap h root va size = pageunmapLoop root (size / 4096) h va := by
  rw [pageunmap, pageSize, if_neg (by omega)]

theorem s2PtTrap_null_iff (hTree : Tree s.host.mem (s.vms vm).stage2Pt node) (hIpa : ipa % 4096 = 0)
    (hSize : size % 4096 = 0) (hPos : size ≠ 0) (hEnd : ipa + size ≤ 2 ^ 48) :
    s2PtTrap s vm ipa size handler = .error .nullDereference ↔
      Covered node (ipa / 4096) ∧ ∃ k < size / 4096, ¬Covered node (ipa / 4096 + k) ∧
        ∀ j < k, Mapped s.host.mem node (ipa / 4096 + j) := by
  have hRegister : ∀ host, registerRegion s vm ipa size handler host ≠ .error .nullDereference := by
    intro host hNull
    obtain ⟨_, hCall⟩ | ⟨_, s', hCall, _⟩ := registerRegion_cases s vm ipa handler host hPos
    · cases hCall.symm.trans hNull
    · cases hCall.symm.trans hNull
  by_cases hCovered : Covered node (ipa / 4096)
  · rw [s2PtTrap_covered hTree (by omega) hCovered, pageunmap_aligned hIpa hSize, bind_eq_error,
      pageunmapLoop_null_iff hTree (by omega)]
    constructor
    · rintro (hNull | ⟨host, _, hNull⟩)
      · exact ⟨hCovered, hNull⟩
      · exact (hRegister host hNull).elim
    · exact fun hNull => .inl hNull.2
  · rw [s2PtTrap_uncovered hTree (by omega) hCovered]
    exact ⟨fun hNull => (hRegister s.host hNull).elim, fun hNull => (hCovered hNull.1).elim⟩

theorem s2PtTrap_leaf (hTree : Tree s.host.mem (s.vms vm).stage2Pt node) (hIpa : ipa % 4096 = 0)
    (hSize : size % 4096 = 0) (hPos : size ≠ 0) (hEnd : ipa + size ≤ 2 ^ 48)
    (hTrappable : Trappable s node (ipa / 4096) (size / 4096))
    (hTrap : s2PtTrap s vm ipa size handler = .ok s') :
    Tree s'.host.mem (s.vms vm).stage2Pt node ∧ ∀ key, leafDesc s'.host.mem node key =
      if ipa / 4096 ≤ key ∧ key < (ipa + size) / 4096 then none else leafDesc s.host.mem node key := by
  by_cases hCovered : Covered node (ipa / 4096)
  · rw [s2PtTrap_covered hTree (by omega) hCovered] at hTrap
    obtain ⟨host, hUnmap, hRegister⟩ := bind_eq_ok.mp hTrap
    obtain ⟨_, hCall⟩ | ⟨_, s₁, hCall, rfl⟩ := registerRegion_cases s vm ipa handler host hPos
    · cases hCall.symm.trans hRegister
    · cases hCall.symm.trans hRegister
      exact pageunmap_spec hTree hEnd hUnmap
  · rw [s2PtTrap_uncovered hTree (by omega) hCovered] at hTrap
    obtain ⟨_, hCall⟩ | ⟨hFree, s₁, hCall, hHost⟩ := registerRegion_cases s vm ipa handler s.host hPos
    · cases hCall.symm.trans hTrap
    · cases hCall.symm.trans hTrap
      rw [hHost]
      refine ⟨hTree, fun key => ?_⟩
      split
      · rename_i hIn
        have hUnmapped := hTrappable.uncovered hCovered hFree (key - ipa / 4096) (by omega)
        rw [Nat.add_sub_cancel' hIn.1] at hUnmapped
        exact Option.not_isSome_iff_eq_none.mp hUnmapped
      · rfl

theorem s2PtTrap_empty (hTree : Tree s.host.mem (s.vms vm).stage2Pt node) (hIpa : ipa % 4096 = 0) :
    s2PtTrap s vm ipa 0 handler = .error (.panic "mmio_reg_handler failed") := by
  rw [s2PtTrap, hTree.pagewalk_read ipa, ok_bind]
  dsimp only
  rw [pageunmap_aligned hIpa rfl, show pageunmapLoop (s.vms vm).stage2Pt (0 / 4096) s.host ipa = .ok s.host from rfl,
    ite_self, ok_bind]
  rfl

theorem mapped_iff (hTree : Tree s.host.mem (s.vms vm).stage2Pt node) {key : Nat} (hKey : key * 4096 < 2 ^ 48) :
    Mapped s.host.mem node key ↔ (archWalk s.host.mem (s.vms vm).stage2Pt (key * 4096)).isSome := by
  rw [Mapped, hTree.archWalk_eq _ hKey, Nat.mul_div_cancel _ (by decide), Option.isSome_map]

/-- For a region of whole pages of the input address space, `s2_pt_trap` keeps its promise in exactly these
states of the tables. -/
theorem s2PtTrap_traps_iff (hTree : Tree s.host.mem (s.vms vm).stage2Pt node) (hIpa : ipa % 4096 = 0)
    (hSize : size % 4096 = 0) (hEnd : ipa + size ≤ 2 ^ 48) :
    Traps s vm ipa size handler ↔ Trappable s node (ipa / 4096) (size / 4096) := by
  obtain rfl | hPos := Nat.eq_zero_or_pos size
  · have hPanic : s2PtTrap s vm ipa 0 handler = _ := s2PtTrap_empty hTree hIpa
    constructor
    · exact fun _ => ⟨fun _ k hk => by omega, fun _ _ k hk => by omega⟩
    · intro _
      refine ⟨?_, ?_, ?_, ?_⟩
      · rw [hPanic]
        simp
      · intro s' a hTrap
        cases hPanic.symm.trans hTrap
      · intro s' a hTrap
        cases hPanic.symm.trans hTrap
      · intro s' a vcpu hTrap
        cases hPanic.symm.trans hTrap
  have hNull : s2PtTrap s vm ipa size handler = .error .nullDereference ↔ _ :=
    s2PtTrap_null_iff hTree hIpa hSize (by omega) hEnd
  constructor
  · intro hTraps
    constructor
    · intro hCovered k hk _ hBefore
      by_contra hMissing
      exact hTraps.no_null (hNull.mpr ⟨hCovered, k, hk, hMissing, hBefore⟩)
    · intro hCovered hFree k hk hMapped
      -- nothing is unmapped, so a mapped page of the region still translates
      obtain ⟨hFull, _⟩ | ⟨_, s', hCall, hHost⟩ :=
        registerRegion_cases s vm ipa handler s.host (by omega : size ≠ 0)
      · obtain ⟨i, hi, hZero⟩ := hFree
        exact hFull i hi hZero
      · have hTrap := (s2PtTrap_uncovered hTree (by omega) hCovered).trans hCall
        have hHole := hTraps.hole s' ((ipa / 4096 + k) * 4096) hTrap (by omega) (by omega)
        rw [mapped_iff hTree (by omega), ← hHost, hHole] at hMapped
        cases hMapped
  · intro hTrappable
    refine ⟨?_, ?_, ?_, fun s' a vcpu hTrap => s2PtTrap_hits hEnd hTrap⟩
    · intro hTrap
      obtain ⟨hCovered, k, hk, hMissing, hBefore⟩ := hNull.mp hTrap
      exact hMissing (hTrappable.covered hCovered k hk (fun hMapped => hMissing hMapped.covered) hBefore)
    · intro s' a hTrap hLow hHigh
      obtain ⟨hTree', hLeaf'⟩ := s2PtTrap_leaf hTree hIpa hSize (by omega) hEnd hTrappable hTrap
      rw [hTree'.archWalk_eq a (by omega), hLeaf', if_pos (by omega)]
      rfl
    · intro s' a hTrap hOut
      obtain ⟨hTree', hLeaf'⟩ := s2PtTrap_leaf hTree hIpa hSize (by omega) hEnd hTrappable hTrap
      obtain hLt | hGe := Nat.lt_or_ge a (2 ^ 48)
      · rw [hTree'.archWalk_eq a hLt, hTree.archWalk_eq a hLt, hLeaf', if_neg (by omega)]
      · rw [archWalk, archWalk, if_neg (by omega), if_neg (by omega)]

end

theorem ramTrap_returns : returns (createVm bootHypervisor (some (ramCfg 9000))) (fun s =>
    s.host.grants.all (fun g => g.page != minusOne) &&
    ((List.range 3).all (fun k => (archWalk s.host.mem (s.vms 0).stage2Pt ((0x80000 + k) * 4096)).isSome) &&
    returns (s2PtTrap s 0 0x80000000 0x3000 .virtio) fun _ => true)) = true := by
  decide +kernel

theorem s2PtTrap_traps_ram : ∃ s s', createVm bootHypervisor (some (ramCfg 9000)) = .ok s ∧
    s2PtTrap s 0 0x80000000 0x3000 .virtio = .ok s' ∧ Traps s 0 0x80000000 0x3000 .virtio := by
  have hPlaced : Placed (ramCfg 9000) smallImg := ramCfg_placed (by decide)
  obtain ⟨s, hRun, hZero, hTests⟩ := ramCfg_created hPlaced ramTrap_returns
  obtain ⟨hAll, hReturns⟩ := Bool.and_eq_true_iff.mp hTests
  obtain ⟨s', hTrap, _⟩ := exists_of_returns hReturns
  obtain ⟨_, node, hCreated⟩ := createVm_owned hPlaced bootHypervisor_ramPool rfl rfl hRun hZero
  have hMapped : ∀ k < 3, Mapped s.host.mem node (0x80000 + k) := by
    intro k hk
    rw [mapped_iff hCreated.tree (by omega)]
    exact List.all_eq_true.mp hAll k (List.mem_range.mpr hk)
  refine ⟨s, s', hRun, hTrap, (s2PtTrap_traps_iff hCreated.tree (by decide) (by decide) (by decide)).mpr
    ⟨?_, ?_⟩⟩
  · intro _ k hk hUnmapped
    exact (hUnmapped (hMapped k hk)).elim
  · intro hUncovered
    exact (hUncovered (hMapped 0 (by decide)).covered).elim

def edgeCfg : VmConfig := ⟨some smallImg, 2, 4096, 0x801ff000⟩

theorem edgeCfg_placed : Placed edgeCfg smallImg := by
  refine ⟨by decide, by decide, ?_⟩
  intro w hw ipa hIn hWindow
  have hEnd : ∀ w ∈ (uartBase, pageSize) :: trapWindows, w.1 + w.2 ≤ 0x80000000 := by decide
  have hLow := hEnd w hw
  obtain ⟨hStart, _⟩ := hIn
  obtain ⟨_, hStop⟩ := hWindow
  change 0x801ff000 ≤ ipa at hStart
  omega

theorem edgeCfg_returns : returns (createVm bootHypervisor (some edgeCfg)) (fun s =>
    s.host.grants.all (fun g => g.page != minusOne) &&
    stopsWith (s2PtTrap s 0 0x801ff000 0x2000 .virtio) .nullDereference) = true := by
  decide +kernel

theorem uart_returns : returns (createVm bootHypervisor (some smallCfg)) (fun s =>
    s.host.grants.all (fun g => g.page != minusOne) &&
    returns (s2PtTrap s 0 0x08fff000 0x2000 .virtio)
      (fun s' => (archWalk s'.host.mem (s.vms 0).stage2Pt uartBase).isSome)) = true := by
  decide +kernel

/-- Two VMs as `create_vm` builds them. Trapping the last page of a table and the next one follows a null
pointer, and trapping the page before the UART and the UART leaves the UART mapped. -/
theorem s2PtTrap_partial :
    (∃ s node, createVm bootHypervisor (some edgeCfg) = .ok s ∧ Tree s.host.mem (s.vms 0).stage2Pt node ∧
      s2PtTrap s 0 0x801ff000 0x2000 .virtio = .error .nullDereference) ∧
    ∃ s s' node, createVm bootHypervisor (some smallCfg) = .ok s ∧ Tree s.host.mem (s.vms 0).stage2Pt node ∧
      s2PtTrap s 0 0x08fff000 0x2000 .virtio = .ok s' ∧
      (archWalk s'.host.mem (s.vms 0).stage2Pt 0x09000000).isSome := by
  constructor
  · obtain ⟨s, hRun, hZero, hNull⟩ := bootVm_created edgeCfg_placed rfl edgeCfg_returns
    obtain ⟨_, node, hCreated⟩ := createVm_owned edgeCfg_placed bootHypervisor_ramPool rfl rfl hRun hZero
    exact ⟨s, node, hRun, hCreated.tree, eq_error_of_stopsWith hNull⟩
  · obtain ⟨s, hRun, hZero, hReturns⟩ := bootVm_created smallCfg_placed rfl uart_returns
    obtain ⟨_, node, hCreated⟩ := createVm_owned smallCfg_placed bootHypervisor_ramPool rfl rfl hRun hZero
    obtain ⟨s', hTrap, hUart⟩ := exists_of_returns hReturns
    exact ⟨s, s', node, hRun, hCreated.tree, hTrap, hUart⟩

end HyperPoc
