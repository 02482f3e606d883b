import HyperPoc.Vm.Isolation

/-! # Loading the guest image

The three loops of `create_vm` share one cursor. The last page of the file is copied in part, and
the second loop starts behind it: what the rest of that page held before the call is what the guest
finds at the beginning of its `.bss`.
-/
namespace HyperPoc
open Library.Memory Library.RadixTable Library.Run Stage2
set_option autoImplicit false

def guestByte (s : Hypervisor) (i ipa : Nat) : Option UInt8 :=
  (archWalk s.host.mem (s.vms i).stage2Pt ipa).map fun t => s.host.mem t.pa

/-- The image is a range of addresses and no free page holds a byte of it. -/
structure ImageApart (a : PageAllocator) (img : Guest) : Prop where
  order : img.start ≤ img.stop
  word : img.stop < 2 ^ 64
  apart : ∀ k, a.Free k → img.stop ≤ a.pageAddr k ∨ a.pageAddr k + 4096 ≤ img.start

/-- The image's bytes in the order of the file, then zeros up to the image's memory size. -/
structure Loads (cfg : VmConfig) (img : Guest) (s s' : Hypervisor) (i : Nat) : Prop where
  file : ∀ o < guestFilesz img, guestByte s' i (cfg.entrypoint + o) = some (s.host.mem (img.start + o))
  bss : ∀ o, guestFilesz img ≤ o → o < img.size → guestByte s' i (cfg.entrypoint + o) = some 0

/-- Pages that become tables are tested to be pages and to read as zero, all others to be pages. -/
def Tidy (site : Site) (g : Grant) : Prop :=
  g.page ≠ minusOne ∧ (site = .table ∨ site = .root → Zero g.mem g.page 4096)

instance (m : Mem) (a n : Nat) : Decidable (Zero m a n) := Nat.decidableBallLT n fun i _ => m (a + i) = 0

instance (site : Site) (g : Grant) : Decidable (Tidy site g) := instDecidableAnd

theorem tidy_tests : (takeIf Tidy).Tests GrantedZero Granted where
  table := fun h r hTake => by
    obtain ⟨hPage, hPos, hTidy⟩ := takeIf_gives Tidy .table h r hTake
    exact ⟨hPage, hPos, hTidy.1, hTidy.2 (.inl rfl)⟩
  root := fun h r hTake => by
    obtain ⟨hPage, hPos, hTidy⟩ := takeIf_gives Tidy .root h r hTake
    exact ⟨hPage, hPos, hTidy.1, hTidy.2 (.inr rfl)⟩
  file := fun h r hTake => by
    obtain ⟨hPage, hPos, hTidy⟩ := takeIf_gives Tidy .file h r hTake
    exact ⟨hPage, hPos, hTidy.1⟩
  bss := fun h r hTake => by
    obtain ⟨hPage, hPos, hTidy⟩ := takeIf_gives Tidy .bss h r hTake
    exact ⟨hPage, hPos, hTidy.1⟩
  ram := fun h r hTake => by
    obtain ⟨hPage, hPos, hTidy⟩ := takeIf_gives Tidy .ram h r hTake
    exact ⟨hPage, hPos, hTidy.1⟩
  spis := fun h r hTake => by
    obtain ⟨hPage, hPos, hTidy⟩ := takeIf_gives Tidy .spis h r hTake
    exact ⟨hPage, hPos, hTidy.1⟩

theorem ImageApart.filesz {a : PageAllocator} {img : Guest} (h : ImageApart a img) :
    img.start + guestFilesz img = img.stop := by
  have hOrder := h.order
  have hWord := h.word
  rw [guestFilesz, u64]
  omega

/-- What page `j` of the guest's RAM holds at offset `o`, in the frame `f`, if memory was `m₀` before the call. -/
def loadedByte (img : Guest) (m₀ : Mem) (j f o : Nat) : UInt8 :=
  if j * 4096 + o < guestFilesz img then m₀ (img.start + (j * 4096 + o))
  else if guestFilesz img ≤ j * 4096 ∧ j * 4096 < img.size then 0
  else m₀ (f + o)

theorem frameContent_byte {a : PageAllocator} {img : Guest} (hImg : ImageApart a img) (j : Nat) (m : Mem) {page : Nat}
    (hTop : page + 4096 ≤ 2 ^ 48) {o : Nat} (ho : o < 4096) :
    frameContent img j m page (page + o) = loadedByte img m j page o := by
  have hStop := hImg.filesz
  have hWord := hImg.word
  rw [frameContent, loadedByte]
  split
  · rename_i hFile
    have hLen : ∃ n, n = (if guestFilesz img - j * 4096 < pageSize then guestFilesz img - j * 4096 else pageSize) ∧
        n ≤ 4096 ∧ j * 4096 + n ≤ guestFilesz img ∧ (o < n ↔ j * 4096 + o < guestFilesz img) := by
      refine ⟨_, rfl, ?_⟩
      rw [pageSize]
      split <;> omega
    obtain ⟨n, hn, hPage, hRoom, hIn⟩ := hLen
    rw [fileContent, ← hn, u64_of_lt (by omega), memcpy, memmove_eq m page _ n (by omega) (by omega), copy]
    by_cases hLt : o < n
    · have hSrc : img.start + j * 4096 + (page + o - page) = img.start + (j * 4096 + o) := by omega
      rw [if_pos (by omega), if_pos (hIn.mp hLt), hSrc]
    · rw [if_neg (by omega), if_neg (mt hIn.mpr hLt), if_neg (by omega)]
  · rename_i hFile
    have hOut : ¬j * 4096 + o < guestFilesz img := fun hLt => hFile (Nat.lt_of_le_of_lt (Nat.le_add_right _ _) hLt)
    by_cases hSize : j * 4096 < img.size
    · have hBss : guestFilesz img ≤ j * 4096 ∧ j * 4096 < img.size := ⟨Nat.le_of_not_lt hFile, hSize⟩
      have hFill : page ≤ page + o ∧ page + o < page + pageSize := by
        rw [pageSize]
        omega
      rw [if_pos hSize, if_neg hOut, if_pos hBss, bssContent, memset_eq m page pageSize 0 (by rw [pageSize]; omega),
        fill, if_pos hFill]
    · rw [if_neg hSize, if_neg hOut, if_neg fun hBoth => hSize hBoth.2]

/-- Frames hold what was loaded into them, and memory outside the pages taken is as before. -/
structure Loaded (a₀ : PageAllocator) (m₀ : Mem) (img : Guest) (frames : List Nat) (h : Host)
    (node : Nat → Nat → Option Nat) : Prop extends Owned a₀ frames h node where
  outside : ∀ b, (∀ page, Taken a₀ h.allocator page → b < page ∨ page + 4096 ≤ b) → h.mem b = m₀ b
  content : ∀ j f, frames.reverse[j]? = some f → ∀ o < 4096, h.mem (f + o) = loadedByte img m₀ j f o

section
variable {a₀ : PageAllocator} {m₀ : Mem} {img : Guest} {frames : List Nat} {h : Host}
  {node : Nat → Nat → Option Nat}

theorem Loaded.image (hLoaded : Loaded a₀ m₀ img frames h node) (hImg : ImageApart a₀ img) {o : Nat}
    (ho : o < guestFilesz img) : h.mem (img.start + o) = m₀ (img.start + o) := by
  have hStop := hImg.filesz
  apply hLoaded.outside
  rintro page ⟨k, hFree, _, rfl⟩
  have hApart := hImg.apart k hFree
  omega

theorem Loaded.free (hLoaded : Loaded a₀ m₀ img frames h node) (hNe : h.allocPage.2 ≠ minusOne) {o : Nat}
    (ho : o < 4096) : h.mem (h.allocPage.2 + o) = m₀ (h.allocPage.2 + o) := by
  obtain ⟨k, hFree, _, hPage, _⟩ := hLoaded.allocPage hNe
  apply hLoaded.outside
  intro page hTaken
  have hDisjoint := hTaken.disjoint_free hFree
  omega

theorem Loaded.write (hLoaded : Loaded a₀ m₀ img frames h node) {l p t : Nat} (ht : node l p = some t) {h' : Host}
    {node' : Nat → Nat → Option Nat} (hOwned : Owned a₀ frames h' node') (hSame : SameOutside h.mem h'.mem t 4096)
    (hGrows : ∀ k, h.allocator.InUse k → h'.allocator.InUse k) : Loaded a₀ m₀ img frames h' node' := by
  obtain ⟨hTaken, hNot⟩ := hLoaded.tables l p t ht
  refine ⟨hOwned, ?_, ?_⟩
  · -- the table is a page that was taken, and it is none of the frames
    intro b hb
    rw [hSame b (hb t (hTaken.mono hGrows))]
    exact hLoaded.outside b fun page hPage => hb page (hPage.mono hGrows)
  · intro j f hf o ho
    have hMem : f ∈ frames := List.mem_reverse.mp (List.mem_of_getElem? hf)
    have hDisjoint := (hLoaded.taken f hMem).disjoint hTaken fun hEq => hNot (hEq ▸ hMem)
    rw [hSame (f + o) (by omega)]
    exact hLoaded.content j f hf o ho

theorem Loaded.frame (hLoaded : Loaded a₀ m₀ img frames h node) (hImg : ImageApart a₀ img)
    (hTop : h.allocPage.2 + 4096 ≤ 2 ^ 48) (hNe : h.allocPage.2 ≠ minusOne) :
    Loaded a₀ m₀ img (h.allocPage.2 :: frames)
      { h.allocPage.1 with mem := frameContent img frames.length h.mem h.allocPage.2 } node := by
  obtain ⟨hNew, hFresh, hTaken⟩ := hLoaded.allocPage_new hNe
  have hGrows := hLoaded.allocPage_inUse hNe
  have hSame := frameContent_sameOutside img frames.length h.mem hTop
  refine ⟨((hLoaded.alloc hNe).frame hTaken hFresh hNew).withMem _, ?_, ?_⟩
  · intro b hb
    change frameContent img frames.length h.mem h.allocPage.2 b = m₀ b
    rw [hSame b (hb _ hTaken)]
    exact hLoaded.outside b fun page hPage => hb page (hPage.mono hGrows)
  · intro j f hf o ho
    change frameContent img frames.length h.mem h.allocPage.2 (f + o) = _
    rw [List.reverse_cons] at hf
    by_cases hj : j < frames.reverse.length
    · -- an earlier frame, apart from the new one
      rw [List.getElem?_append_left hj] at hf
      have hMem : f ∈ frames := List.mem_reverse.mp (List.mem_of_getElem? hf)
      have hDisjoint := ((hLoaded.taken f hMem).mono hGrows).disjoint hTaken fun hEq => hNew (hEq ▸ hMem)
      rw [hSame (f + o) (by omega)]
      exact hLoaded.content j f hf o ho
    · obtain ⟨hEnd, _⟩ := List.getElem?_eq_some_iff.mp hf
      rw [List.length_append, List.length_singleton] at hEnd
      obtain rfl : j = frames.reverse.length := by omega
      rw [List.getElem?_concat_length] at hf
      cases hf
      rw [List.length_reverse, frameContent_byte hImg _ _ hTop ho, loadedByte, loadedByte]
      split
      · rename_i hFile
        exact hLoaded.image hImg hFile
      · split
        · rfl
        · exact hLoaded.free hNe ho

end

theorem loadedAccount (root : Nat) (a₀ : PageAllocator) (m₀ : Mem) (img : Guest) (hImg : ImageApart a₀ img)
    (hBound : (a₀.basePfn + a₀.totalPages) * 4096 ≤ 2 ^ 48) :
    Account root a₀ GrantedZero Granted (fun _ => True)
      (fun j m page m' => page + 4096 ≤ 2 ^ 48 ∧ m' = frameContent img j m page) (Loaded a₀ m₀ img) where
  supply := fun frames =>
    { fresh := fun _ _ hTree hLoaded hOk => hLoaded.blankPage hBound hTree hOk.1 hOk.2
      keep := fun h node l p i t _ hLoaded hOk hi ht =>
        hLoaded.write ht (hLoaded.keep hOk.1 _ _ _ _) (store64_sameOutside h.mem t i _ hi)
          (hLoaded.allocPage_inUse hOk.1)
      leaf := fun h node key t w _ hLoaded ht =>
        hLoaded.write ht (hLoaded.withMem _) (store64_sameOutside h.mem t _ w (Nat.mod_lt _ (by decide)))
          fun _ hk => hk }
  root := by
    intro h hLoaded hOk
    refine ⟨hOk.1, hOk.2, hLoaded.toOwned.root hOk.1, ?_, ?_⟩
    · exact fun b hb => hLoaded.outside b fun page hPage => hb page (hPage.mono (hLoaded.allocPage_inUse hOk.1))
    · exact fun j f hf => by cases hf
  owned := fun _ _ _ hLoaded => hLoaded.toOwned
  granted := fun _ hOk => hOk
  puts := by
    rintro j m page m' ⟨hTop, rfl⟩
    exact frameContent_sameOutside img j m hTop
  frame := by
    rintro frames h node m hLoaded hOk ⟨hTop, rfl⟩
    exact ⟨trivial, hLoaded.frame hImg hTop hOk⟩
  zero := fun _ _ => trivial

theorem loaded_start (h : Host) (img : Guest) (hPool : h.allocator.Pool) :
    Loaded h.allocator h.mem img [] h (fun _ _ => none) :=
  ⟨owned_start h hPool, fun _ _ => rfl, fun _ _ hf => by cases hf⟩

section
variable {cfg : VmConfig} {img : Guest} {s s' : Hypervisor} {i : Nat}

theorem Laid.byte {data : List Nat} {node : Nat → Nat → Option Nat}
    (hLaid : Laid (Loaded s.host.allocator s.host.mem img) cfg img s s' i data node) (hPlaced : Placed cfg img)
    (hPool : RamPool s.host.allocator) {o : Nat} (ho : o < ramBytes cfg img) :
    ∃ f, data[o / 4096]? = some f ∧
      guestByte s' i (cfg.entrypoint + o) = some (loadedByte img s.host.mem (o / 4096) f (o % 4096)) := by
  have hAligned := hPlaced.aligned
  have hBelow := hPlaced.below
  have hSize := hLaid.size
  obtain ⟨v, _, hLoaded⟩ := hLaid.vgic
  have hIndex : o / 4096 < data.length := by omega
  have hFrame : data[o / 4096]? = some data[o / 4096] := List.getElem?_eq_getElem hIndex
  have hMem : data[o / 4096] ∈ (s'.vgics v).spis :: data.reverse :=
    List.mem_cons_of_mem _ (List.mem_reverse.mpr (List.getElem_mem hIndex))
  obtain ⟨hPage, hTop⟩ := (hLoaded.taken _ hMem).bounds hPool.below
  have hUart : (cfg.entrypoint + o) / 4096 ≠ uartBase / 4096 := by
    intro hKey
    apply hPlaced.apart _ List.mem_cons_self (cfg.entrypoint + o) ⟨by dsimp only; omega, by dsimp only; omega⟩
    rw [uartBase] at hKey
    rw [InWindow, uartBase, pageSize]
    omega
  have hLeaf : leafDesc s'.host.mem node ((cfg.entrypoint + o) / 4096) = some (pageDesc data[o / 4096] ramAttr) := by
    have hKey : (cfg.entrypoint + o) / 4096 - cfg.entrypoint / 4096 = o / 4096 := by omega
    rw [hLaid.leaf, guestLeaf, if_neg hUart, if_pos (by omega), hKey, hFrame]
    rfl
  have hWalk := hLaid.tree.archWalk_eq (cfg.entrypoint + o) (by omega)
  rw [hLeaf, Option.map_some, pageDesc, pageDesc_output _ ramAttr (by decide) hPage (by omega)] at hWalk
  have hOffset : (cfg.entrypoint + o) % 4096 = o % 4096 := by omega
  have hFile : ((s'.vgics v).spis :: data.reverse).reverse[o / 4096]? = some data[o / 4096] := by
    rw [List.reverse_cons, List.reverse_reverse, List.getElem?_append_left hIndex]
    exact hFrame
  refine ⟨data[o / 4096], hFrame, ?_⟩
  rw [guestByte, hWalk, Option.map_some, ← hLoaded.content _ _ hFile _ (Nat.mod_lt _ (by decide))]
  dsimp only
  rw [hOffset]

theorem Laid.guestByte_eq {data : List Nat} {node : Nat → Nat → Option Nat}
    (hLaid : Laid (Loaded s.host.allocator s.host.mem img) cfg img s s' i data node) (hPlaced : Placed cfg img)
    (hPool : RamPool s.host.allocator) {o : Nat} (ho : o < guestFilesz img ∨ o < img.size) :
    ∃ f, data[o / 4096]? = some f ∧
      guestByte s' i (cfg.entrypoint + o) =
        some (if o < guestFilesz img then s.host.mem (img.start + o)
          else if pageRound (guestFilesz img) ≤ o then 0 else s.host.mem (f + o % 4096)) := by
  have hRam : o < ramBytes cfg img := by
    rw [ramBytes, pageRound]
    omega
  obtain ⟨f, hFrame, hByte⟩ := hLaid.byte hPlaced hPool hRam
  refine ⟨f, hFrame, ?_⟩
  have hSplit : o / 4096 * 4096 + o % 4096 = o := by omega
  rw [hByte, loadedByte, hSplit]
  by_cases hFile : o < guestFilesz img
  · rw [if_pos hFile, if_pos hFile]
  · rw [if_neg hFile, if_neg hFile]
    generalize guestFilesz img = f at *
    by_cases hRound : pageRound f ≤ o
    · rw [if_pos hRound, if_pos]
      rw [pageRound] at hRound
      omega
    · rw [if_neg hRound, if_neg]
      rw [pageRound] at hRound
      omega

/-- The frames of the guest's RAM in the order of their addresses, as they come from the allocator. -/
def guestFrames (cfg : VmConfig) (img : Guest) (a : PageAllocator) : List Nat :=
  match layGuest cfg img a with
  | .ok (data, _) => data
  | .error _ => []

/-- The image is loaded as it should be exactly if the rest of its last page was zero before the call. -/
theorem createVm_loads_iff {s₀ : Hypervisor} (hPlaced : Placed cfg img) (hPool : RamPool s.host.allocator)
    (hApart : ImageApart s.host.allocator img) (hImg : cfg.guestImg = some img) (hVm : allocvm s = some (s₀, i))
    (hRun : createVmWith (takeIf Tidy) s (some cfg) = .ok s') :
    createVm s (some cfg) = .ok s' ∧
      (Loads cfg img s s' i ↔ ∀ o f, guestFilesz img ≤ o → o < img.size → o < pageRound (guestFilesz img) →
        (guestFrames cfg img s.host.allocator)[o / 4096]? = some f → s.host.mem (f + o % 4096) = 0) := by
  have hUnless : UnlessRefused (fun _ => False) (fun r => r.host.grants) (createVm s (some cfg))
      (createVmWith (takeIf Tidy) s (some cfg)) := createVmWith_unless (fun _ _ hFalse => hFalse.elim) s (some cfg)
  refine ⟨hUnless.of_ok hRun, ?_⟩
  obtain ⟨_, data, node, hLaid⟩ := createVmWith_laid
    (fun root => loadedAccount root s.host.allocator s.host.mem img hApart hPool.below) tidy_tests
    (fun j m page hTop => ⟨hTop, rfl⟩) hPool (loaded_start s.host img hPool.pool) hPlaced hImg hVm hRun
  obtain ⟨r, hLay⟩ := hLaid.lay
  rw [guestFrames, hLay]
  constructor
  · intro hLoads o f hFile hSize hRound hFrame
    obtain ⟨f', hFrame', hByte⟩ := hLaid.guestByte_eq hPlaced hPool (.inr hSize)
    obtain rfl : f = f' := Option.some.inj (hFrame.symm.trans hFrame')
    rw [if_neg (Nat.not_lt.mpr hFile), if_neg (Nat.not_le.mpr hRound), hLoads.bss o hFile hSize] at hByte
    exact (Option.some.inj hByte).symm
  · intro hTail
    refine ⟨fun o ho => ?_, fun o hFile hSize => ?_⟩
    · obtain ⟨f, _, hByte⟩ := hLaid.guestByte_eq hPlaced hPool (.inl ho)
      rw [hByte, if_pos ho]
    · obtain ⟨f, hFrame, hByte⟩ := hLaid.guestByte_eq hPlaced hPool (.inr hSize)
      rw [hByte, if_neg (Nat.not_lt.mpr hFile)]
      split
      · rfl
      · rename_i hRound
        rw [hTail o f hFile hSize (Nat.not_le.mp hRound) hFrame]

end

def memHypervisor (m : Mem) : Hypervisor := { bootHypervisor with host := { bootHypervisor.host with mem := m } }

def imageMem : Mem := fun b => if 0x40100000 ≤ b ∧ b < 0x40100032 then 0x5a else 0

theorem smallImg_apart : ImageApart bootHypervisor.host.allocator smallImg where
  order := by decide
  word := by decide
  apart := by
    intro k hFree
    have hk : k < 16 := hFree.1
    change 0x40100032 ≤ (0x40000 + k) * 4096 ∨ (0x40000 + k) * 4096 + 4096 ≤ 0x40100000
    omega

theorem imageMem_returns : returns (createVm (memHypervisor imageMem) (some smallCfg))
    (fun s => s.host.grants.all fun g => g.page != minusOne) = true := by
  decide +kernel

theorem smallFrames : guestFrames smallCfg smallImg bootHypervisor.host.allocator = [0x40001000, 0x40005000] := by
  decide +kernel

theorem createVm_loads_small : ∃ s', createVm (memHypervisor imageMem) (some smallCfg) = .ok s' ∧
    Loads smallCfg smallImg (memHypervisor imageMem) s' 0 := by
  obtain ⟨s', hRun, hAll⟩ := exists_of_returns imageMem_returns
  have hGranted : ∀ g ∈ s'.host.grants, Granted g := by
    intro g hg
    simpa [Granted] using List.all_eq_true.mp hAll g hg
  have hFree : ∀ k, bootHypervisor.host.allocator.Free k →
      Zero imageMem (bootHypervisor.host.allocator.pageAddr k) 4096 := by
    intro k hFree j hj
    have hk : k < 16 := hFree.1
    change (if 0x40100000 ≤ (0x40000 + k) * 4096 + j ∧ (0x40000 + k) * 4096 + j < 0x40100032 then 0x5a else 0) =
      (0 : UInt8)
    rw [if_neg (by omega)]
  have hZero := createVm_zeroed (s := memHypervisor imageMem) smallCfg_placed bootHypervisor_ramPool rfl rfl hFree hRun
    hGranted
  have hUnless : UnlessRefused GrantedZero (fun r => r.host.grants) (createVm (memHypervisor imageMem) (some smallCfg))
      (createVmWith (takeIf Tidy) (memHypervisor imageMem) (some smallCfg)) :=
    createVmWith_unless (fun _ g hOk => ⟨hOk.1, fun _ => hOk.2⟩) _ _
  have hTidy := hUnless.eq_ok hRun (by
    rintro ⟨g, hg, hNot⟩
    exact hNot ⟨hGranted g hg, (hZero g hg).resolve_left (by rintro ⟨⟩)⟩)
  obtain ⟨_, hLoads⟩ := createVm_loads_iff (s := memHypervisor imageMem) smallCfg_placed bootHypervisor_ramPool
    smallImg_apart rfl rfl hTidy
  refine ⟨s', hRun, hLoads.mpr ?_⟩
  intro o f _ hSize _ hFrame
  have ho : o < 100 := hSize
  change (guestFrames smallCfg smallImg bootHypervisor.host.allocator)[o / 4096]? = some f at hFrame
  rw [smallFrames, show o / 4096 = 0 by omega] at hFrame
  cases hFrame
  change (if 0x40100000 ≤ 0x40001000 + o % 4096 ∧ 0x40001000 + o % 4096 < 0x40100032 then 0x5a else 0) = (0 : UInt8)
  rw [if_neg (by omega)]

def staleByteMem : Mem := fun b => if b = 0x4000103c then 7 else 0

/-- The page with the stale byte becomes the last page of the image, and the guest finds the byte in its `.bss`. -/
theorem createVm_leaves_byte : ∃ s', createVm (memHypervisor staleByteMem) (some smallCfg) = .ok s' ∧
    guestFilesz smallImg ≤ 60 ∧ 60 < smallImg.size ∧ guestByte s' 0 (smallCfg.entrypoint + 60) = some 7 := by
  have hReturns : returns (createVm (memHypervisor staleByteMem) (some smallCfg))
      (fun s => guestByte s 0 (smallCfg.entrypoint + 60) == some 7) = true := by
    decide +kernel
  obtain ⟨s', hRun, hByte⟩ := exists_of_returns hReturns
  exact ⟨s', hRun, by decide, by decide, beq_iff_eq.mp hByte⟩

end HyperPoc
