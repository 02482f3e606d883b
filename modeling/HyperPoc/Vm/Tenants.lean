import HyperPoc.Library.AddressSpaces
import HyperPoc.Vm.Extends
import HyperPoc.Vm.Loading

/-! # VMs under one roof

The VMs that `create_vm` has brought up have pages of their own: tables, frames and SPI records. The
address spaces of their guests are separate memories, and one more VM changes none of them.
-/
namespace HyperPoc
open Library.Memory Library.RadixTable Library.Run Stage2 Vgic
set_option autoImplicit false

/-- A VM with the pages it has been given. -/
structure Tenant where
  cfg : VmConfig
  img : Guest
  data : List Nat
  node : Nat → Nat → Option Nat
  spis : Nat

def Tenant.Page (t : Tenant) (p : Nat) : Prop := p ∈ t.spis :: t.data ∨ ∃ l q, t.node l q = some p

def Tenant.place (t : Tenant) (ipa : Nat) : Option Nat :=
  if t.cfg.entrypoint / 4096 ≤ ipa / 4096 then (t.data[ipa / 4096 - t.cfg.entrypoint / 4096]?).map (· + ipa % 4096)
  else none

def ramWalk (ts : List Tenant) (i ipa : Nat) : Option Nat := ts[i]?.bind fun t => t.place ipa

/-- VM `i` runs for the tenant: its tables, its SPI records and its vcpus are in place. `a₀` is the page allocator
before the first VM. -/
structure Housed (a₀ : PageAllocator) (s : Hypervisor) (i : Nat) (t : Tenant) : Prop where
  placed : Placed t.cfg t.img
  size : t.data.length * 4096 = ramBytes t.cfg t.img
  tree : Tree s.host.mem (s.vms i).stage2Pt t.node
  leaf : ∀ key, leafDesc s.host.mem t.node key = guestLeaf t.cfg t.data key
  nodup : (t.spis :: t.data).Nodup
  tables : ∀ l q p, t.node l q = some p → p ∉ t.spis :: t.data
  pages : ∀ p, t.Page p → Taken a₀ s.host.allocator p
  vgic : ∃ g, (s.vms i).vgic = some g ∧ (s.vgics g).used = true ∧ (s.vgics g).spis = t.spis
  entries : ∀ k u, k < vcpuMax → (s.vms i).vcpus k = some u → (s.vcpus u).vm = some i ∧
    (s.vcpus u).state ≠ .unused

/-- The VMs of `ts` are housed apart from each other, on pages that were free in `h₀`; all other memory is as in
`h₀`. -/
structure Houses (h₀ : Host) (s : Hypervisor) (ts : List Tenant) : Prop where
  start : RamPool h₀.allocator
  pool : RamPool s.host.allocator
  basePfn : s.host.allocator.basePfn = h₀.allocator.basePfn
  totalPages : s.host.allocator.totalPages = h₀.allocator.totalPages
  grows : ∀ k, h₀.allocator.InUse k → s.host.allocator.InUse k
  granted : ∀ g ∈ s.host.grants, GrantedZero g
  zeroed : ∀ k, s.host.allocator.Free k → Zero s.host.mem (s.host.allocator.pageAddr k) 4096
  outside : ∀ b, (∀ k, h₀.allocator.Free k → b < h₀.allocator.pageAddr k ∨
    h₀.allocator.pageAddr k + 4096 ≤ b) →
    s.host.mem b = h₀.mem b
  used : ∀ i, i < vmMax → ((s.vms i).used = true ↔ i < ts.length)
  blank : ∀ i k, ts.length ≤ i → (s.vms i).vcpus k = none
  staff : ∀ u, (s.vcpus u).state ≠ .unused → ∃ i, i < ts.length ∧ (s.vcpus u).vm = some i
  housed : ∀ i t, ts[i]? = some t → Housed h₀.allocator s i t
  apart : ∀ (i j : Nat) (t t' : Tenant) (p : Nat), ts[i]? = some t → ts[j]? = some t' → t.Page p → t'.Page p →
    i = j

/-- What the guest of VM `i` has of its address space in memory, without the device. -/
def guestRam (m : Mem) (root ipa : Nat) : Option Nat :=
  (archWalk m root ipa).bind fun t => if t.pa / 4096 = uartBase / 4096 then none else some t.pa

def ramByte (s : Hypervisor) (i ipa : Nat) : Option UInt8 := (guestRam s.host.mem (s.vms i).stage2Pt ipa).map s.host.mem

section
variable {a₀ : PageAllocator} {s : Hypervisor} {i : Nat} {t : Tenant}

theorem Tenant.place_some {ipa x : Nat} (h : t.place ipa = some x) : ∃ j f, t.data[j]? = some f ∧
    ipa / 4096 = t.cfg.entrypoint / 4096 + j ∧ x = f + ipa % 4096 := by
  rw [place] at h
  split at h
  · obtain ⟨f, hf, rfl⟩ := Option.map_eq_some_iff.mp h
    exact ⟨_, f, hf, by omega, rfl⟩
  · cases h

theorem Housed.inRam (h : Housed a₀ s i t) {ipa x : Nat} (hPlace : t.place ipa = some x) : InRam t.cfg t.img ipa := by
  obtain ⟨j, f, hf, hKey, _⟩ := Tenant.place_some hPlace
  have hLt := (List.getElem?_eq_some_iff.mp hf).1
  have hAligned := h.placed.aligned
  rw [InRam, InWindow, ← h.size]
  omega

theorem Housed.place_isSome (h : Housed a₀ s i t) (ipa : Nat) : (t.place ipa).isSome ↔ InRam t.cfg t.img ipa := by
  constructor
  · intro hSome
    obtain ⟨x, hx⟩ := Option.isSome_iff_exists.mp hSome
    exact h.inRam hx
  · intro hRam
    have hAligned := h.placed.aligned
    rw [InRam, InWindow, ← h.size] at hRam
    rw [Tenant.place, if_pos (by omega), List.getElem?_eq_getElem (by omega)]
    rfl

theorem Housed.guestRam_eq (h : Housed a₀ s i t) (hPool : RamPool a₀) (ipa : Nat) :
    guestRam s.host.mem (s.vms i).stage2Pt ipa = t.place ipa := by
  have hBelow := h.placed.below
  by_cases hIpa : ipa < 2 ^ 48
  · rw [guestRam, h.tree.archWalk_eq ipa hIpa, h.leaf, guestLeaf]
    split
    · rename_i hUart
      have hDevice : (outputAddress (pageDesc uartBase uartAttr) + ipa % 4096) / 4096 * 4096 = uartBase :=
        pageDesc_frame (by decide) (by decide) (by decide)
      have hNone : t.place ipa = none := by
        by_contra hSome
        obtain ⟨x, hx⟩ := Option.ne_none_iff_exists'.mp hSome
        apply h.placed.apart _ List.mem_cons_self ipa (h.inRam hx)
        rw [uartBase] at hUart
        rw [InWindow, uartBase, pageSize]
        omega
      rw [hNone, Option.map_some, Option.bind_some]
      refine if_pos ?_
      rw [show uartBase / 4096 = uartBase / 4096 * 4096 / 4096 by decide]
      dsimp only
      omega
    · rw [Tenant.place]
      split
      · cases hFrame : t.data[ipa / 4096 - t.cfg.entrypoint / 4096]? with
        | none => rfl
        | some f =>
          have hTaken := h.pages f (.inl (List.mem_cons_of_mem _ (List.mem_of_getElem? hFrame)))
          obtain ⟨hAligned, hTop⟩ := hTaken.bounds hPool.below
          have hNe := hTaken.ne_uart hPool
          simp only [Option.map_some, Option.bind_some]
          rw [pageDesc, pageDesc_output f ramAttr (by decide) hAligned (by omega)]
          refine if_neg ?_
          rw [uartBase] at hNe ⊢
          omega
      · rfl
  · have hWalk : archWalk s.host.mem (s.vms i).stage2Pt ipa = none := by rw [archWalk, if_neg hIpa]
    have hNone : t.place ipa = none := by
      by_contra hSome
      obtain ⟨x, hx⟩ := Option.ne_none_iff_exists'.mp hSome
      have hRam := h.inRam hx
      rw [InRam, InWindow] at hRam
      omega
    rw [guestRam, hWalk, hNone]
    rfl

end

section
variable {h₀ : Host} {s : Hypervisor} {ts : List Tenant}

/-- Each byte of the pool is behind one address of one VM at most. -/
theorem Houses.separate (h : Houses h₀ s ts) : Library.AddressSpaces.Separate (ramWalk ts) := by
  intro i j a b x ha hb
  obtain ⟨t, ht, hPlace⟩ := Option.bind_eq_some_iff.mp ha
  obtain ⟨t', ht', hPlace'⟩ := Option.bind_eq_some_iff.mp hb
  obtain ⟨k, f, hf, hKey, hx⟩ := Tenant.place_some hPlace
  obtain ⟨k', f', hf', hKey', hx'⟩ := Tenant.place_some hPlace'
  have hMem := List.mem_cons_of_mem t.spis (List.mem_of_getElem? hf)
  have hMem' := List.mem_cons_of_mem t'.spis (List.mem_of_getElem? hf')
  -- frames are pages, so a common byte makes them the same page
  have hAligned : ∀ p, Taken h₀.allocator s.host.allocator p → p % 4096 = 0 := by
    rintro p ⟨n, _, _, rfl⟩
    rw [PageAllocator.pageAddr]
    omega
  have hFrame := hAligned f ((h.housed i t ht).pages f (.inl hMem))
  have hFrame' := hAligned f' ((h.housed j t' ht').pages f' (.inl hMem'))
  have hSame : f = f' := by omega
  subst hSame
  obtain rfl := h.apart i j t t' f ht ht' (.inl hMem) (.inl hMem')
  rw [ht] at ht'
  cases ht'
  have hIndex : k = k' := by
    apply (List.getElem?_inj (List.getElem?_eq_some_iff.mp hf).1 (List.nodup_cons.mp (h.housed i t ht).nodup).2).mp
    rw [hf, hf']
  exact ⟨rfl, by omega⟩

theorem Houses.ramByte_eq (h : Houses h₀ s ts) {i : Nat} (hi : i < ts.length) :
    ramByte s i = Library.AddressSpaces.view (ramWalk ts) s.host.mem i := by
  have ht := List.getElem?_eq_getElem hi
  funext ipa
  rw [ramByte, (h.housed i _ ht).guestRam_eq h.start, Library.AddressSpaces.view, ramWalk, ht, Option.bind_some]

/-- From `s` to `s'` only memory in frames and SPI records has changed, and no record has been taken or given back. -/
structure Touches (ts : List Tenant) (s s' : Hypervisor) : Prop where
  mem : ∀ b, (∀ t ∈ ts, ∀ p ∈ t.spis :: t.data, b < p ∨ p + 4096 ≤ b) → s'.host.mem b = s.host.mem b
  pages : s'.host.allocator = s.host.allocator ∧ s'.host.grants = s.host.grants
  vms : s'.vms = s.vms
  vgics : ∀ g, (s'.vgics g).used = (s.vgics g).used ∧ (s'.vgics g).spis = (s.vgics g).spis
  vcpus : ∀ u, (s'.vcpus u).vm = (s.vcpus u).vm ∧ ((s'.vcpus u).state = .unused ↔ (s.vcpus u).state = .unused)

theorem Houses.tables_apart (h : Houses h₀ s ts) {i j l q page : Nat} {t t' : Tenant} (ht : ts[i]? = some t)
    (ht' : ts[j]? = some t') (hNode : t.node l q = some page) {p : Nat} (hp : p ∈ t'.spis :: t'.data) :
    page + 4096 ≤ p ∨ p + 4096 ≤ page := by
  refine ((h.housed i t ht).pages page (.inr ⟨l, q, hNode⟩)).disjoint ((h.housed j t' ht').pages p (.inl hp)) ?_
  rintro rfl
  obtain rfl := h.apart i j t t' page ht ht' (.inr ⟨l, q, hNode⟩) (.inl hp)
  rw [ht] at ht'
  cases ht'
  exact (h.housed i t ht).tables l q page hNode hp

theorem Houses.touch {s' : Hypervisor} (h : Houses h₀ s ts) (hTouch : Touches ts s s') : Houses h₀ s' ts := by
  obtain ⟨hAllocator, hGrants⟩ := hTouch.pages
  have hTaken : ∀ t ∈ ts, ∀ p ∈ t.spis :: t.data, Taken h₀.allocator s.host.allocator p := by
    intro t ht p hp
    obtain ⟨i, hi⟩ := List.getElem?_of_mem ht
    exact (h.housed i t hi).pages p (.inl hp)
  refine ⟨h.start, ?_, ?_, ?_, ?_, ?_, ?_, ?_, ?_, ?_, ?_, ?_, h.apart⟩
  · rw [hAllocator]
    exact h.pool
  · rw [hAllocator]
    exact h.basePfn
  · rw [hAllocator]
    exact h.totalPages
  · rw [hAllocator]
    exact h.grows
  · rw [hGrants]
    exact h.granted
  · rw [hAllocator]
    intro k hk j hj
    rw [hTouch.mem _ ?_]
    · exact h.zeroed k hk j hj
    · intro t ht p hp
      have hDisjoint := (hTaken t ht p hp).disjoint_free hk
      rw [PageAllocator.pageAddr, ← h.basePfn, ← PageAllocator.pageAddr] at hDisjoint
      omega
  · intro b hb
    rw [hTouch.mem b ?_]
    · exact h.outside b hb
    · intro t ht p hp
      obtain ⟨k, hFree, _, rfl⟩ := hTaken t ht p hp
      exact hb k hFree
  · rw [hTouch.vms]
    exact h.used
  · rw [hTouch.vms]
    exact h.blank
  · intro u hu
    obtain ⟨hVm, hState⟩ := hTouch.vcpus u
    rw [hVm]
    exact h.staff u fun hUnused => hu (hState.mpr hUnused)
  · intro i t ht
    have hHoused := h.housed i t ht
    have hTables : ∀ l q page b, t.node l q = some page → page ≤ b → b < page + 4096 →
        s'.host.mem b = s.host.mem b := by
      intro l q page b hNode hLow hHigh
      apply hTouch.mem
      intro t' ht' p hp
      obtain ⟨j, hj⟩ := List.getElem?_of_mem ht'
      have hApart := h.tables_apart ht hj hNode hp
      omega
    obtain ⟨hTree, hLeaf⟩ := hHoused.tree.of_sameTables hTables
    refine ⟨hHoused.placed, hHoused.size, ?_, ?_, hHoused.nodup, hHoused.tables, ?_, ?_, ?_⟩
    · rw [hTouch.vms]
      exact hTree
    · intro key
      rw [hLeaf, hHoused.leaf]
    · rw [hAllocator]
      exact hHoused.pages
    · obtain ⟨g, hg, hUsed, hSpis⟩ := hHoused.vgic
      obtain ⟨hUsed', hSpis'⟩ := hTouch.vgics g
      exact ⟨g, by rw [hTouch.vms]; exact hg, hUsed'.trans hUsed, hSpis'.trans hSpis⟩
    · intro k u hk hu
      rw [hTouch.vms] at hu
      obtain ⟨hVm, hState⟩ := hHoused.entries k u hk hu
      obtain ⟨hVm', hState'⟩ := hTouch.vcpus u
      exact ⟨hVm'.trans hVm, fun hUnused => hState (hState'.mp hUnused)⟩

end

section
variable {root : Nat} {a₀ : PageAllocator} {Ok Fr Seen Ok' Fr' Seen' : Grant → Prop}
  {Puts Puts' : Nat → Mem → Nat → Mem → Prop}
    {I J : List Nat → Host → (Nat → Nat → Option Nat) → Prop}

theorem Stage2.Account.and (h : Account root a₀ Ok Fr Seen Puts I) (h' : Account root a₀ Ok' Fr' Seen' Puts' J)
    (hOk : ∀ g, Ok g → Ok' g) (hFr : ∀ g, Fr g → Fr' g)
    (hPuts : ∀ j m page m', Puts j m page m' → Puts' j m page m') :
    Account root a₀ Ok Fr Seen Puts fun frames h node => I frames h node ∧ J frames h node where
  supply := fun frames =>
    { fresh := fun h₁ node hTree hInv hGrant => (h.supply frames).fresh h₁ node hTree hInv.1 hGrant
      keep := fun h₁ node l p i t hTree hInv hGrant hi ht =>
        ⟨(h.supply frames).keep h₁ node l p i t hTree hInv.1 hGrant hi ht,
          (h'.supply frames).keep h₁ node l p i t hTree hInv.2 (hOk _ hGrant) hi ht⟩
      leaf := fun h₁ node key t w hTree hInv ht =>
        ⟨(h.supply frames).leaf h₁ node key t w hTree hInv.1 ht,
          (h'.supply frames).leaf h₁ node key t w hTree hInv.2 ht⟩ }
  root := by
    intro h₁ hInv hGrant
    obtain ⟨hNe, hZero, hRoot⟩ := h.root h₁ hInv.1 hGrant
    exact ⟨hNe, hZero, hRoot, (h'.root h₁ hInv.2 (hOk _ hGrant)).2.2⟩
  owned := fun frames h₁ node hInv => h.owned frames h₁ node hInv.1
  granted := h.granted
  puts := h.puts
  frame := by
    intro frames h₁ node m hInv hGrant hPut
    obtain ⟨hSeen, hFrame⟩ := h.frame frames h₁ node m hInv.1 hGrant hPut
    exact ⟨hSeen, hFrame, (h'.frame frames h₁ node m hInv.2 (hFr _ hGrant) (hPuts _ _ _ _ hPut)).2⟩
  zero := h.zero

end

structure ImageOutside (a : PageAllocator) (img : Guest) : Prop where
  order : img.start ≤ img.stop
  word : img.stop < 2 ^ 64
  apart : ∀ k, k < a.totalPages → img.stop ≤ a.pageAddr k ∨ a.pageAddr k + 4096 ≤ img.start

/-- The RAM of a new VM: its image, and zeros behind it. -/
def loadedRam (m : Mem) (cfg : VmConfig) (img : Guest) (ipa : Nat) : Option UInt8 :=
  if cfg.entrypoint ≤ ipa ∧ ipa < cfg.entrypoint + ramBytes cfg img then
    some (if ipa - cfg.entrypoint < guestFilesz img then m (img.start + (ipa - cfg.entrypoint)) else 0)
  else none

section
variable {h₀ : Host} {s s' : Hypervisor} {ts : List Tenant} {cfg : VmConfig} {img : Guest}

theorem Houses.allocvm_eq (h : Houses h₀ s ts) {s₀ : Hypervisor} {i : Nat} (hVm : allocvm s = some (s₀, i)) :
    i = ts.length := by
  rw [allocvm] at hVm
  split at hVm
  · rename_i k hFree
    cases hVm
    obtain ⟨hUnused, hMem, hBelow⟩ := List.find?_range_eq_some.mp hFree
    have hLt : i < vmMax := List.mem_range.mp hMem
    have hGe : ts.length ≤ i := by
      by_contra hNot
      rw [(h.used i hLt).mpr (by omega)] at hUnused
      cases hUnused
    by_contra hNe
    have hUsed : (s.vms ts.length).used = true := by simpa using hBelow ts.length (by omega)
    exact Nat.lt_irrefl _ ((h.used ts.length (by omega)).mp hUsed)
  · cases hVm

theorem createVm_takes (hImg : cfg.guestImg = some img) (hRun : createVm s (some cfg) = .ok s') :
    ∃ s₀ i, allocvm s = some (s₀, i) := by
  cases hVm : allocvm s with
  | none =>
    simp only [createVm, hImg, hVm] at hRun
    cases hRun
  | some r => exact ⟨r.1, r.2, rfl⟩

theorem createVm_tidy {s₀ : Hypervisor} {i : Nat} (hPlaced : Placed cfg img) (hPool : RamPool s.host.allocator)
    (hImg : cfg.guestImg = some img) (hVm : allocvm s = some (s₀, i))
    (hFree : ∀ k, s.host.allocator.Free k → Zero s.host.mem (s.host.allocator.pageAddr k) 4096)
    (hOld : ∀ g ∈ s.host.grants, GrantedZero g) (hRun : createVm s (some cfg) = .ok s')
    (hGranted : ∀ g ∈ s'.host.grants, Granted g) :
    createVmWith (takeIf Tidy) s (some cfg) = .ok s' ∧ ∀ g ∈ s'.host.grants, GrantedZero g := by
  have hZero : ∀ g ∈ s'.host.grants, GrantedZero g := by
    intro g hg
    obtain hBefore | hSince := createVm_zeroed hPlaced hPool hImg hVm hFree hRun hGranted g hg
    · exact hOld g hBefore
    · exact ⟨hGranted g hg, hSince⟩
  have hUnless : UnlessRefused GrantedZero (fun r => r.host.grants) (createVm s (some cfg))
      (createVmWith (takeIf Tidy) s (some cfg)) :=
    createVmWith_unless (fun _ g hOk => ⟨hOk.1, fun _ => hOk.2⟩) s (some cfg)
  refine ⟨hUnless.eq_ok hRun ?_, hZero⟩
  rintro ⟨g, hg, hNot⟩
  exact hNot (hZero g hg)

/-- What is recorded of the pages of a new VM: what is loaded, and that free pages stay zeroed. -/
def Lodged (a : PageAllocator) (m : Mem) (img : Guest) (frames : List Nat) (h : Host)
    (node : Nat → Nat → Option Nat) :
    Prop :=
  Loaded a m img frames h node ∧ OwnedZeroed a frames h node

theorem createVm_lodged {s₀ : Hypervisor} {i : Nat} (hPlaced : Placed cfg img) (hPool : RamPool s.host.allocator)
    (hApart : ImageApart s.host.allocator img) (hImg : cfg.guestImg = some img) (hVm : allocvm s = some (s₀, i))
    (hFree : ∀ k, s.host.allocator.Free k → Zero s.host.mem (s.host.allocator.pageAddr k) 4096)
    (hRun : createVmWith (takeIf Tidy) s (some cfg) = .ok s') :
    ∃ data node, Laid (Lodged s.host.allocator s.host.mem img) cfg img s s' i data node := by
  have hAccount : ∀ root, Account root s.host.allocator GrantedZero Granted (fun _ => True)
      (fun j m page m' => page + 4096 ≤ 2 ^ 48 ∧ m' = frameContent img j m page)
      (Lodged s.host.allocator s.host.mem img) := by
    intro root
    refine (loadedAccount root s.host.allocator s.host.mem img hApart hPool.below).and
      (zeroedLedger root s.host.allocator hPool.below).account (fun _ hOk => hOk.1) (fun _ hOk => hOk) ?_
    rintro j m page m' ⟨hTop, rfl⟩
    exact frameContent_sameOutside img j m hTop
  obtain ⟨_, data, node, hLaid⟩ := createVmWith_laid hAccount tidy_tests
    (fun j m page hTop => ⟨hTop, rfl⟩) hPool
    ⟨loaded_start s.host img hPool.pool, owned_start s.host hPool.pool, hFree⟩ hPlaced hImg hVm hRun
  exact ⟨data, node, hLaid⟩

/-- `create_vm` has brought VM `i` from `s` to `s'`, and `t` is what it has been given. -/
structure Lodges (s s' : Hypervisor) (i : Nat) (t : Tenant) : Prop where
  records : Extends i s s'
  used : (s'.vms i).used = true
  vgic : ∃ g, (s'.vms i).vgic = some g ∧ (s'.vgics g).used = true ∧ (s'.vgics g).spis = t.spis
  placed : Placed t.cfg t.img
  size : t.data.length * 4096 = ramBytes t.cfg t.img
  tree : Tree s'.host.mem (s'.vms i).stage2Pt t.node
  leaf : ∀ key, leafDesc s'.host.mem t.node key = guestLeaf t.cfg t.data key
  loaded : Loaded s.host.allocator s.host.mem t.img (t.spis :: t.data.reverse) s'.host t.node
  zeroed : ∀ k, s'.host.allocator.Free k → Zero s'.host.mem (s.host.allocator.pageAddr k) 4096
  granted : ∀ g ∈ s'.host.grants, GrantedZero g

theorem Houses.imageApart (h : Houses h₀ s ts) (hOut : ImageOutside h₀.allocator img) :
    ImageApart s.host.allocator img := by
  refine ⟨hOut.order, hOut.word, ?_⟩
  intro k hFree
  have hApart := hOut.apart k (by rw [← h.totalPages]; exact hFree.1)
  rwa [PageAllocator.pageAddr, ← h.basePfn] at hApart

theorem Houses.lodges (h : Houses h₀ s ts) (hPlaced : Placed cfg img) (hImg : cfg.guestImg = some img)
    (hOut : ImageOutside h₀.allocator img) (hRun : createVm s (some cfg) = .ok s')
    (hGranted : ∀ g ∈ s'.host.grants, Granted g) :
    ∃ t, t.cfg = cfg ∧ t.img = img ∧ Lodges s s' ts.length t := by
  obtain ⟨s₀, i, hVm⟩ := createVm_takes hImg hRun
  obtain rfl := h.allocvm_eq hVm
  obtain ⟨hTidy, hZero⟩ := createVm_tidy hPlaced h.pool hImg hVm h.zeroed h.granted hRun hGranted
  obtain ⟨data, node, hLaid⟩ := createVm_lodged hPlaced h.pool (h.imageApart hOut) hImg hVm h.zeroed hTidy
  obtain ⟨hExtends, hUsed, g, hg, hUsedVgic⟩ := createVm_extends hVm (h.blank _ 0 (Nat.le_refl _)) hRun
  obtain ⟨v, hv, hLoaded, hZeroed⟩ := hLaid.vgic
  rw [hg] at hv
  cases hv
  exact ⟨⟨cfg, img, data, node, (s'.vgics g).spis⟩, rfl, rfl, hExtends, hUsed, ⟨g, hg, hUsedVgic, rfl⟩,
    hPlaced, hLaid.size, hLaid.tree, hLaid.leaf, hLoaded, hZeroed.zeroed, hZero⟩

end

section
variable {h₀ : Host} {s s' : Hypervisor} {ts : List Tenant} {t : Tenant}

theorem Lodges.pages {i : Nat} (hNew : Lodges s s' i t) {p : Nat} (hp : t.Page p) :
    Taken s.host.allocator s'.host.allocator p := by
  obtain hFrame | ⟨l, q, hNode⟩ := hp
  · apply hNew.loaded.taken
    rwa [List.mem_cons, List.mem_reverse, ← List.mem_cons]
  · exact (hNew.loaded.tables l q p hNode).1

theorem Lodges.pageAddr {i : Nat} (hNew : Lodges s s' i t) (k : Nat) :
    s'.host.allocator.pageAddr k = s.host.allocator.pageAddr k := by
  rw [PageAllocator.pageAddr, PageAllocator.pageAddr, hNew.loaded.basePfn]

theorem Houses.taken (h : Houses h₀ s ts) {a : PageAllocator} {p : Nat} (hTaken : Taken s.host.allocator a p) :
    Taken h₀.allocator a p := by
  obtain ⟨k, ⟨hk, hFree⟩, hUsed, rfl⟩ := hTaken
  refine ⟨k, ⟨by rw [← h.totalPages]; exact hk, ?_⟩, hUsed, ?_⟩
  · rw [← PageAllocator.not_inUse]
    intro hUsed₀
    exact PageAllocator.not_inUse.mpr hFree (h.grows k hUsed₀)
  · rw [PageAllocator.pageAddr, PageAllocator.pageAddr, h.basePfn]

theorem Houses.new_apart (h : Houses h₀ s ts) {a : PageAllocator} {i p q : Nat} {t : Tenant} (ht : ts[i]? = some t)
    (hp : t.Page p) (hq : Taken s.host.allocator a q) : q + 4096 ≤ p ∨ p + 4096 ≤ q := by
  obtain ⟨k, hFree, _, rfl⟩ := hq
  have hDisjoint := ((h.housed i t ht).pages p hp).disjoint_free hFree
  rwa [PageAllocator.pageAddr, ← h.basePfn, ← PageAllocator.pageAddr] at hDisjoint

theorem Houses.same_byte (h : Houses h₀ s ts) (hNew : Lodges s s' ts.length t) {i p b : Nat} {t' : Tenant}
    (ht : ts[i]? = some t') (hp : t'.Page p) (hLow : p ≤ b) (hHigh : b < p + 4096) :
    s'.host.mem b = s.host.mem b := by
  apply hNew.loaded.outside
  intro q hq
  have hApart := h.new_apart ht hp hq
  omega

theorem Houses.old_housed (h : Houses h₀ s ts) (hNew : Lodges s s' ts.length t) {i : Nat} {t' : Tenant}
    (ht : ts[i]? = some t') : Housed h₀.allocator s' i t' := by
  have hHoused := h.housed i t' ht
  have hi : i ≠ ts.length := by
    have hLt := (List.getElem?_eq_some_iff.mp ht).1
    omega
  have hVm := hNew.records.vms i hi
  have hTables : ∀ l q page b, t'.node l q = some page → page ≤ b → b < page + 4096 →
      s'.host.mem b = s.host.mem b :=
    fun l q page b hNode hLow hHigh => h.same_byte hNew ht (.inr ⟨l, q, hNode⟩) hLow hHigh
  obtain ⟨hTree, hLeaf⟩ := hHoused.tree.of_sameTables hTables
  refine ⟨hHoused.placed, hHoused.size, ?_, ?_, hHoused.nodup, hHoused.tables, ?_, ?_, ?_⟩
  · rw [hVm]
    exact hTree
  · intro key
    rw [hLeaf, hHoused.leaf]
  · intro p hp
    exact (hHoused.pages p hp).mono hNew.loaded.grows
  · obtain ⟨g, hg, hUsed, hSpis⟩ := hHoused.vgic
    have hSame := hNew.records.vgics g hUsed
    exact ⟨g, by rw [hVm]; exact hg, by rw [hSame]; exact hUsed, by rw [hSame]; exact hSpis⟩
  · intro k u hk hu
    rw [hVm] at hu
    obtain ⟨hOwn, hState⟩ := hHoused.entries k u hk hu
    obtain hSame | ⟨hFree | hOther, _⟩ := hNew.records.vcpus u
    · rw [hSame]
      exact ⟨hOwn, hState⟩
    · exact absurd hFree hState
    · rw [hOwn] at hOther
      exact absurd (Option.some.inj hOther) hi

theorem Houses.new_housed (h : Houses h₀ s ts) (hNew : Lodges s s' ts.length t) :
    Housed h₀.allocator s' ts.length t := by
  refine ⟨hNew.placed, hNew.size, hNew.tree, hNew.leaf, ?_, ?_, fun p hp => h.taken (hNew.pages hp), hNew.vgic, ?_⟩
  · have hNodup := hNew.loaded.nodup
    rwa [List.nodup_cons, List.nodup_reverse, List.mem_reverse, ← List.nodup_cons] at hNodup
  · intro l q p hNode hFrame
    apply (hNew.loaded.tables l q p hNode).2
    rwa [List.mem_cons, List.mem_reverse, ← List.mem_cons]
  · intro k u hk hu
    obtain hOld | hStaff := hNew.records.entries k u hu
    · rw [h.blank _ k (Nat.le_refl _)] at hOld
      cases hOld
    · exact hStaff

theorem Houses.lodge (h : Houses h₀ s ts) (hNew : Lodges s s' ts.length t) : Houses h₀ s' (ts ++ [t]) := by
  have hLoaded := hNew.loaded
  have hNever : ∀ (i p : Nat) (t' : Tenant), ts[i]? = some t' → t'.Page p → ¬t.Page p := by
    intro i p t' ht' hp' hp
    have hApart := h.new_apart ht' hp' (hNew.pages hp)
    omega
  refine ⟨h.start, ⟨hLoaded.pool, ?_, ?_⟩, hLoaded.basePfn.trans h.basePfn, hLoaded.totalPages.trans h.totalPages,
    fun k hk => hLoaded.grows k (h.grows k hk), hNew.granted, ?_, ?_, ?_, ?_, ?_, ?_, ?_⟩
  · rw [hLoaded.basePfn, hLoaded.totalPages]
    exact h.pool.below
  · intro k hk
    rw [hNew.pageAddr]
    exact h.pool.apart k (by rw [← hLoaded.totalPages]; exact hk)
  · intro k hk
    rw [hNew.pageAddr]
    exact hNew.zeroed k hk
  · -- memory outside the pool of `h₀`
    intro b hb
    rw [hLoaded.outside b ?_]
    · exact h.outside b hb
    · intro p hp
      obtain ⟨k, hFree, _, rfl⟩ := h.taken hp
      exact hb k hFree
  · intro i hi
    rw [List.length_append, List.length_singleton]
    obtain rfl | hNe := eq_or_ne i ts.length
    · simp [hNew.used]
    · rw [hNew.records.vms i hNe, h.used i hi]
      omega
  · intro i k hi
    rw [List.length_append, List.length_singleton] at hi
    rw [hNew.records.vms i (by omega)]
    exact h.blank i k (by omega)
  · intro u hu
    rw [List.length_append, List.length_singleton]
    obtain hSame | ⟨_, hVm, _⟩ := hNew.records.vcpus u
    · rw [hSame] at hu ⊢
      obtain ⟨i, hi, hVm⟩ := h.staff u hu
      exact ⟨i, by omega, hVm⟩
    · exact ⟨ts.length, by omega, hVm⟩
  · intro i t' ht'
    obtain hOld | ⟨rfl, rfl⟩ := Library.AddressSpaces.getElem?_concat ht'
    · exact h.old_housed hNew hOld
    · exact h.new_housed hNew
  · -- a page of an old VM was in use when the new one took its own
    intro i j t₁ t₂ p h₁ h₂ hp hp'
    obtain hOld | ⟨rfl, rfl⟩ := Library.AddressSpaces.getElem?_concat h₁
    · obtain hOld' | ⟨rfl, rfl⟩ := Library.AddressSpaces.getElem?_concat h₂
      · exact h.apart i j t₁ t₂ p hOld hOld' hp hp'
      · exact (hNever i p t₁ hOld hp hp').elim
    · obtain hOld' | ⟨rfl, rfl⟩ := Library.AddressSpaces.getElem?_concat h₂
      · exact (hNever j p t₂ hOld' hp' hp).elim
      · rfl

theorem Houses.image_eq (h : Houses h₀ s ts) {img : Guest} (hOut : ImageOutside h₀.allocator img) {o : Nat}
    (ho : o < guestFilesz img) : s.host.mem (img.start + o) = h₀.mem (img.start + o) := by
  have hStop := (h.imageApart hOut).filesz
  apply h.outside
  intro k hFree
  have hApart := hOut.apart k hFree.1
  omega

theorem Houses.new_byte (h : Houses h₀ s ts) (hNew : Lodges s s' ts.length t)
    (hOut : ImageOutside h₀.allocator t.img) {j f o : Nat} (hf : t.data[j]? = some f) (ho : o < 4096) :
    s'.host.mem (f + o) =
      if j * 4096 + o < guestFilesz t.img then h₀.mem (t.img.start + (j * 4096 + o)) else 0 := by
  have hIndex := (List.getElem?_eq_some_iff.mp hf).1
  have hFrame : (t.spis :: t.data.reverse).reverse[j]? = some f := by
    rw [List.reverse_cons, List.reverse_reverse, List.getElem?_append_left hIndex, hf]
  obtain ⟨k, hFree, _, rfl⟩ := hNew.pages (.inl (List.mem_cons_of_mem _ (List.mem_of_getElem? hf)))
  rw [hNew.loaded.content j _ hFrame o ho, loadedByte]
  split
  · rename_i hFile
    exact h.image_eq hOut hFile
  · split
    · rfl
    · exact h.zeroed k hFree o ho

theorem Houses.new_ram (h : Houses h₀ s ts) (hNew : Lodges s s' ts.length t)
    (hOut : ImageOutside h₀.allocator t.img) :
    ramByte s' ts.length = loadedRam h₀.mem t.cfg t.img := by
  have hHoused := h.new_housed hNew
  have hAligned := hNew.placed.aligned
  funext ipa
  rw [ramByte, hHoused.guestRam_eq h.start, loadedRam]
  cases hPlace : t.place ipa with
  | none =>
    rw [if_neg, Option.map_none]
    intro hRam
    have hSome := (hHoused.place_isSome ipa).mpr hRam
    rw [hPlace] at hSome
    cases hSome
  | some x =>
    obtain ⟨j, f, hf, hKey, rfl⟩ := Tenant.place_some hPlace
    have hRam : t.cfg.entrypoint ≤ ipa ∧ ipa < t.cfg.entrypoint + ramBytes t.cfg t.img := hHoused.inRam hPlace
    have hOffset : j * 4096 + ipa % 4096 = ipa - t.cfg.entrypoint := by omega
    rw [if_pos hRam, Option.map_some, h.new_byte hNew hOut hf (Nat.mod_lt _ (by decide)), hOffset]

theorem Houses.old_ram (h : Houses h₀ s ts) (hNew : Lodges s s' ts.length t) {i : Nat} (hi : i < ts.length) :
    ramByte s' i = ramByte s i := by
  have ht := List.getElem?_eq_getElem hi
  funext ipa
  rw [ramByte, ramByte, (h.old_housed hNew ht).guestRam_eq h.start, (h.housed i _ ht).guestRam_eq h.start]
  cases hPlace : ts[i].place ipa with
  | none => rfl
  | some x =>
    obtain ⟨j, f, hf, _, rfl⟩ := Tenant.place_some hPlace
    rw [Option.map_some, Option.map_some, h.same_byte hNew ht (.inl (List.mem_cons_of_mem _ (List.mem_of_getElem? hf)))]
    · omega
    · omega

end

end HyperPoc
