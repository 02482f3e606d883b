import HyperPoc.Stage2.Translation
import HyperPoc.Virtio.Queue
import HyperPoc.Vm.Isolation

/-! # What the backend may touch

The backend runs on behalf of a guest. It may reach the frames its stage-2 table maps and the image
of the RAM disk. In the space `create_vm` builds, neither holds a table, so that rewriting any of
these bytes leaves the translation as it is.
-/
namespace HyperPoc.Virtio
open Library.Memory Library.RadixTable Library.Run Stage2
set_option autoImplicit false

/-- The byte at host address `b` belongs to a frame that some valid page maps. -/
def GuestByte (m : Mem) (root b : Nat) : Prop :=
  ∃ ipa t, archWalk m root ipa = some t ∧ t.pa / 4096 = b / 4096

def InImage (disk b : Nat) : Prop := disk ≤ b ∧ b < disk + fsimgSize * blockSize

def Confined (m : Mem) (root disk b : Nat) : Prop := GuestByte m root b ∨ InImage disk b

structure Space (m : Mem) (root disk : Nat) (node : Nat → Nat → Option Nat) : Prop where
  tree : Tree m root node
  frames : ∀ b l p t, GuestByte m root b → node l p = some t → ¬(t ≤ b ∧ b < t + 4096)
  image : ∀ b l p t, InImage disk b → node l p = some t → ¬(t ≤ b ∧ b < t + 4096)
  apart : ∀ b, GuestByte m root b → ¬InImage disk b
  bound : disk + fsimgSize * blockSize < 2 ^ 64

theorem archWalk_lt {m : Mem} {root ipa : Nat} {t : Translation} (h : archWalk m root ipa = some t) :
    ipa < 2 ^ 48 := by
  by_contra hGe
  rw [archWalk, if_neg hGe] at h
  cases h

section
variable {m m' : Mem} {root disk : Nat} {node : Nat → Nat → Option Nat}

theorem guestByte_of_walk {ipa : Nat} {t : Translation} (h : archWalk m root ipa = some t) :
    GuestByte m root t.pa := ⟨ipa, t, h, rfl⟩

theorem Space.walk_lt (h : Space m root disk node) {ipa : Nat} {t : Translation}
    (hWalk : archWalk m root ipa = some t) : t.pa < 2 ^ 48 := by
  rw [h.tree.archWalk_eq ipa (archWalk_lt hWalk)] at hWalk
  obtain ⟨desc, _, rfl⟩ := Option.map_eq_some_iff.mp hWalk
  have hLt := outputAddress_lt desc
  have hAligned := outputAddress_aligned desc
  dsimp only
  omega

theorem Space.walk_add (h : Space m root disk node) {ipa : Nat} {t : Translation}
    (hWalk : archWalk m root ipa = some t) (hAligned : ipa % 4096 = 0) {i : Nat} (hi : i < 4096) :
    archWalk m root (ipa + i) = some ⟨t.desc, t.pa + i⟩ := by
  have hIpa := archWalk_lt hWalk
  have hPage : (ipa + i) / 4096 = ipa / 4096 := by omega
  have hOffset : (ipa + i) % 4096 = i := by omega
  rw [h.tree.archWalk_eq ipa hIpa] at hWalk
  rw [h.tree.archWalk_eq (ipa + i) (by omega), hPage, hOffset]
  obtain ⟨desc, hLeaf, rfl⟩ := Option.map_eq_some_iff.mp hWalk
  rw [hLeaf, hAligned, Option.map_some, Nat.add_zero]

theorem guestByte_congr (hWalk : ∀ ipa, archWalk m' root ipa = archWalk m root ipa) (b : Nat) :
    GuestByte m' root b ↔ GuestByte m root b := by
  simp only [GuestByte, hWalk]

theorem Space.walk_same (h : Space m root disk node)
    (hTables : ∀ l p t b, node l p = some t → t ≤ b → b < t + 4096 → m' b = m b) :
    Tree m' root node ∧ ∀ ipa, archWalk m' root ipa = archWalk m root ipa := by
  obtain ⟨hTree, hLeaf⟩ := h.tree.of_sameTables hTables
  refine ⟨hTree, fun ipa => ?_⟩
  obtain hIpa | hIpa := Nat.lt_or_ge ipa (2 ^ 48)
  · rw [hTree.archWalk_eq ipa hIpa, h.tree.archWalk_eq ipa hIpa, hLeaf]
  · rw [archWalk, archWalk, if_neg (by omega), if_neg (by omega)]

/-- Rewriting guest frames and disk blocks leaves the address space as it is. -/
theorem Space.of_confined (h : Space m root disk node)
    (hSame : ∀ b, ¬Confined m root disk b → m' b = m b) :
    Space m' root disk node ∧ ∀ ipa, archWalk m' root ipa = archWalk m root ipa := by
  have hTables : ∀ l p t b, node l p = some t → t ≤ b → b < t + 4096 → m' b = m b := by
    intro l p t b ht hLow hHigh
    apply hSame
    rintro (hGuest | hImage)
    · exact h.frames b l p t hGuest ht ⟨hLow, hHigh⟩
    · exact h.image b l p t hImage ht ⟨hLow, hHigh⟩
  obtain ⟨hTree, hWalk⟩ := h.walk_same hTables
  have hGuest := guestByte_congr hWalk
  refine ⟨⟨hTree, ?_, h.image, ?_, h.bound⟩, hWalk⟩
  · intro b l p t hb
    exact h.frames b l p t ((hGuest b).mp hb)
  · intro b hb
    exact h.apart b ((hGuest b).mp hb)

end

theorem guestToHost_of_tree {s : Backend} {node : Nat → Nat → Option Nat} (h : Tree s.host.mem s.stage2Pt node)
    {ipa : Nat} {t : Translation} (hWalk : archWalk s.host.mem s.stage2Pt ipa = some t) :
    virtioGuestToHost s ipa = .ok t.pa := by
  have hPa := (h.ipa2pa_iff ipa).mpr (.inl (by rw [hWalk]; rfl))
  rw [virtioGuestToHost, hPa, archPa, hWalk]

theorem Space.guestToHost {s : Backend} {node : Nat → Nat → Option Nat}
    (h : Space s.host.mem s.stage2Pt s.ramdiskStart node) {ipa : Nat} {t : Translation}
    (hWalk : archWalk s.host.mem s.stage2Pt ipa = some t) : virtioGuestToHost s ipa = .ok t.pa :=
  guestToHost_of_tree h.tree hWalk

/-- The image is linked into the hypervisor, away from the page pool and from the UART. -/
structure ImagePlaced (a : PageAllocator) (disk : Nat) : Prop where
  pool : ∀ k b, k < a.totalPages → InImage disk b → b / 4096 * 4096 ≠ a.pageAddr k
  uart : ∀ b, InImage disk b → b / 4096 * 4096 ≠ uartBase
  bound : disk + fsimgSize * blockSize < 2 ^ 64

section
variable {cfg : VmConfig} {img : Guest} {s s' : Hypervisor} {i disk : Nat} {data : List Nat}
  {node : Nat → Nat → Option Nat}

/-- Every frame is a page of the pool or the UART page. -/
theorem created_guestByte (h : Created (Owned s.host.allocator) cfg img s s' i data node)
    (hPool : RamPool s.host.allocator) {b : Nat} (hb : GuestByte s'.host.mem (s'.vms i).stage2Pt b) :
    (∃ k, k < s.host.allocator.totalPages ∧ b / 4096 * 4096 = s.host.allocator.pageAddr k) ∨
    b / 4096 * 4096 = uartBase := by
  obtain ⟨ipa, w, hWalk, hFrame⟩ := hb
  rw [← hFrame]
  obtain ⟨j, f, hf, _, hPa⟩ | ⟨_, hPa⟩ := h.walk hPool hWalk
  · obtain ⟨k, ⟨hk, _⟩, _, hAddr⟩ := h.taken (List.mem_of_getElem? hf)
    exact .inl ⟨k, hk, hPa.trans hAddr⟩
  · exact .inr hPa

theorem created_space (h : Created (Owned s.host.allocator) cfg img s s' i data node) (hPlaced : Placed cfg img)
    (hPool : RamPool s.host.allocator) (hImage : ImagePlaced s.host.allocator disk) :
    Space s'.host.mem (s'.vms i).stage2Pt disk node := by
  obtain ⟨v, _, hOwned⟩ := h.vgic
  have hPage : ∀ b t l p, node l p = some t → t ≤ b ∧ b < t + 4096 → b / 4096 * 4096 = t := by
    intro b t l p ht hIn
    have hAligned := h.tree.aligned l p t ht
    omega
  refine ⟨h.tree, ?_, ?_, ?_, hImage.bound⟩
  · rintro b l p t ⟨ipa, w, hWalk, hFrame⟩ ht hIn
    apply (h.isolated hPlaced hPool).tables ipa w l hWalk
    rw [hFrame, hPage b t l p ht hIn]
    exact h.tree.rep.table_of_node l p t ht
  · intro b l p t hb ht hIn
    obtain ⟨⟨k, ⟨hk, _⟩, _, hAddr⟩, _⟩ := hOwned.tables l p t ht
    exact hImage.pool k b hk hb ((hPage b t l p ht hIn).trans hAddr)
  · intro b hGuest hb
    obtain ⟨k, hk, hAddr⟩ | hAddr := created_guestByte h hPool hGuest
    · exact hImage.pool k b hk hb hAddr
    · exact hImage.uart b hb hAddr

end

theorem createVm_space {s s₀ s' : Hypervisor} {cfg : VmConfig} {img : Guest} {i disk : Nat}
    (hPlaced : Placed cfg img) (hPool : RamPool s.host.allocator) (hImage : ImagePlaced s.host.allocator disk)
    (hImg : cfg.guestImg = some img) (hVm : allocvm s = some (s₀, i))
    (hRun : createVm s (some cfg) = .ok s') (hZero : ∀ g ∈ s'.host.grants, GrantedZero g) :
    ∃ node, Space s'.host.mem (s'.vms i).stage2Pt disk node := by
  obtain ⟨data, node, hCreated⟩ := createVm_owned hPlaced hPool hImg hVm hRun hZero
  exact ⟨node, created_space hCreated hPlaced hPool hImage⟩

theorem bootHypervisor_image : ImagePlaced bootHypervisor.host.allocator 0x10000000 where
  pool := by
    intro k b _ hb
    change b / 4096 * 4096 ≠ (0x40000 + k) * 4096
    obtain ⟨_, hHigh⟩ := hb
    rw [fsimgSize, blockSize] at hHigh
    omega
  uart := by
    intro b hb
    obtain ⟨hLow, _⟩ := hb
    rw [uartBase]
    omega
  bound := by decide

/-- The small VM, with the image at 0x10000000 and the first page of its RAM in frame 0x40001000. Guest
page 0x1000 is not mapped, and no frame of the VM is at host address 0. -/
theorem smallSpace : ∃ s' node, createVm bootHypervisor (some smallCfg) = .ok s' ∧
    Space s'.host.mem 0x40000000 0x10000000 node ∧
    archWalk s'.host.mem 0x40000000 0x80000000 = some ⟨0x400014c7, 0x40001000⟩ ∧
    archWalk s'.host.mem 0x40000000 0x1000 = none ∧ ¬GuestByte s'.host.mem 0x40000000 0 := by
  obtain ⟨s', hRun, hZero, hRoot, hWalk, hNone⟩ := smallCfg_created
  obtain ⟨data, node, hCreated⟩ := createVm_created (fun root => ownedLedger root _ bootHypervisor_ramPool.below)
    bootHypervisor_ramPool (owned_start _ bootHypervisor_ramPool.pool) smallCfg_placed rfl rfl hRun hZero
  have hSpace := created_space hCreated smallCfg_placed bootHypervisor_ramPool bootHypervisor_image
  have hFrames := fun b => created_guestByte hCreated bootHypervisor_ramPool (b := b)
  rw [hRoot] at hSpace hFrames
  refine ⟨s', node, hRun, hSpace, hWalk, hNone, ?_⟩
  intro hGuest
  obtain ⟨k, _, hAddr⟩ | hAddr := hFrames 0 hGuest
  · change 0 = (0x40000 + k) * 4096 at hAddr
    omega
  · cases hAddr

/-- The guest page behind `page` is the next page in host memory as well. -/
def Adjacent (m : Mem) (root page : Nat) : Prop :=
  ∃ t t', archWalk m root page = some t ∧ archWalk m root (page + 4096) = some t' ∧ t'.pa = t.pa + 4096

/-- The `n` guest bytes from `ipa` on are the host bytes from `a` on. -/
def LiesAt (m : Mem) (root ipa n a : Nat) : Prop :=
  ∀ j < n, ∃ t, archWalk m root (ipa + j) = some t ∧ t.pa = a + j

section
variable {m : Mem} {root disk ipa n : Nat} {node : Nat → Nat → Option Nat} {t : Translation}

theorem Space.walk_same_page (h : Space m root disk node) (hWalk : archWalk m root ipa = some t) (ipa' : Nat)
    (hPage : ipa' / 4096 = ipa / 4096) :
    ∃ t', archWalk m root ipa' = some t' ∧ t'.pa + ipa % 4096 = t.pa + ipa' % 4096 := by
  have hIpa := archWalk_lt hWalk
  rw [h.tree.archWalk_eq ipa hIpa] at hWalk
  obtain ⟨desc, hLeaf, rfl⟩ := Option.map_eq_some_iff.mp hWalk
  refine ⟨⟨desc, outputAddress desc + ipa' % 4096⟩, ?_, by dsimp only; omega⟩
  rw [h.tree.archWalk_eq ipa' (by omega), hPage, hLeaf, Option.map_some]

/-- At most a page is translated right if it ends with its first page, or if the next one is adjacent. -/
theorem liesAt_iff (h : Space m root disk node) (hWalk : archWalk m root ipa = some t) (hn : n ≤ 4096) :
    LiesAt m root ipa n t.pa ↔ ipa % 4096 + n ≤ 4096 ∨ Adjacent m root (ipa / 4096 * 4096) := by
  obtain ⟨first, hFirst, hFirstPa⟩ := h.walk_same_page hWalk (ipa / 4096 * 4096) (by omega)
  constructor
  · intro hLies
    by_cases hEnd : ipa % 4096 + n ≤ 4096
    · exact .inl hEnd
    · right
      obtain ⟨next, hNext, hNextPa⟩ := hLies (4096 - ipa % 4096) (by omega)
      rw [show ipa + (4096 - ipa % 4096) = ipa / 4096 * 4096 + 4096 by omega] at hNext
      exact ⟨first, next, hFirst, hNext, by omega⟩
  · intro hCases j hj
    by_cases hIn : ipa % 4096 + j < 4096
    · obtain ⟨t', hWalk', hPa⟩ := h.walk_same_page hWalk (ipa + j) (by omega)
      exact ⟨t', hWalk', by omega⟩
    · rcases hCases with hEnd | ⟨first', next, hFirst', hNext, hPa⟩
      · omega
      · cases hFirst.symm.trans hFirst'
        obtain ⟨t', hWalk', hPa'⟩ := h.walk_same_page hNext (ipa + j) (by omega)
        exact ⟨t', hWalk', by omega⟩

end

theorem Space.liesAt {m : Mem} {root disk ipa : Nat} {node : Nat → Nat → Option Nat} {t : Translation}
    (h : Space m root disk node) (hWalk : archWalk m root ipa = some t) (hAligned : ipa % 4096 = 0) (k n : Nat)
    (hn : k + n ≤ 4096) : LiesAt m root (ipa + k) n (t.pa + k) := by
  intro j hj
  rw [Nat.add_assoc, Nat.add_assoc]
  exact ⟨_, h.walk_add hWalk hAligned (i := k + j) (by omega), rfl⟩

theorem LiesAt.mono {m : Mem} {root ipa n a : Nat} (h : LiesAt m root ipa n a) (k l : Nat) (hLe : k + l ≤ n) :
    LiesAt m root (ipa + k) l (a + k) := by
  intro j hj
  rw [Nat.add_assoc, Nat.add_assoc]
  exact h (k + j) (by omega)

/-- The `n` guest bytes from `ipa` on as a number, each byte through its own translation. -/
def guestLoad (m : Mem) (root : Nat) : Nat → Nat → Option Nat
  | _, 0 => some 0
  | ipa, n + 1 => do
    let t ← archWalk m root ipa
    let rest ← guestLoad m root (ipa + 1) n
    return (m t.pa).toNat + 256 * rest

theorem LiesAt.guestLoad {m : Mem} {root ipa n a : Nat} (h : LiesAt m root ipa n a) :
    guestLoad m root ipa n = some (load m a n) := by
  induction n generalizing ipa a with
  | zero => rfl
  | succ n ih =>
    obtain ⟨t, hWalk, hPa⟩ := h 0 (by omega)
    have hRest : LiesAt m root (ipa + 1) n (a + 1) := by
      intro j hj
      obtain ⟨t', hWalk', hPa'⟩ := h (j + 1) (by omega)
      exact ⟨t', by rw [Nat.add_right_comm]; exact hWalk', by omega⟩
    rw [Nat.add_zero] at hPa
    rw [Virtio.guestLoad, show archWalk m root ipa = some t from hWalk, ih hRest, load, ← hPa]
    rfl

/-- A VM with three pages of RAM. Between the first and the second, `create_vm` takes three pages for tables. -/
theorem threePages_returns : returns (createVm bootHypervisor (some (ramCfg 9000))) (fun s =>
    s.host.grants.all (fun g => g.page != minusOne) && ((s.vms 0).stage2Pt == 0x40000000 &&
    archWalk s.host.mem 0x40000000 0x80000000 == some ⟨0x400014c7, 0x40001000⟩ &&
    archWalk s.host.mem 0x40000000 0x80001000 == some ⟨0x400054c7, 0x40005000⟩ &&
    archWalk s.host.mem 0x40000000 0x80002000 == some ⟨0x400064c7, 0x40006000⟩ &&
    load s.host.mem 0x40002000 8 == 0x40007003)) = true := by
  decide +kernel

theorem threePages_placed : Placed (ramCfg 9000) smallImg := ramCfg_placed (by decide)

theorem threePages_created : ∃ s', createVm bootHypervisor (some (ramCfg 9000)) = .ok s' ∧
    (∀ g ∈ s'.host.grants, GrantedZero g) ∧ (s'.vms 0).stage2Pt = 0x40000000 ∧
    archWalk s'.host.mem 0x40000000 0x80000000 = some ⟨0x400014c7, 0x40001000⟩ ∧
    archWalk s'.host.mem 0x40000000 0x80001000 = some ⟨0x400054c7, 0x40005000⟩ ∧
    archWalk s'.host.mem 0x40000000 0x80002000 = some ⟨0x400064c7, 0x40006000⟩ ∧
    load s'.host.mem 0x40002000 8 = 0x40007003 := by
  obtain ⟨s', hRun, hZero, hTests⟩ := ramCfg_created threePages_placed threePages_returns
  simp only [Bool.and_eq_true, beq_iff_eq] at hTests
  obtain ⟨⟨⟨⟨hRoot, hFirst⟩, hSecond⟩, hThird⟩, hTable⟩ := hTests
  exact ⟨s', hRun, hZero, hRoot, hFirst, hSecond, hThird, hTable⟩

/-- What the VM with three pages is known to have, as its backend sees it. -/
structure ThreePages (m : Mem) (node : Nat → Nat → Option Nat) : Prop where
  space : Space m 0x40000000 0x10000000 node
  data : archWalk m 0x40000000 0x80000000 = some ⟨0x400014c7, 0x40001000⟩
  ring : archWalk m 0x40000000 0x80001000 = some ⟨0x400054c7, 0x40005000⟩
  used : archWalk m 0x40000000 0x80002000 = some ⟨0x400064c7, 0x40006000⟩

section
variable {m m' : Mem} {node : Nat → Nat → Option Nat}

theorem ThreePages.guest (h : ThreePages m node) {b : Nat}
    (hb : b / 4096 = 0x40001 ∨ b / 4096 = 0x40005 ∨ b / 4096 = 0x40006) : GuestByte m 0x40000000 b := by
  rcases hb with hb | hb | hb
  · exact ⟨_, _, h.data, hb.symm⟩
  · exact ⟨_, _, h.ring, hb.symm⟩
  · exact ⟨_, _, h.used, hb.symm⟩

theorem ThreePages.of_same (h : ThreePages m node)
    (hSame : ∀ b, ¬(b / 4096 = 0x40001 ∨ b / 4096 = 0x40005 ∨ b / 4096 = 0x40006) → m' b = m b) :
    ThreePages m' node := by
  obtain ⟨hSpace, hWalks⟩ := h.space.of_confined fun b hb => hSame b fun hIn => hb (.inl (h.guest hIn))
  refine ⟨hSpace, ?_, ?_, ?_⟩
  · rw [hWalks, h.data]
  · rw [hWalks, h.ring]
  · rw [hWalks, h.used]

end

theorem threePages_exists : ∃ m node, ThreePages m node ∧ load m 0x40002000 8 = 0x40007003 := by
  obtain ⟨s', hRun, hZero, hRoot, hFirst, hSecond, hThird, hTable⟩ := threePages_created
  obtain ⟨node, hSpace⟩ := createVm_space threePages_placed bootHypervisor_ramPool bootHypervisor_image rfl rfl hRun
    hZero
  rw [hRoot] at hSpace
  exact ⟨s'.host.mem, node, ⟨hSpace, hFirst, hSecond, hThird⟩, hTable⟩

end HyperPoc.Virtio
