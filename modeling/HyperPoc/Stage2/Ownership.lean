import HyperPoc.PageAllocRuns
import HyperPoc.Stage2.Map

/-! # Table pages and frames from one allocator

While an address space is built, table pages and the guest's frames come interleaved from the page
allocator. The pages handed out since the beginning are told apart: a page is a table or a frame,
never both, and none of them was in use at the beginning.
-/
namespace HyperPoc.Stage2
open Library.Memory Library.RadixTable
set_option autoImplicit false

/-- A page that was free in `a₀` and has been handed out since. -/
def Taken (a₀ a : PageAllocator) (page : Nat) : Prop :=
  ∃ k, a₀.Free k ∧ a.InUse k ∧ page = a₀.pageAddr k

/-- The tables `node` and the frames handed out since the allocator was `a₀`. -/
structure Owned (a₀ : PageAllocator) (frames : List Nat) (h : Host) (node : Nat → Nat → Option Nat) : Prop where
  pool : h.allocator.Pool
  basePfn : h.allocator.basePfn = a₀.basePfn
  totalPages : h.allocator.totalPages = a₀.totalPages
  grows : ∀ k, a₀.InUse k → h.allocator.InUse k
  tables : ∀ l p t, node l p = some t → Taken a₀ h.allocator t ∧ t ∉ frames
  taken : ∀ f ∈ frames, Taken a₀ h.allocator f
  nodup : frames.Nodup

structure OwnedZeroed (a₀ : PageAllocator) (frames : List Nat) (h : Host) (node : Nat → Nat → Option Nat) : Prop
    extends Owned a₀ frames h node where
  zeroed : ∀ k, h.allocator.Free k → Zero h.mem (a₀.pageAddr k) 4096

def Granted (g : Grant) : Prop := g.page ≠ minusOne

def GrantedZero (g : Grant) : Prop := g.page ≠ minusOne ∧ Zero g.mem g.page 4096

theorem Taken.mono {a₀ a a' : PageAllocator} {page : Nat} (h : Taken a₀ a page)
    (hGrows : ∀ k, a.InUse k → a'.InUse k) : Taken a₀ a' page := by
  obtain ⟨k, hFree, hUsed, rfl⟩ := h
  exact ⟨k, hFree, hGrows k hUsed, rfl⟩

theorem Taken.ne_free {a₀ a : PageAllocator} {page k : Nat} (h : Taken a₀ a page) (hFree : a.Free k) :
    page ≠ a₀.pageAddr k := by
  obtain ⟨j, _, hUsed, rfl⟩ := h
  intro hEq
  rw [PageAllocator.pageAddr_inj a₀ hEq, PageAllocator.InUse, hFree.2] at hUsed
  cases hUsed

theorem Taken.disjoint_free {a₀ a : PageAllocator} {page k : Nat} (h : Taken a₀ a page) (hFree : a.Free k) :
    a₀.pageAddr k + 4096 ≤ page ∨ page + 4096 ≤ a₀.pageAddr k := by
  have hNe := h.ne_free hFree
  obtain ⟨j, _, _, rfl⟩ := h
  rw [PageAllocator.pageAddr, PageAllocator.pageAddr] at hNe ⊢
  omega

theorem Taken.disjoint {a₀ a : PageAllocator} {p q : Nat} (hp : Taken a₀ a p) (hq : Taken a₀ a q)
    (hNe : p ≠ q) :
    p + 4096 ≤ q ∨ q + 4096 ≤ p := by
  obtain ⟨j, _, _, rfl⟩ := hp
  obtain ⟨k, _, _, rfl⟩ := hq
  rw [PageAllocator.pageAddr, PageAllocator.pageAddr] at *
  omega

section
variable {a₀ : PageAllocator} {frames : List Nat} {h : Host} {node : Nat → Nat → Option Nat}

theorem Owned.allocPage (hOwned : Owned a₀ frames h node) (hNe : h.allocPage.2 ≠ minusOne) :
    ∃ k, h.allocator.Free k ∧ a₀.Free k ∧ h.allocPage.2 = a₀.pageAddr k ∧
      h.allocPage.1.allocator = h.allocator.take k := by
  rcases PageAllocator.allocPage_cases h.allocator hOwned.pool with ⟨k, hNext, hAlloc⟩ | ⟨_, hAlloc⟩
  · obtain ⟨hLt, hBit⟩ := hNext.free
    refine ⟨k, ⟨hLt, hBit⟩, ⟨hOwned.totalPages ▸ hLt, ?_⟩, ?_, ?_⟩
    · rw [← PageAllocator.not_inUse]
      intro hUsed
      exact PageAllocator.not_inUse.mpr hBit (hOwned.grows k hUsed)
    · rw [Host.allocPage, hAlloc]
      rw [PageAllocator.pageAddr, PageAllocator.pageAddr, hOwned.basePfn]
    · rw [Host.allocPage, hAlloc]
  · exact False.elim (hNe (by rw [Host.allocPage, hAlloc]))

theorem Owned.allocPage_new (hOwned : Owned a₀ frames h node) (hNe : h.allocPage.2 ≠ minusOne) :
    h.allocPage.2 ∉ frames ∧ (∀ l p, node l p ≠ some h.allocPage.2) ∧
    Taken a₀ h.allocPage.1.allocator h.allocPage.2 := by
  obtain ⟨k, hFree, hFree₀, hPage, hTake⟩ := hOwned.allocPage hNe
  refine ⟨?_, ?_, k, hFree₀, ?_, hPage⟩
  · intro hMem
    exact (hOwned.taken _ hMem).ne_free hFree hPage
  · intro l p hNode
    exact (hOwned.tables l p _ hNode).1.ne_free hFree hPage
  · rw [hTake, PageAllocator.take_inUse]
    exact .inl rfl

theorem Taken.bounds {a : PageAllocator} {page : Nat} (hBound : (a₀.basePfn + a₀.totalPages) * 4096 ≤ 2 ^ 48)
    (h : Taken a₀ a page) : page % 4096 = 0 ∧ page + 4096 ≤ 2 ^ 48 := by
  obtain ⟨k, hFree, _, rfl⟩ := h
  have hk : k < a₀.totalPages := hFree.1
  rw [PageAllocator.pageAddr]
  omega

theorem Owned.allocPage_inUse (hOwned : Owned a₀ frames h node) (hNe : h.allocPage.2 ≠ minusOne) (k : Nat)
    (hk : h.allocator.InUse k) : h.allocPage.1.allocator.InUse k := by
  obtain ⟨j, _, _, _, hTake⟩ := hOwned.allocPage hNe
  rw [hTake, PageAllocator.take_inUse]
  exact .inr hk

/-- The pool after an allocation, with the page filed neither as a table nor as a frame yet. -/
theorem Owned.alloc (hOwned : Owned a₀ frames h node) (hNe : h.allocPage.2 ≠ minusOne) :
    Owned a₀ frames h.allocPage.1 node := by
  obtain ⟨k, hFree, _, _, hTake⟩ := hOwned.allocPage hNe
  have hGrows := hOwned.allocPage_inUse hNe
  refine ⟨?_, ?_, ?_, ?_, ?_, ?_, hOwned.nodup⟩
  · rw [hTake]
    exact hOwned.pool.take hFree.1
  · rw [hTake]
    exact hOwned.basePfn
  · rw [hTake]
    exact hOwned.totalPages
  · intro j hj
    exact hGrows j (hOwned.grows j hj)
  · intro l p t ht
    obtain ⟨hTaken, hNot⟩ := hOwned.tables l p t ht
    exact ⟨hTaken.mono hGrows, hNot⟩
  · intro f hf
    exact (hOwned.taken f hf).mono hGrows

theorem Owned.hang (hOwned : Owned a₀ frames h node) (l q : Nat) {page : Nat} (hTaken : Taken a₀ h.allocator page)
    (hNot : page ∉ frames) : Owned a₀ frames h (hang node l q page) := by
  refine ⟨hOwned.pool, hOwned.basePfn, hOwned.totalPages, hOwned.grows, ?_, hOwned.taken, hOwned.nodup⟩
  intro l₀ p₀ t ht
  rw [Library.RadixTable.hang] at ht
  split at ht
  · cases ht
    exact ⟨hTaken, hNot⟩
  · exact hOwned.tables l₀ p₀ t ht

theorem Owned.frame (hOwned : Owned a₀ frames h node) {page : Nat} (hTaken : Taken a₀ h.allocator page)
    (hFresh : ∀ l p, node l p ≠ some page) (hNew : page ∉ frames) : Owned a₀ (page :: frames) h node := by
  refine ⟨hOwned.pool, hOwned.basePfn, hOwned.totalPages, hOwned.grows, ?_, ?_,
    List.nodup_cons.mpr ⟨hNew, hOwned.nodup⟩⟩
  · intro l p t ht
    obtain ⟨hTable, hNot⟩ := hOwned.tables l p t ht
    refine ⟨hTable, ?_⟩
    intro hMem
    cases hMem with
    | head => exact hFresh l p ht
    | tail _ hTail => exact hNot hTail
  · intro f hf
    cases hf with
    | head => exact hTaken
    | tail _ hTail => exact hOwned.taken f hTail

theorem Owned.withMem (hOwned : Owned a₀ frames h node) (m : Mem) : Owned a₀ frames { h with mem := m } node :=
  ⟨hOwned.pool, hOwned.basePfn, hOwned.totalPages, hOwned.grows, hOwned.tables, hOwned.taken, hOwned.nodup⟩

/-- What building an address space needs from a record of the pages handed out. -/
structure Ledger (root : Nat) (a₀ : PageAllocator) (Ok : Grant → Prop)
    (I : List Nat → Host → (Nat → Nat → Option Nat) → Prop) : Prop where
  supply : ∀ frames, Supply root Ok (I frames)
  root : ∀ h, I [] h (fun _ _ => none) → Ok ⟨h.mem, h.allocPage.2⟩ →
    I [] h.allocPage.1 (hang (fun _ _ => none) 0 0 h.allocPage.2)
  zero : ∀ frames h node, I frames h node → Ok ⟨h.mem, h.allocPage.2⟩ → Zero h.mem h.allocPage.2 4096
  granted : ∀ g, Ok g → g.page ≠ minusOne
  owned : ∀ frames h node, I frames h node → Owned a₀ frames h node
  frame : ∀ frames h node, I frames h node → Ok ⟨h.mem, h.allocPage.2⟩ →
    I (h.allocPage.2 :: frames) h.allocPage.1 node
  fill : ∀ frames h node m f, I frames h node → f ∈ frames → SameOutside h.mem m f 4096 →
    I frames { h with mem := m } node

/-- What building an address space needs when pages are tested as they are taken: `Ok` is known of the pages that
become tables, `Fr` and `Seen` of the guest's frames, and `Puts j` is what may be put into the frame number `j`. -/
structure Account (root : Nat) (a₀ : PageAllocator) (Ok Fr Seen : Grant → Prop)
    (Puts : Nat → Mem → Nat → Mem → Prop) (I : List Nat → Host → (Nat → Nat → Option Nat) → Prop) :
    Prop where
  supply : ∀ frames, Supply root Ok (I frames)
  root : ∀ h, I [] h (fun _ _ => none) → Ok ⟨h.mem, h.allocPage.2⟩ →
    h.allocPage.2 ≠ minusOne ∧ Zero h.mem h.allocPage.2 4096 ∧
      I [] h.allocPage.1 (hang (fun _ _ => none) 0 0 h.allocPage.2)
  owned : ∀ frames h node, I frames h node → Owned a₀ frames h node
  granted : ∀ g, Fr g → g.page ≠ minusOne
  puts : ∀ j m page m', Puts j m page m' → SameOutside m m' page 4096
  frame : ∀ frames h node m, I frames h node → Fr ⟨h.mem, h.allocPage.2⟩ →
    Puts frames.length h.mem h.allocPage.2 m →
    Seen ⟨h.mem, h.allocPage.2⟩ ∧ I (h.allocPage.2 :: frames) { h.allocPage.1 with mem := m } node
  zero : ∀ g, Zero g.mem g.page 4096 → Seen g

theorem Ledger.account {root : Nat} {Ok : Grant → Prop}
    {I : List Nat → Host → (Nat → Nat → Option Nat) → Prop} (hLedger : Ledger root a₀ Ok I) :
    Account root a₀ Ok Ok (fun g => Zero g.mem g.page 4096) (fun _ m page m' => SameOutside m m' page 4096) I where
  supply := hLedger.supply
  root := fun h hInv hOk => ⟨hLedger.granted _ hOk, hLedger.zero _ _ _ hInv hOk, hLedger.root h hInv hOk⟩
  owned := hLedger.owned
  granted := hLedger.granted
  puts := fun _ _ _ _ hSame => hSame
  frame := fun _ _ _ _ hInv hOk hSame => ⟨hLedger.zero _ _ _ hInv hOk,
    hLedger.fill _ _ _ _ _ (hLedger.frame _ _ _ hInv hOk) List.mem_cons_self hSame⟩
  zero := fun _ hZero => hZero

theorem Owned.root (hOwned : Owned a₀ [] h (fun _ _ => none)) (hNe : h.allocPage.2 ≠ minusOne) :
    Owned a₀ [] h.allocPage.1 (Library.RadixTable.hang (fun _ _ => none) 0 0 h.allocPage.2) :=
  (hOwned.alloc hNe).hang 0 0 (hOwned.allocPage_new hNe).2.2 List.not_mem_nil

theorem Owned.keep (hOwned : Owned a₀ frames h node) (hNe : h.allocPage.2 ≠ minusOne) (l q a v : Nat) :
    Owned a₀ frames (h.allocPage.1.store64 a v) (Library.RadixTable.hang node l q h.allocPage.2) := by
  obtain ⟨hNot, _, hTaken⟩ := hOwned.allocPage_new hNe
  exact ((hOwned.alloc hNe).hang l q hTaken hNot).withMem _

theorem Owned.blankPage {root : Nat} (hOwned : Owned a₀ frames h node)
    (hBound : (a₀.basePfn + a₀.totalPages) * 4096 ≤ 2 ^ 48) (hTree : Tree h.mem root node)
    (hNe : h.allocPage.2 ≠ minusOne) (hZero : Zero h.mem h.allocPage.2 4096) :
    BlankPage root ⟨h.mem, h.allocPage.2⟩ := by
  obtain ⟨_, hFresh, hTaken⟩ := hOwned.allocPage_new hNe
  obtain ⟨hAligned, hTop⟩ := hTaken.bounds hBound
  exact hTree.blankPage hZero hAligned (by omega) hFresh

theorem ownedLedger (root : Nat) (a₀ : PageAllocator) (hBound : (a₀.basePfn + a₀.totalPages) * 4096 ≤ 2 ^ 48) :
    Ledger root a₀ GrantedZero (Owned a₀) where
  supply := fun frames =>
    { fresh := fun _ _ hTree hOwned hOk => hOwned.blankPage hBound hTree hOk.1 hOk.2
      keep := fun _ _ _ _ _ _ _ hOwned hOk _ _ => hOwned.keep hOk.1 _ _ _ _
      leaf := fun _ _ _ _ _ _ hOwned _ => hOwned.withMem _ }
  root := fun _ hOwned hOk => hOwned.root hOk.1
  zero := fun _ _ _ _ hOk => hOk.2
  granted := fun _ hOk => hOk.1
  owned := fun _ _ _ hOwned => hOwned
  frame := by
    intro frames h node hOwned hOk
    obtain ⟨hNew, hFresh, hTaken⟩ := hOwned.allocPage_new hOk.1
    exact (hOwned.alloc hOk.1).frame hTaken hFresh hNew
  fill := fun _ _ _ _ _ hOwned _ _ => hOwned.withMem _

/-- Pages that stay free stay zeroed while only pages already handed out are written. -/
theorem zeroed_of_sameOutside {m : Mem} {page : Nat} {a : PageAllocator} (hTaken : Taken a₀ h.allocator page)
    (hZeroed : ∀ k, h.allocator.Free k → Zero h.mem (a₀.pageAddr k) 4096)
    (hSame : SameOutside h.mem m page 4096) (hFree : ∀ k, a.Free k → h.allocator.Free k) :
    ∀ k, a.Free k → Zero m (a₀.pageAddr k) 4096 := by
  intro k hk
  exact hSame.zero (hTaken.disjoint_free (hFree k hk)) (hZeroed k (hFree k hk))

theorem store64_sameOutside (m : Mem) (t i v : Nat) (hi : i < 512) :
    SameOutside m (store m (t + 8 * i) 8 v) t 4096 := by
  intro b hb
  exact store_sameOutside m _ 8 v b (by omega)

theorem Owned.allocPage_free (hOwned : Owned a₀ frames h node) (hNe : h.allocPage.2 ≠ minusOne) (k : Nat)
    (hk : h.allocPage.1.allocator.Free k) : h.allocator.Free k := by
  obtain ⟨j, _, _, _, hTake⟩ := hOwned.allocPage hNe
  rw [hTake, PageAllocator.take_free] at hk
  exact hk.1

theorem OwnedZeroed.zero (hOwned : OwnedZeroed a₀ frames h node) (hNe : h.allocPage.2 ≠ minusOne) :
    Zero h.mem h.allocPage.2 4096 := by
  obtain ⟨k, hFree, _, hPage, _⟩ := hOwned.allocPage hNe
  rw [hPage]
  exact hOwned.zeroed k hFree

theorem owned_start (h : Host) (hPool : h.allocator.Pool) : Owned h.allocator [] h (fun _ _ => none) where
  pool := hPool
  basePfn := rfl
  totalPages := rfl
  grows := fun _ hk => hk
  tables := fun _ _ _ ht => by cases ht
  taken := fun _ hf => by cases hf
  nodup := List.nodup_nil

theorem zeroedLedger (root : Nat) (a₀ : PageAllocator) (hBound : (a₀.basePfn + a₀.totalPages) * 4096 ≤ 2 ^ 48) :
    Ledger root a₀ Granted (OwnedZeroed a₀) where
  supply := fun frames =>
    { fresh := fun _ _ hTree hOwned hOk => hOwned.blankPage hBound hTree hOk (hOwned.zero hOk)
      keep := by
        intro h node l p i t _ hOwned hOk hi ht
        refine ⟨hOwned.keep hOk _ _ _ _, ?_⟩
        exact zeroed_of_sameOutside (hOwned.tables l p t ht).1 hOwned.zeroed
          (store64_sameOutside h.mem t i _ hi) (hOwned.allocPage_free hOk)
      leaf := by
        intro h node key t w _ hOwned ht
        refine ⟨hOwned.withMem _, ?_⟩
        exact zeroed_of_sameOutside (hOwned.tables 3 _ t ht).1 hOwned.zeroed
          (store64_sameOutside h.mem t _ w (Nat.mod_lt _ (by decide))) (fun _ hk => hk) }
  root := fun _ hOwned hOk =>
    ⟨hOwned.toOwned.root hOk, fun k hk => hOwned.zeroed k (hOwned.allocPage_free hOk k hk)⟩
  zero := fun _ _ _ hOwned hOk => hOwned.zero hOk
  granted := fun _ hOk => hOk
  owned := fun _ _ _ hOwned => hOwned.toOwned
  frame := by
    intro frames h node hOwned hOk
    obtain ⟨hNew, hFresh, hTaken⟩ := hOwned.allocPage_new hOk
    exact ⟨(hOwned.alloc hOk).frame hTaken hFresh hNew, fun k hk =>
      hOwned.zeroed k (hOwned.allocPage_free hOk k hk)⟩
  fill := by
    intro frames h node m f hOwned hf hSame
    exact ⟨hOwned.withMem m, zeroed_of_sameOutside (hOwned.taken f hf) hOwned.zeroed hSame fun _ hk => hk⟩

end

end HyperPoc.Stage2
