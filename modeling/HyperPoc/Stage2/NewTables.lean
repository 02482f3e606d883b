import HyperPoc.Stage2.Refinement

/-! # Pages that become tables

`pagewalk` hangs a page from `alloc_page` into the tables as it is, and the hardware takes what it holds for
descriptors. Which page becomes which table is known before the call, from the tables that are missing
and the order of the allocator; invalid words in it grant nothing, and block and page descriptors do.
-/
namespace HyperPoc.Stage2
open Library.Memory Library.RadixTable Library.Run
set_option autoImplicit false

/-- No table is a free page, and the pages of the pool are output addresses of descriptors. -/
structure InUseTables (a : PageAllocator) (node : Nat → Nat → Option Nat) : Prop where
  pool : a.Pool
  below : (a.basePfn + a.totalPages) * 4096 ≤ 2 ^ 48
  tables : ∀ l p t k, node l p = some t → a.Free k → t ≠ a.pageAddr k

section
variable {h : Host} {node : Nat → Nat → Option Nat} {root : Nat}

theorem InUseTables.allocPage (hTables : InUseTables h.allocator node) (hNe : h.allocPage.2 ≠ minusOne) :
    ∃ k, h.allocator.Free k ∧ h.allocPage.2 = h.allocator.pageAddr k ∧
      h.allocPage.1.allocator = h.allocator.take k := by
  obtain ⟨k, hNext, hAlloc⟩ | ⟨_, hAlloc⟩ := PageAllocator.allocPage_cases h.allocator hTables.pool
  · exact ⟨k, hNext.free, by rw [Host.allocPage, hAlloc], by rw [Host.allocPage, hAlloc]⟩
  · exact (hNe (by rw [Host.allocPage, hAlloc])).elim

theorem InUseTables.fresh (hTables : InUseTables h.allocator node) (hNe : h.allocPage.2 ≠ minusOne) :
    (∀ l p, node l p ≠ some h.allocPage.2) ∧ h.allocPage.2 % 4096 = 0 ∧ h.allocPage.2 < 2 ^ 48 := by
  obtain ⟨k, hFree, hPage, _⟩ := hTables.allocPage hNe
  refine ⟨fun l p hHung => hTables.tables l p _ k hHung hFree hPage, ?_, ?_⟩
  · rw [hPage]
    exact Nat.mul_mod_left _ _
  · have hLt : k < h.allocator.totalPages := hFree.1
    have hBelow := hTables.below
    rw [hPage, PageAllocator.pageAddr]
    omega

theorem InUseTables.hang (hTables : InUseTables h.allocator node) (hNe : h.allocPage.2 ≠ minusOne) (l q : Nat) :
    InUseTables h.allocPage.1.allocator (hang node l q h.allocPage.2) := by
  obtain ⟨k, hFree, hPage, hTake⟩ := hTables.allocPage hNe
  rw [hTake]
  refine ⟨hTables.pool.take hFree.1, hTables.below, ?_⟩
  intro l₀ p₀ t j ht hj
  rw [PageAllocator.take_free] at hj
  rw [Library.RadixTable.hang] at ht
  rw [PageAllocator.take_pageAddr]
  split at ht
  · cases ht
    rw [hPage]
    exact fun hEq => hj.2 (PageAllocator.pageAddr_inj _ hEq).symm
  · exact hTables.tables l₀ p₀ t j ht hj.1

end

section
variable {m : Mem} {root l p t i page : Nat} {node : Nat → Nat → Option Nat}

theorem descriptor_store_fill (m : Mem) (a w : Nat) {s j : Nat} (hPage : page % 4096 = 0) (hs : s % 4096 = 0)
    (hj : j < 512) (hNe : s ≠ page) :
    descriptor (store (fill m page 4096 0) a 8 w) s j = descriptor (store m a 8 w) s j := by
  apply load_congr
  intro b hb
  rw [store, store]
  split
  · rfl
  · exact fill_sameOutside m page 4096 0 _ (by omega)

/-- A page that is zeroed first adds a table and no entry. -/
theorem Tree.hang_zeroed (hTree : Tree m root node) (hl : l < 3) (hi : i < 512) (ht : node l p = some t)
    (hMissing : node (l + 1) (512 * p + i) = none) (hFresh : ∀ l p, node l p ≠ some page)
    (hAligned : page % 4096 = 0) (hPos : 0 < page) (hBound : page < 2 ^ 48) :
    Tree (store (fill m page 4096 0) (t + 8 * i) 8 (page + 3)) root
      (Library.RadixTable.hang node (l + 1) (512 * p + i) page) ∧
    ∀ key, leafDesc (store (fill m page 4096 0) (t + 8 * i) 8 (page + 3))
      (Library.RadixTable.hang node (l + 1) (512 * p + i) page) key = leafDesc m node key := by
  obtain ⟨hFilled, hLeaf⟩ := hTree.of_sameOutside hFresh hAligned (fill_sameOutside m page 4096 0)
  have hZero : Zero (fill m page 4096 0) page 4096 := fun j hj => if_pos ⟨by omega, by omega⟩
  have hCell : descriptor (fill m page 4096 0) t i % 4 ≠ 3 := by
    intro hTable
    have hLinked := hFilled.rep.linked l p t i hl hi ht
    rw [child_of_table hTable] at hLinked
    exact Option.some_ne_none _ (hLinked.trans hMissing)
  obtain ⟨hHung, hLeaf'⟩ := hFilled.hang hl hi ht hCell hFresh hZero hAligned hPos hBound
  exact ⟨hHung, fun key => (hLeaf' key).trans (hLeaf key)⟩

end

/-- A page that holds the table `l`, `q` of `node'` and none of `node`. -/
def NewTable (node node' : Nat → Nat → Option Nat) (l q t : Nat) : Prop := node' l q = some t ∧ node l q = none

/-- No word of a page that becomes an inner table looks like a reference to a table. -/
def NoReferences (m : Mem) (node node' : Nat → Nat → Option Nat) : Prop :=
  ∀ l q t i, NewTable node node' l q t → l < 3 → i < 512 → descriptor m t i % 4 ≠ 3

/-- The run has come from memory `m` with tables `node` to `h` with tables `r`. In `m₀` the pages that have become
tables were zeroed first; where it is still zero, `h` holds what was in the page before. -/
structure Follows (m : Mem) (root : Nat) (node : Nat → Nat → Option Nat) (h : Host) (r : Tables) (m₀ : Mem) :
    Prop where
  tree : Tree m₀ root r.2
  allocator : h.allocator = r.1
  tables : InUseTables r.1 r.2
  cells : ∀ t i, t % 4096 = 0 → i < 512 → descriptor h.mem t i = descriptor m₀ t i ∨
    (descriptor m₀ t i = 0 ∧ ∃ l q, NewTable node r.2 l q t)
  stale : ∀ l q t i, NewTable node r.2 l q t → i < 512 → descriptor m₀ t i = 0 →
    descriptor h.mem t i = descriptor m t i
  free : ∀ k i, r.1.Free k → i < 512 → descriptor h.mem (r.1.pageAddr k) i = descriptor m (r.1.pageAddr k) i

section
variable {m m₀ : Mem} {root : Nat} {node : Nat → Nat → Option Nat} {h h' : Host} {r r' : Tables} {l p t i : Nat}

theorem Follows.child_eq (hFollows : Follows m root node h r m₀) (hNone : NoReferences m node r.2) (hl : l < 3)
    (hi : i < 512) (ht : r.2 l p = some t) : shape.child (descriptor h.mem t i) = r.2 (l + 1) (512 * p + i) := by
  have hLinked := hFollows.tree.rep.linked l p t i hl hi ht
  obtain hEq | ⟨hZero, l', q', hNew⟩ := hFollows.cells t i (hFollows.tree.aligned l p t ht) hi
  · rw [hEq]
    exact hLinked
  · obtain ⟨rfl, rfl⟩ := hFollows.tree.rep.unique _ _ _ _ _ ht hNew.1
    rw [hFollows.stale l p t i hNew hi hZero, child_of_not_table (hNone l p t i hNew hl hi)]
    rw [hZero] at hLinked
    exact hLinked

theorem Follows.apart (hFollows : Follows m root node h r m₀) (ht : r.2 l p = some t) {k : Nat} (hk : r.1.Free k) :
    t % 4096 = 0 ∧ r.1.pageAddr k % 4096 = 0 ∧ r.1.pageAddr k ≠ t :=
  ⟨hFollows.tree.aligned l p t ht, Nat.mul_mod_left _ _, (hFollows.tables.tables l p t k ht hk).symm⟩

theorem Follows.cells_store (hFollows : Follows m root node h r m₀) {w : Nat} (ht : t % 4096 = 0) (hi : i < 512)
    (hw : w < 2 ^ 64) (s j : Nat) (hs : s % 4096 = 0) (hj : j < 512) :
    descriptor (store h.mem (t + 8 * i) 8 w) s j = descriptor (store m₀ (t + 8 * i) 8 w) s j ∨
    (descriptor (store m₀ (t + 8 * i) 8 w) s j = 0 ∧ ∃ l q, NewTable node r.2 l q s) := by
  by_cases hAt : s = t ∧ j = i
  · obtain ⟨rfl, rfl⟩ := hAt
    rw [descriptor_store_self _ _ _ _ hw, descriptor_store_self _ _ _ _ hw]
    exact .inl rfl
  · rw [descriptor_store_ne _ _ _ _ _ _ ht hs hi hj hAt, descriptor_store_ne _ _ _ _ _ _ ht hs hi hj hAt]
    exact hFollows.cells s j hs hj

theorem Follows.stale_store (hFollows : Follows m root node h r m₀) {w : Nat} (ht : t % 4096 = 0) (hi : i < 512)
    (hw : w < 2 ^ 64) (hPos : w ≠ 0) {l' q s j : Nat} (hNew : NewTable node r.2 l' q s) (hj : j < 512)
    (hZero : descriptor (store m₀ (t + 8 * i) 8 w) s j = 0) :
    descriptor (store h.mem (t + 8 * i) 8 w) s j = descriptor m s j := by
  have hs := hFollows.tree.aligned _ _ _ hNew.1
  by_cases hAt : s = t ∧ j = i
  · obtain ⟨rfl, rfl⟩ := hAt
    rw [descriptor_store_self _ _ _ _ hw] at hZero
    exact (hPos hZero).elim
  · rw [descriptor_store_ne _ _ _ _ _ _ ht hs hi hj hAt] at hZero ⊢
    exact hFollows.stale l' q s j hNew hj hZero

theorem Follows.write (hFollows : Follows m root node h r m₀) (key w : Nat) (ht : r.2 3 (key / 512) = some t)
    (hw : w < 2 ^ 64) (hValid : w % 4 = 3) :
    Follows m root node (h.store64 (t + 8 * (key % 512)) w) r (store m₀ (t + 8 * (key % 512)) 8 w) := by
  have hKey : key % 512 < 512 := Nat.mod_lt _ (by decide)
  have htAligned := hFollows.tree.aligned _ _ t ht
  refine ⟨(hFollows.tree.write key w ht hw (.inl hValid)).1, hFollows.allocator, hFollows.tables,
    hFollows.cells_store htAligned hKey hw,
    fun _ _ _ _ hNew hj => hFollows.stale_store htAligned hKey hw (by omega) hNew hj, fun k i hk hi => ?_⟩
  obtain ⟨_, hAligned, hNe⟩ := hFollows.apart ht hk
  rw [← hFollows.free k i hk hi]
  exact descriptor_store_ne _ _ _ _ _ _ htAligned hAligned hKey hi fun hAt => hNe hAt.1

end

section
variable {m m₀ : Mem} {root : Nat} {node : Nat → Nat → Option Nat} {h h' : Host} {r r' : Tables} {l p t i : Nat}

theorem Follows.hang (hFollows : Follows m root node h r m₀)
    (hNode : ∀ l q t, node l q = some t → r.2 l q = some t) (hl : l < 3) (hi : i < 512) (ht : r.2 l p = some t)
    (hMissing : r.2 (l + 1) (512 * p + i) = none) (hNe : h.allocPage.2 ≠ minusOne) (hNull : h.allocPage.2 ≠ 0) :
    Follows m root node (h.allocPage.1.store64 (t + 8 * i) (h.allocPage.2 + 3))
      (h.allocPage.1.allocator, hang r.2 (l + 1) (512 * p + i) h.allocPage.2)
      (store (fill m₀ h.allocPage.2 4096 0) (t + 8 * i) 8 (h.allocPage.2 + 3)) ∧
    h.allocPage.2 % 4096 = 0 ∧ h.allocPage.2 < 2 ^ 48 ∧
    ∀ key, leafDesc (store (fill m₀ h.allocPage.2 4096 0) (t + 8 * i) 8 (h.allocPage.2 + 3))
      (Library.RadixTable.hang r.2 (l + 1) (512 * p + i) h.allocPage.2) key = leafDesc m₀ r.2 key := by
  have hTables : InUseTables h.allocator r.2 := hFollows.allocator ▸ hFollows.tables
  obtain ⟨k, hFree, hPage, hTake⟩ := hTables.allocPage hNe
  obtain ⟨hFresh, hAligned, hBound⟩ := hTables.fresh hNe
  have hAlloc := hFollows.allocator
  have htAligned := hFollows.tree.aligned l p t ht
  have hApart : h.allocPage.2 ≠ t := fun hEq => hFresh l p (hEq ▸ ht)
  obtain ⟨hTree, hLeaf⟩ :=
    hFollows.tree.hang_zeroed hl hi ht hMissing hFresh hAligned (Nat.pos_of_ne_zero hNull) hBound
  have hWord : h.allocPage.2 + 3 < 2 ^ 64 := by omega
  have hOld : node (l + 1) (512 * p + i) = none := by
    cases hOld : node (l + 1) (512 * p + i) with
    | none => rfl
    | some s =>
      rw [hNode _ _ s hOld] at hMissing
      cases hMissing
  refine ⟨⟨hTree, rfl, hTables.hang hNe (l + 1) (512 * p + i), fun s j hs hj => ?_,
    fun l₀ q₀ s j hNew hj hVacant => ?_, fun j c hj hc => ?_⟩, hAligned, hBound, hLeaf⟩
  · -- in `m₀` the new page is zero, and other words are as after the store alone
    by_cases hNew : s = h.allocPage.2
    · subst hNew
      refine .inr ⟨?_, l + 1, 512 * p + i, if_pos ⟨rfl, rfl⟩, hOld⟩
      rw [descriptor_store_ne _ _ _ _ _ _ htAligned hs hi hj fun hAt => hApart hAt.1]
      exact descriptor_zero (fun j hj => if_pos ⟨by omega, by omega⟩) hj
    · rw [descriptor_store_fill _ _ _ hAligned hs hj hNew]
      obtain hEq | ⟨hVacant, l₀, q₀, hTable, hNone⟩ := hFollows.cells_store htAligned hi hWord s j hs hj
      · exact .inl hEq
      · exact .inr ⟨hVacant, l₀, q₀, hang_extends hMissing _ _ _ hTable, hNone⟩
  · -- the new page was free, so that it holds in `h` what it held in `m`
    obtain ⟨hTable, hNone⟩ := hNew
    by_cases hPageNew : s = h.allocPage.2
    · subst hPageNew
      have hFreeWord := hFollows.free k j (hAlloc ▸ hFree) hj
      rw [← hAlloc, ← hPage] at hFreeWord
      exact (descriptor_store_ne _ _ _ _ _ _ htAligned hAligned hi hj fun hAt => hApart hAt.1).trans hFreeWord
    · have hOldTable : r.2 l₀ q₀ = some s := by
        dsimp only at hTable
        rw [Library.RadixTable.hang] at hTable
        split at hTable
        · cases hTable
          exact (hPageNew rfl).elim
        · exact hTable
      rw [descriptor_store_fill _ _ _ hAligned (hFollows.tree.aligned _ _ _ hOldTable) hj hPageNew] at hVacant
      exact hFollows.stale_store htAligned hi hWord (by omega) ⟨hOldTable, hNone⟩ hj hVacant
  · -- a page that is still free is none of the tables
    have hj' : h.allocator.Free j := by
      rw [hTake, PageAllocator.take_free] at hj
      exact hj.1
    have hPageAddr : h.allocPage.1.allocator.pageAddr j = r.1.pageAddr j := by
      rw [hTake, PageAllocator.take_pageAddr, hAlloc]
    obtain ⟨_, hjAligned, hjNe⟩ := hFollows.apart ht (hAlloc ▸ hj')
    dsimp only
    rw [hPageAddr, ← hFollows.free j c (hAlloc ▸ hj') hc]
    exact descriptor_store_ne _ _ _ _ _ _ htAligned hjAligned hi hc fun hAt => hjNe hAt.1

theorem pagewalkLoop_follows {va n pte : Nat} (hn : l + n = 3) (hFollows : Follows m root node h r m₀)
    (hNode : ∀ l q t, node l q = some t → r.2 l q = some t) (ht : r.2 l (shape.pre l (pageKey va)) = some t)
    (hTables : addTables (pageKey va) n l r = some r') (hNone : NoReferences m node r'.2)
    (hWalk : pagewalkLoop va true n l h t = .ok (h', pte)) :
    ∃ m₀', Follows m root node h' r' m₀' ∧
      (∃ t, r'.2 3 (pageKey va / 512) = some t ∧ pte = t + 8 * (pageKey va % 512)) ∧
      ∀ key, leafDesc m₀' r'.2 key = leafDesc m₀ r.2 key := by
  induction n generalizing l t h r m₀ with
  | zero =>
    obtain rfl : l = 3 := by omega
    cases hTables
    rw [pagewalkLoop, hFollows.tree.pteAddr_eq ht 3 va (by omega), slot_three] at hWalk
    cases hWalk
    rw [pre_three] at ht
    exact ⟨m₀, hFollows, ⟨t, ht, rfl⟩, fun _ => rfl⟩
  | succ n ih =>
    obtain ⟨r₁, hAdd, hRest⟩ := Option.bind_eq_some_iff.mp hTables
    have hWithin := (addTable_within hAdd).trans (addTables_within hRest)
    have hSlot := slot_lt l (pageKey va)
    have hPre : shape.pre (l + 1) (pageKey va) = 512 * shape.pre l (pageKey va) + shape.slot l (pageKey va) :=
      shape.pre_succ l (pageKey va) (by change l ≤ 3; omega)
    have hNoneNow : NoReferences m node r.2 :=
      fun l q t i hNew => hNone l q t i ⟨hWithin l q t hNew.1, hNew.2⟩
    have hChild := hFollows.child_eq hNoneNow (by omega) hSlot ht
    rw [← hPre] at hChild
    rw [pagewalkLoop, hFollows.tree.pteAddr_eq ht l va (by omega), ← descriptor] at hWalk
    simp only [isTable_iff, if_true] at hWalk
    rw [addTable] at hAdd
    split at hWalk
    · rename_i hTable
      rw [child_of_table hTable] at hChild
      rw [← hChild, Option.isSome_some, if_pos rfl] at hAdd
      cases hAdd
      rw [ptePa_eq] at hWalk
      exact ih (by omega) hFollows hNode hChild.symm hRest hWalk
    · rename_i hTable
      rw [child_of_not_table hTable] at hChild
      rw [← hChild, if_neg (by decide), ← hFollows.allocator] at hAdd
      split at hAdd
      · cases hAdd
      · rename_i hNe
        cases hAdd
        split at hWalk
        · cases hWalk
        · rename_i hNull
          obtain ⟨hFollows', hAligned, hBound, hSame⟩ :=
            hFollows.hang hNode (by omega) hSlot ht (hPre ▸ hChild.symm) hNe hNull
          rw [← hPre] at hFollows' hSame
          rw [tableDesc_eq _ hAligned hBound] at hWalk
          have hHung : Library.RadixTable.hang r.2 (l + 1) (shape.pre (l + 1) (pageKey va)) h.allocPage.2 (l + 1)
              (shape.pre (l + 1) (pageKey va)) = some h.allocPage.2 := if_pos ⟨rfl, rfl⟩
          obtain ⟨m₀', hEnd, hEntry, hLeaf⟩ := ih (by omega) hFollows'
            (fun l q t hOld => hang_extends hChild.symm l q t (hNode l q t hOld)) hHung hRest hWalk
          exact ⟨m₀', hEnd, hEntry, fun key => (hLeaf key).trans (hSame key)⟩

theorem pagemapLoop_follows {va pa attr n : Nat} (hFollows : Follows m root node h r m₀)
    (hNode : ∀ l q t, node l q = some t → r.2 l q = some t) (hAttr : attr < 2 ^ 64) (hVa : va + n * 4096 ≤ 2 ^ 48)
    (hTables : tablesFor (va / 4096) n r = some r') (hNone : NoReferences m node r'.2)
    (hMap : pagemapLoop root attr n h va pa = .ok h') :
    ∃ m₀', Follows m root node h' r' m₀' ∧
      (∀ key, va / 4096 ≤ key → key < va / 4096 + n → (r'.2 3 (key / 512)).isSome) ∧
      ∀ key, ¬(va / 4096 ≤ key ∧ key < va / 4096 + n) → leafDesc m₀' r'.2 key = leafDesc m₀ r.2 key := by
  induction n generalizing h va pa r m₀ with
  | zero =>
    cases hMap
    cases hTables
    exact ⟨m₀, hFollows, fun key _ _ => by omega, fun _ _ => rfl⟩
  | succ n ih =>
    obtain ⟨r₁, hAdd, hRest⟩ := Option.bind_eq_some_iff.mp hTables
    obtain ⟨⟨h₁, pte⟩, hWalk, hLoop⟩ := bind_eq_ok.mp hMap
    have hWithin := tablesFor_within hRest
    have hKey : pageKey va = va / 4096 := pageKey_of_lt (by omega)
    have hRoot : r.2 0 (shape.pre 0 (pageKey va)) = some root := by
      rw [pre_zero]
      exact hFollows.tree.rep.root_node
    rw [← hKey] at hAdd
    obtain ⟨m₁, hFollows₁, ⟨t, ht, rfl⟩, hSame₁⟩ := pagewalkLoop_follows rfl hFollows hNode hRoot hAdd
      (fun l q t i hNew => hNone l q t i ⟨hWithin l q t hNew.1, hNew.2⟩) hWalk
    dsimp only at hLoop
    split at hLoop
    · cases hLoop
    · have hWrite := hFollows₁.write (pageKey va) (pageDesc pa attr) ht (pageDesc_lt pa attr hAttr)
        (pageDesc_mod pa attr)
      have hLeaf₁ := (hFollows₁.tree.write (pageKey va) (pageDesc pa attr) ht (pageDesc_lt pa attr hAttr)
        (.inl (pageDesc_mod pa attr))).2
      rw [pageSize, u64_of_lt (n := va + 4096) (by omega)] at hLoop
      have hNext : (va + 4096) / 4096 = va / 4096 + 1 := by omega
      rw [← hNext] at hRest
      obtain ⟨m₀', hEnd, hHas, hLeaf⟩ :=
        ih hWrite (fun l q t hOld => addTables_within hAdd l q t (hNode l q t hOld))
          (by omega) hRest hLoop
      refine ⟨m₀', hEnd, fun key hLow hHigh => ?_, fun key hOut => ?_⟩
      · by_cases hFirst : key = va / 4096
        · rw [hFirst, ← hKey, hWithin _ _ _ ht]
          rfl
        · exact hHas key (by omega) (by omega)
      · rw [hLeaf key (by omega), hLeaf₁ key, if_neg (by omega), hSame₁ key]

end

def Leaf (l w : Nat) : Prop := l < 3 ∧ w % 4 = 1 ∨ l = 3 ∧ w % 4 = 3

def lastStep (l ipa w : Nat) : Option Translation :=
  if l = 3 then if w % 4 = 3 then some ⟨w, outputAddress w + ipa % 4096⟩ else none
  else if w % 4 = 1 ∧ l ≠ 0 then some (block l ipa w)
  else none

/-- No word of a new table stands for a block or a page outside the page numbers from `first` to `last`. A word of
an inner table is considered if no further table hangs there after the call. -/
def NoLeaves (m : Mem) (node node' : Nat → Nat → Option Nat) (first last : Nat) : Prop :=
  ∀ l q t i, NewTable node node' l q t → i < 512 → (l < 3 → node' (l + 1) (512 * q + i) = none) →
    (l = 3 → ¬(first ≤ 512 * q + i ∧ 512 * q + i < last)) → ¬Leaf l (descriptor m t i)

section
variable {m m₀ : Mem} {root : Nat} {node : Nat → Nat → Option Nat} {h : Host} {r : Tables} {l t ipa : Nat}

theorem Tree.archWalk_at (hTree : Tree m₀ root node)
    (hChild : ∀ l p t i, l < 3 → i < 512 → node l p = some t →
      shape.child (descriptor m t i) = node (l + 1) (512 * p + i))
    (hIpa : ipa < 2 ^ 48) (hl : l ≤ 3) (ht : node l (shape.pre l (ipa / 4096)) = some t) :
    archWalk m root ipa = archStep m ipa (3 - l) l t := by
  induction l generalizing t with
  | zero =>
    have hPre := pre_zero ipa
    rw [pageKey_of_lt hIpa] at hPre
    rw [hPre, hTree.rep.root_node] at ht
    cases ht
    rw [archWalk, if_pos hIpa]
  | succ l ih =>
    have hSlot := slot_lt l (ipa / 4096)
    have hPre : shape.pre (l + 1) (ipa / 4096) = 512 * shape.pre l (ipa / 4096) + shape.slot l (ipa / 4096) :=
      shape.pre_succ l (ipa / 4096) (by change l ≤ 3; omega)
    cases hParent : node l (shape.pre l (ipa / 4096)) with
    | none =>
      have hOrphan := hTree.rep.orphan l _ _ (show l < 3 by omega) hSlot hParent
      rw [hPre] at ht
      cases hOrphan.symm.trans ht
    | some s =>
      have hNext := hChild l _ s _ (by omega) hSlot hParent
      rw [← hPre, ht] at hNext
      have hDesc : descriptor m s (shape.slot l (ipa / 4096)) % 4 = 3 := by
        by_contra hNot
        rw [child_of_not_table hNot] at hNext
        cases hNext
      rw [child_of_table hDesc] at hNext
      cases hNext
      rw [ih (by omega) hParent, show 3 - l = 3 - (l + 1) + 1 by omega, archStep, archIndex_eq l ipa (by omega),
        if_pos hDesc]

theorem Tree.last_table (hTree : Tree m₀ root node) (hIpa : ipa < 2 ^ 48) :
    ∃ l t, l ≤ 3 ∧ node l (shape.pre l (ipa / 4096)) = some t ∧
      (l < 3 → node (l + 1) (shape.pre (l + 1) (ipa / 4096)) = none) := by
  have hRoot : node 0 (shape.pre 0 (ipa / 4096)) = some root := by
    rw [← pageKey_of_lt hIpa, pre_zero]
    exact hTree.rep.root_node
  have hDown : ∀ n l t, l + n = 3 → node l (shape.pre l (ipa / 4096)) = some t → ∃ l t, l ≤ 3 ∧
      node l (shape.pre l (ipa / 4096)) = some t ∧
        (l < 3 → node (l + 1) (shape.pre (l + 1) (ipa / 4096)) = none) := by
    intro n
    induction n with
    | zero => exact fun l t hl ht => ⟨l, t, by omega, ht, fun hLt => by omega⟩
    | succ n ih =>
      intro l t hl ht
      cases hNext : node (l + 1) (shape.pre (l + 1) (ipa / 4096)) with
      | none => exact ⟨l, t, by omega, ht, fun _ => hNext⟩
      | some s => exact ih (l + 1) s (by omega) hNext
  exact hDown 3 0 root rfl hRoot

theorem archStep_last (hl : l ≤ 3) (hTable : l < 3 → descriptor m t (shape.slot l (ipa / 4096)) % 4 ≠ 3) :
    archStep m ipa (3 - l) l t = lastStep l ipa (descriptor m t (shape.slot l (ipa / 4096))) := by
  rw [lastStep]
  obtain hLt | rfl : l < 3 ∨ l = 3 := by omega
  · rw [show 3 - l = 2 - l + 1 by omega, archStep, archIndex_eq l ipa (by omega), if_neg (hTable hLt),
      if_neg (show ¬l = 3 by omega)]
  · rw [Nat.sub_self, archStep, archIndex_eq 3 ipa (by omega), if_pos rfl]

theorem lastStep_isSome {w : Nat} (hl : 0 < l) (hLeaf : Leaf l w) : (lastStep l ipa w).isSome := by
  obtain ⟨hLt, hBlock⟩ | ⟨rfl, hPage⟩ := hLeaf
  · rw [lastStep, if_neg (by omega), if_pos ⟨hBlock, by omega⟩]
    rfl
  · rw [lastStep, if_pos rfl, if_pos hPage]
    rfl

theorem lastStep_none {w : Nat} (hl : l ≤ 3) (hLeaf : ¬Leaf l w) : lastStep l ipa w = none := by
  rw [Leaf] at hLeaf
  rw [lastStep]
  split
  · rw [if_neg (by omega)]
  · rw [if_neg (by omega)]

/-- The first page number under word `i` of the table at level `l` and prefix `q`. -/
def firstPage (l q i : Nat) : Nat := (512 * q + i) * 512 ^ (3 - l)

theorem firstPage_spec {q i : Nat} (hl : l ≤ 3) (hi : i < 512) (hq : q < 512 ^ l) :
    firstPage l q i < 2 ^ 36 ∧ shape.pre l (firstPage l q i) = q ∧ shape.slot l (firstPage l q i) = i ∧
      shape.pre (l + 1) (firstPage l q i) = 512 * q + i := by
  have hLevel : l = 0 ∨ l = 1 ∨ l = 2 ∨ l = 3 := by omega
  rw [slot_eq l _ hl, firstPage, Shape.pre, Shape.pre]
  rcases hLevel with rfl | rfl | rfl | rfl <;> simp [shape] at hq ⊢ <;> omega

end

section
variable {m m₀ : Mem} {root : Nat} {node : Nat → Nat → Option Nat} {h : Host} {r : Tables}
  {l q t i ipa first last : Nat}

theorem firstPage_three (q i : Nat) : firstPage 3 q i = 512 * q + i := Nat.mul_one _

theorem Follows.firstPage_outside (hFollows : Follows m root node h r m₀)
    (hHas : ∀ key, first ≤ key → key < last → (r.2 3 (key / 512)).isSome) (ht : r.2 l q = some t) (hi : i < 512)
    (hInner : l < 3 → r.2 (l + 1) (512 * q + i) = none)
    (hOuter : l = 3 → ¬(first ≤ 512 * q + i ∧ 512 * q + i < last)) :
    ¬(first ≤ firstPage l q i ∧ firstPage l q i < last) := by
  have hl : l ≤ 3 := hFollows.tree.rep.level_le _ _ _ ht
  obtain ⟨_, _, _, hNext⟩ := firstPage_spec hl hi (hFollows.tree.rep.pre_lt ht)
  intro hIn
  obtain hLt | rfl : l < 3 ∨ l = 3 := by omega
  · have hBelow := hFollows.tree.rep.node_none_below (firstPage l q i)
      (by rw [hNext]; exact hInner hLt) 3 hLt (Nat.le_refl _)
    have hTable := hHas _ hIn.1 hIn.2
    rw [← pre_three, hBelow] at hTable
    cases hTable
  · rw [firstPage_three] at hIn
    exact hOuter rfl hIn

theorem Follows.vacant_word (hFollows : Follows m root node h r m₀) (hNew : NewTable node r.2 l q t) (hi : i < 512)
    (hInner : l < 3 → r.2 (l + 1) (512 * q + i) = none)
    (hSame : leafDesc m₀ r.2 (firstPage l q i) = leafDesc m node (firstPage l q i)) : descriptor m₀ t i = 0 := by
  have hl : l ≤ 3 := hFollows.tree.rep.level_le _ _ _ hNew.1
  obtain hLt | rfl : l < 3 ∨ l = 3 := by omega
  · apply hFollows.tree.rep.vacant l q t i hLt hi hNew.1
    rw [hFollows.tree.rep.linked l q t i hLt hi hNew.1]
    exact hInner hLt
  · apply hFollows.tree.clean q t i hNew.1 hi
    intro hPage
    rw [firstPage_three, leafDesc_eq, leafDesc_eq, show (512 * q + i) / 512 = q by omega,
      show (512 * q + i) % 512 = i by omega, hNew.1, hNew.2, Option.bind_some, Option.bind_none, page, if_pos hPage]
        at hSame
    cases hSame

/-- A block or page descriptor left in a new table translates an address that did not translate. -/
theorem Follows.leaf_translates (hFollows : Follows m root node h r m₀) (hTree : Tree m root node)
    (hNone : NoReferences m node r.2) (hNew : NewTable node r.2 l q t) (hi : i < 512)
    (hStale : descriptor h.mem t i = descriptor m t i) (hLeaf : Leaf l (descriptor m t i)) :
    (archWalk h.mem root (firstPage l q i * 4096)).isSome ∧ archWalk m root (firstPage l q i * 4096) = none := by
  have hl : l ≤ 3 := hFollows.tree.rep.level_le _ _ _ hNew.1
  obtain ⟨hLt, hPre, hSlot, _⟩ := firstPage_spec hl hi (hFollows.tree.rep.pre_lt hNew.1)
  have hKey : firstPage l q i * 4096 / 4096 = firstPage l q i := Nat.mul_div_cancel _ (by decide)
  have hPos : 0 < l := by
    refine Nat.pos_of_ne_zero fun hZero => ?_
    subst hZero
    have hq : q = 0 := by
      by_contra hq
      cases (hFollows.tree.rep.root_only q hq).symm.trans hNew.1
    cases (hq ▸ hNew.2).symm.trans hTree.rep.root_node
  constructor
  · rw [hFollows.tree.archWalk_at (fun _ _ _ _ => hFollows.child_eq hNone) (t := t) (by omega) hl
      (by rw [hKey, hPre]; exact hNew.1), archStep_last hl, hKey, hSlot, hStale]
    · exact lastStep_isSome hPos hLeaf
    · rw [hKey, hSlot, hStale]
      exact fun hInner => hNone l q t i hNew hInner hi
  · have hBelow := hTree.rep.node_none_below (firstPage l q i) (by rw [hPre]; exact hNew.2) 3 hl (Nat.le_refl _)
    rw [pre_three] at hBelow
    rw [hTree.archWalk_eq _ (by omega), hKey, leafDesc_eq, hBelow]
    rfl

/-- Without such a descriptor the hardware finds in `h` what it finds in the tables of `m₀`. -/
theorem Follows.walk_eq (hFollows : Follows m root node h r m₀) (hNone : NoReferences m node r.2)
    (hLeaves : NoLeaves m node r.2 first last) (hIpa : ipa < 2 ^ 48)
    (hOut : ¬(first ≤ ipa / 4096 ∧ ipa / 4096 < last)) : archWalk h.mem root ipa = archWalk m₀ root ipa := by
  obtain ⟨l, t, hl, ht, hEnd⟩ := hFollows.tree.last_table hIpa
  have hSlot := slot_lt l (ipa / 4096)
  have hPre : shape.pre (l + 1) (ipa / 4096) = 512 * shape.pre l (ipa / 4096) + shape.slot l (ipa / 4096) :=
    shape.pre_succ l (ipa / 4096) hl
  have hRefers : ∀ m' : Mem, (∀ l p t i, l < 3 → i < 512 → r.2 l p = some t →
      shape.child (descriptor m' t i) = r.2 (l + 1) (512 * p + i)) →
      archWalk m' root ipa = lastStep l ipa (descriptor m' t (shape.slot l (ipa / 4096))) := by
    intro m' hChild
    rw [hFollows.tree.archWalk_at hChild hIpa hl ht, archStep_last hl]
    intro hInner hTable
    have hNext := hChild l _ t _ hInner hSlot ht
    rw [child_of_table hTable, ← hPre, hEnd hInner] at hNext
    cases hNext
  rw [hRefers h.mem fun _ _ _ _ => hFollows.child_eq hNone, hRefers m₀ hFollows.tree.rep.linked]
  obtain hEq | ⟨hZero, l', q', hNew⟩ := hFollows.cells t _ (hFollows.tree.aligned _ _ _ ht) hSlot
  · rw [hEq]
  · have hStale := hFollows.stale l' q' t _ hNew hSlot hZero
    obtain ⟨rfl, rfl⟩ := hFollows.tree.rep.unique _ _ _ _ _ ht hNew.1
    have hNoLeaf := hLeaves _ _ t _ hNew hSlot (fun hInner => hPre ▸ hEnd hInner) fun hLast => by
      subst hLast
      rw [← hPre]
      have hWhole : shape.pre (3 + 1) (ipa / 4096) = ipa / 4096 := Nat.div_one _
      rw [hWhole]
      exact hOut
    rw [hZero, hStale, lastStep_none hl hNoLeaf, lastStep_none hl]
    rintro (⟨_, hBlock⟩ | ⟨_, hPage⟩)
    · cases hBlock
    · cases hPage

end

section
variable {m : Mem} {a : PageAllocator} {h' : Host} {root va pa size attr : Nat} {node : Nat → Nat → Option Nat}
  {r' : Tables}

theorem follows_start (hTree : Tree m root node) (hTables : InUseTables a node) :
    Follows m root node ⟨m, a, []⟩ (a, node) m where
  tree := hTree
  allocator := rfl
  tables := hTables
  cells _ _ _ _ := .inl rfl
  stale l q t _ hNew := by cases hNew.2.symm.trans hNew.1
  free _ _ _ _ := rfl

/-- With pages enough for the missing tables, and none of them with a word that refers to a table, a call changes no
translation outside its range exactly if the pages hold no block or page descriptor for an address outside. -/
theorem pagemap_grants_nothing_iff (hTree : Tree m root node) (hTables : InUseTables a node) (hAttr : attr < 2 ^ 64)
    (hEnd : va + size ≤ 2 ^ 48) (hNew : tablesFor (va / 4096) (size / 4096) (a, node) = some r')
    (hNone : NoReferences m node r'.2) (hMap : pagemap ⟨m, a, []⟩ root va pa size attr = .ok h') :
    (∀ ipa, ipa < va ∨ va + size ≤ ipa → archWalk h'.mem root ipa = archWalk m root ipa) ↔
      NoLeaves m node r'.2 (va / 4096) ((va + size) / 4096) := by
  rw [pagemap, pageSize] at hMap
  split at hMap
  · cases hMap
  rename_i hAligned
  have hLast : (va + size) / 4096 = va / 4096 + size / 4096 := by omega
  obtain ⟨m₀, hFollows, hHas, hLeaf⟩ := pagemapLoop_follows (follows_start hTree hTables)
    (fun _ _ _ ht => ht) hAttr (by omega) hNew hNone hMap
  rw [hLast]
  constructor
  · intro hSame l q t i hTable hi hInner hOuter hStale
    have hOut := hFollows.firstPage_outside hHas hTable.1 hi hInner hOuter
    have hVacant := hFollows.vacant_word hTable hi hInner (hLeaf _ hOut)
    obtain ⟨hSome, hWas⟩ := hFollows.leaf_translates hTree hNone hTable hi
      (hFollows.stale l q t i hTable hi hVacant) hStale
    rw [hSame _ (by omega), hWas] at hSome
    cases hSome
  · intro hLeaves ipa hOut
    obtain hIpa | hIpa := Nat.lt_or_ge ipa (2 ^ 48)
    · rw [hFollows.walk_eq hNone hLeaves hIpa (by omega), hFollows.tree.archWalk_eq ipa hIpa,
        hTree.archWalk_eq ipa hIpa, hLeaf _ (by omega)]
    · rw [archWalk, archWalk, if_neg (by omega), if_neg (by omega)]

end

def rootAllocator : PageAllocator := bootHost.allocPage.1.allocator

theorem rootAllocator_tables :
    InUseTables rootAllocator (fun l p => if l = 0 ∧ p = 0 then some 0x40000000 else none) := by
  refine ⟨⟨by decide, by decide⟩, by decide, ?_⟩
  intro l p t k ht hk hEq
  split at ht
  · cases ht
    obtain rfl : k = 0 := by
      change 0x40000000 = (0x40000 + k) * 4096 at hEq
      omega
    exact absurd hk (by decide)
  · cases ht

theorem rootAllocator_tree {m : Mem} (hRoot : Zero m 0x40000000 4096) :
    Tree m 0x40000000 (fun l p => if l = 0 ∧ p = 0 then some 0x40000000 else none) :=
  tree_root hRoot (by decide) (by decide) (by decide)

theorem rootAllocator_tablesFor : ∃ r', tablesFor 0 1
    (rootAllocator, fun l p => if l = 0 ∧ p = 0 then some 0x40000000 else none) = some r' := by
  apply Option.isSome_iff_exists.mp
  decide +kernel

def idleMem : Mem := store (fun _ => 0) 0x40001028 8 2

theorem load_even {m : Mem} {a : Nat} (h : (m a).toNat % 2 = 0) (n : Nat) : load m a n % 2 = 0 := by
  cases n with
  | zero => rfl
  | succ n =>
    rw [load]
    omega

theorem idleMem_even (t i : Nat) : descriptor idleMem t i % 2 = 0 := by
  apply load_even
  generalize t + 8 * i = a
  rw [idleMem, store]
  split
  · rename_i hIn
    obtain ⟨j, rfl⟩ := Nat.exists_eq_add_of_le hIn.1
    have hBytes : ∀ j, j < 8 → (UInt8.ofNat (2 / 256 ^ j)).toNat % 2 = 0 := by decide
    rw [Nat.add_sub_cancel_left]
    exact hBytes j (by omega)
  · rfl

theorem idle_returns : returns (pagemap ⟨idleMem, rootAllocator, []⟩ 0x40000000 0 0x50000000 4096 0xc4)
    (fun _ => true) = true := by
  decide +kernel

/-- An invalid descriptor in a new table changes nothing: mapping page 0 changes the translation of no other page. -/
theorem pagemap_grants_nothing_idle : ∃ h',
    pagemap ⟨idleMem, rootAllocator, []⟩ 0x40000000 0 0x50000000 4096 0xc4 = .ok h' ∧
    ∀ ipa, 4096 ≤ ipa → archWalk h'.mem 0x40000000 ipa = archWalk idleMem 0x40000000 ipa := by
  obtain ⟨h', hMap, _⟩ := exists_of_returns idle_returns
  obtain ⟨r', hTables⟩ := rootAllocator_tablesFor
  have hRoot : Zero idleMem 0x40000000 4096 := by
    intro i hi
    exact store_sameOutside _ 0x40001028 8 2 _ (by omega)
  have hIff := pagemap_grants_nothing_iff (rootAllocator_tree hRoot) rootAllocator_tables (by decide)
    (by decide) hTables (fun _ _ t i _ _ _ hWord => by have := idleMem_even t i; omega) hMap
  refine ⟨h', hMap, fun ipa hIpa => hIff.mpr ?_ ipa (.inr hIpa)⟩
  rintro l q t i _ _ _ _ (⟨_, hBlock⟩ | ⟨_, hPage⟩)
  · have hEven := idleMem_even t i
    omega
  · have hEven := idleMem_even t i
    omega

/-- The next free page still holds what its last owner left there: one word, at offset 40. -/
def staleMem : Mem := store (fun _ => 0) 0x40001028 8 0x400004c5

theorem stale_returns : returns (pagemap ⟨staleMem, rootAllocator, []⟩ 0x40000000 0 0x50000000 4096 0xc4)
    (fun h => h.grants.all (fun g => g.page != minusOne) &&
      archWalk h.mem 0x40000000 0x140000000 == some ⟨0x400004c5, 0x40000000⟩) = true := by
  decide +kernel

/-- Mapping page 0 makes the stale word the block at 5 GB, which maps the gigabyte of the root table. -/
theorem stale_page_grants : ∃ h' node, Tree staleMem 0x40000000 node ∧ InUseTables rootAllocator node ∧
    pagemap ⟨staleMem, rootAllocator, []⟩ 0x40000000 0 0x50000000 4096 0xc4 = .ok h' ∧
    archWalk staleMem 0x40000000 0x140000000 = none ∧
    archWalk h'.mem 0x40000000 0x140000000 = some ⟨0x400004c5, 0x40000000⟩ := by
  obtain ⟨h', hMap, hTests⟩ := exists_of_returns stale_returns
  obtain ⟨_, hWalk⟩ := Bool.and_eq_true_iff.mp hTests
  have hRoot : Zero staleMem 0x40000000 4096 := by
    intro i hi
    exact store_sameOutside _ 0x40001028 8 0x400004c5 _ (by omega)
  exact ⟨h', _, rootAllocator_tree hRoot, rootAllocator_tables, hMap, by decide +kernel, beq_iff_eq.mp hWalk⟩

end HyperPoc.Stage2
