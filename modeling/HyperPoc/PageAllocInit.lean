import HyperPoc.Lib
import HyperPoc.PageAllocRanges

/-! # Setting up the page allocator

`page_allocator_init` clears as many bytes of the bitmap as the bitmap has words. The rest of the buffer
stays as it was, so that the pages behind the first eighth are free only if the buffer said so.
-/
namespace HyperPoc.PageAllocator
open Library.Memory Library.RunSearch
set_option autoImplicit false

def bitmapWords (m : Mem) (bitmapBuf : Nat) : Nat → BitVec 64 := fun w =>
  BitVec.ofNat 64 (load m (bitmapBuf + 8 * w) 8)

/-- The memory and `g_allocator` after the call, and its result. -/
def pageAllocatorInit (m : Mem) (a : PageAllocator) (bitmapBuf totalPages phyaddr : Nat) :
    (Mem × PageAllocator) × Int :=
  if bitmapBuf = 0 ∨ totalPages = 0 then ((m, a), -1)
  else
    let m := memset m bitmapBuf 0 (u64 (totalPages + 63) / 64)
    ((m, ⟨bitmapWords m bitmapBuf, totalPages, phyToPfn phyaddr, 0⟩), 0)

def afterAllocs (a : PageAllocator) (i : Nat) : PageAllocator := (fun b : PageAllocator => b.allocPage.1)^[i] a

/-- All pages are free, and they are handed out one after the other. -/
structure FreshPool (a : PageAllocator) (totalPages phyaddr : Nat) : Prop where
  free : ∀ k, k < totalPages → ¬a.InUse k
  hands : ∀ i, i < totalPages → (a.afterAllocs i).allocPage.2 = phyaddr + 4096 * i
  full : (a.afterAllocs totalPages).allocPage.2 = minusOne

/-- The number of bytes `page_allocator_init` clears, which is the number of words it should clear. -/
def clearedBytes (totalPages : Nat) : Nat := (totalPages + 63) / 64

theorem testBit_bitmapWords (m : Mem) (bitmapBuf k : Nat) :
    testBit (bitmapWords m bitmapBuf) k = (m (bitmapBuf + k / 8)).toNat.testBit (k % 8) := by
  have hWord : k % 64 < 64 := Nat.mod_lt k (by decide)
  have hAddr : bitmapBuf + 8 * (k / 64) + k % 64 / 8 = bitmapBuf + k / 8 := by omega
  have hBit : k % 64 % 8 = k % 8 := by omega
  rw [testBit_eq, bitmapWords, BitVec.getLsbD_ofNat, testBit_load m (by omega), hAddr, hBit]
  simp [hWord]

section
variable {a : PageAllocator}

/-- The first `i` pages are in use and the others are free. -/
structure Filled (a : PageAllocator) (i : Nat) : Prop extends Hinted a where
  inUse_iff : ∀ k, k < a.totalPages → (a.InUse k ↔ k < i)

theorem Filled.next {i : Nat} (h : a.Filled i) (hi : i < a.totalPages) :
    a.allocPage = (a.take i, a.pageAddr i) ∧ (a.take i).Filled (i + 1) := by
  have hUnused : ¬a.InUse i := by
    rw [h.inUse_iff i hi]
    exact Nat.lt_irrefl i
  obtain ⟨k, hFree, _, hBelow, hAlloc⟩ | ⟨hAll, _⟩ := h.toHinted.allocPage_cases
  · have hk : k = i := by
      have hNot : ¬k < i := by
        rw [← h.inUse_iff k hFree.1]
        exact not_inUse.mpr hFree.2
      obtain hLt | hGe := Nat.lt_or_ge i k
      · exact (hUnused (hBelow i hLt)).elim
      · omega
    subst hk
    refine ⟨hAlloc, h.toHinted.take hi hBelow, ?_⟩
    intro j hj
    rw [take_inUse, h.inUse_iff j hj]
    omega
  · exact (hUnused (hAll i hi)).elim

theorem Filled.full (h : a.Filled a.totalPages) : a.allocPage.2 = minusOne := by
  obtain ⟨k, hFree, _⟩ | ⟨_, hAlloc⟩ := h.toHinted.allocPage_cases
  · exact (not_inUse.mpr hFree.2 ((h.inUse_iff k hFree.1).mpr hFree.1)).elim
  · rw [hAlloc]

theorem Filled.afterAllocs (h : a.Filled 0) {i : Nat} (hi : i ≤ a.totalPages) :
    (a.afterAllocs i).Filled i ∧ (a.afterAllocs i).totalPages = a.totalPages ∧
    (a.afterAllocs i).basePfn = a.basePfn := by
  induction i with
  | zero => exact ⟨h, rfl, rfl⟩
  | succ i ih =>
    obtain ⟨hFilled, hTotal, hBase⟩ := ih (by omega)
    obtain ⟨hAlloc, hNext⟩ := hFilled.next (by omega)
    have hAfter : a.afterAllocs (i + 1) = (a.afterAllocs i).take i := by
      rw [PageAllocator.afterAllocs, Function.iterate_succ_apply']
      exact congrArg Prod.fst hAlloc
    rw [hAfter]
    exact ⟨hNext, hTotal, hBase⟩

theorem Filled.freshPool (h : a.Filled 0) : a.FreshPool a.totalPages (a.basePfn * 4096) where
  free := by
    intro k hk
    rw [h.inUse_iff k hk]
    exact Nat.not_lt_zero k
  hands := by
    intro i hi
    obtain ⟨hFilled, hTotal, hBase⟩ := h.afterAllocs (i := i) (by omega)
    obtain ⟨hAlloc, _⟩ := hFilled.next (by omega)
    rw [hAlloc, pageAddr_eq, hBase]
  full := by
    obtain ⟨hFilled, hTotal, _⟩ := h.afterAllocs (Nat.le_refl a.totalPages)
    apply Filled.full
    rwa [hTotal]

theorem allocPages_addr (a : PageAllocator) (nrPages : Nat) :
    (a.allocPages nrPages).2 = minusOne ∨ ∃ pfn, (a.allocPages nrPages).2 = pfnToPhy pfn := by
  rw [allocPages]
  split
  · exact .inl rfl
  · dsimp only
    split
    · exact .inl rfl
    · exact .inr ⟨_, rfl⟩

theorem pfnToPhy_eq (pfn : Nat) : pfnToPhy pfn = pfn % 2 ^ 52 * 4096 := by
  rw [pfnToPhy, Nat.shiftLeft_eq, u64]
  omega

theorem FreshPool.base {totalPages phyaddr : Nat} (h : a.FreshPool totalPages phyaddr) (hPos : 0 < totalPages)
    (hTotal : a.totalPages = totalPages) (hWords : a.Words) (hHint : a.lastAlloc = 0) :
    phyaddr % 4096 = 0 ∧ phyaddr + 4096 * totalPages ≤ 2 ^ 64 := by
  have hFirst := h.hands 0 hPos
  have hLast := h.hands (totalPages - 1) (by omega)
  have hFound : (a.allocPages 1).2 ≠ minusOne := by
    intro hFail
    obtain ⟨_, hNone, _⟩ := (hWords.fails_iff Nat.one_pos (by omega)).mp hFail
    apply hNone 0 (by omega) (by omega)
    intro k _ hk
    rw [unmarked_iff]
    exact h.free k (by omega)
  obtain hFail | ⟨pfn, hPfn⟩ := allocPages_addr a 1
  · exact (hFound hFail).elim
  · change (a.allocPages 1).2 = _ at hFirst
    rw [hPfn, pfnToPhy_eq] at hFirst
    obtain hFail | ⟨pfn', hPfn'⟩ := allocPages_addr (a.afterAllocs (totalPages - 1)) 1
    · change ((a.afterAllocs (totalPages - 1)).allocPages 1).2 = _ at hLast
      rw [hFail, minusOne] at hLast
      omega
    · change ((a.afterAllocs (totalPages - 1)).allocPages 1).2 = _ at hLast
      rw [hPfn', pfnToPhy_eq] at hLast
      omega

end

section
variable {m m' : Mem} {a a' : PageAllocator} {bitmapBuf totalPages phyaddr : Nat}

theorem pageAllocatorInit_ok (hInit : pageAllocatorInit m a bitmapBuf totalPages phyaddr = ((m', a'), 0)) :
    0 < totalPages ∧ a'.totalPages = totalPages ∧ a'.basePfn = phyToPfn phyaddr ∧ a'.lastAlloc = 0 ∧
    a'.bitmap = bitmapWords (memset m bitmapBuf 0 (u64 (totalPages + 63) / 64)) bitmapBuf := by
  rw [pageAllocatorInit] at hInit
  split at hInit
  · cases hInit
  · cases hInit
    exact ⟨by omega, rfl, rfl, rfl, rfl⟩

theorem testBit_cleared (hTotal : totalPages ≤ 2 ^ 52) (hRoom : bitmapBuf + 8 * clearedBytes totalPages ≤ 2 ^ 64)
    (hPos : 0 < totalPages) (k : Nat) :
    testBit (bitmapWords (memset m bitmapBuf 0 (u64 (totalPages + 63) / 64)) bitmapBuf) k =
      (decide (8 * clearedBytes totalPages ≤ k) && testBit (bitmapWords m bitmapBuf) k) := by
  rw [clearedBytes] at hRoom
  rw [u64_of_lt (by omega), testBit_bitmapWords, testBit_bitmapWords, clearedBytes,
    memset_eq m bitmapBuf _ 0 (by omega), fill]
  by_cases hIn : 8 * ((totalPages + 63) / 64) ≤ k
  · rw [if_neg (by omega), decide_eq_true hIn, Bool.true_and]
  · rw [if_pos (by omega), decide_eq_false hIn, Bool.false_and]
    simp

theorem filled_zero (hTotal : a.totalPages = totalPages) (hBase : a.basePfn = phyToPfn phyaddr)
    (hHint : a.lastAlloc = 0) (hFits : phyaddr + 4096 * totalPages ≤ 2 ^ 64)
    (hFree : ∀ k, k < totalPages → ¬a.InUse k) :
    a.Filled 0 := by
  have hPfn : a.basePfn = phyaddr / 2 ^ 12 := by rw [hBase, phyToPfn, Nat.shiftRight_eq_div_pow]
  refine ⟨⟨⟨by omega, by omega⟩, fun k hk => by omega⟩, ?_⟩
  intro k hk
  simp [hFree k (by omega)]

end

/-- The pool is fresh exactly if the base is a page address, the pool ends in the address space, and the
bits of the buffer that are not cleared were clear. -/
theorem pageAllocatorInit_fresh_iff (m m' : Mem) (a a' : PageAllocator) (bitmapBuf totalPages phyaddr : Nat)
    (hTotal : totalPages < 2 ^ 64) (hRoom : bitmapBuf + 8 * clearedBytes totalPages ≤ 2 ^ 64)
    (hInit : pageAllocatorInit m a bitmapBuf totalPages phyaddr = ((m', a'), 0)) :
    a'.FreshPool totalPages phyaddr ↔ phyaddr % 4096 = 0 ∧ phyaddr + 4096 * totalPages ≤ 2 ^ 64 ∧
      ∀ k, 8 * clearedBytes totalPages ≤ k → k < totalPages → testBit (bitmapWords m bitmapBuf) k = false := by
  obtain ⟨hPos, hPages, hBase, hHint, hBitmap⟩ := pageAllocatorInit_ok hInit
  constructor
  · intro hFresh
    obtain ⟨hAligned, hFits⟩ := hFresh.base hPos hPages ⟨by omega, by omega⟩ hHint
    refine ⟨hAligned, hFits, ?_⟩
    intro k hLow hk
    have hFree := not_inUse.mp (hFresh.free k hk)
    rw [hBitmap, testBit_cleared (by omega) hRoom hPos, decide_eq_true hLow, Bool.true_and] at hFree
    exact hFree
  · rintro ⟨hAligned, hFits, hStale⟩
    have hFree : ∀ k, k < totalPages → ¬a'.InUse k := by
      intro k hk
      rw [not_inUse, hBitmap, testBit_cleared (by omega) hRoom hPos]
      by_cases hLow : 8 * clearedBytes totalPages ≤ k
      · rw [hStale k hLow hk, Bool.and_false]
      · rw [decide_eq_false hLow, Bool.false_and]
    have hFresh := (filled_zero hPages hBase hHint hFits hFree).freshPool
    have hAddr : phyToPfn phyaddr * 4096 = phyaddr := by
      rw [phyToPfn, Nat.shiftRight_eq_div_pow]
      omega
    rwa [hPages, hBase, hAddr] at hFresh

def noPages : PageAllocator := ⟨fun _ => 0, 0, 0, 0⟩

theorem pageAllocatorInit_fresh_eightPages :
    (pageAllocatorInit (fun _ => 0xff) noPages 0x1000 8 0x40122000).1.2.FreshPool 8 0x40122000 := by
  refine (pageAllocatorInit_fresh_iff (fun _ => 0xff) _ noPages _ 0x1000 8 0x40122000 (by decide) (by decide) rfl).mpr
    ⟨by decide, by decide, ?_⟩
  intro k hLow hk
  rw [clearedBytes] at hLow
  omega

/-- With a buffer of ones page 8 of 16 is in use after the call, and the ninth page is not handed out. -/
theorem pageAllocatorInit_leaves_bits : ∃ m' a',
    pageAllocatorInit (fun _ => 0xff) noPages 0x1000 16 0x40122000 = ((m', a'), 0) ∧
    ¬a'.FreshPool 16 0x40122000 ∧ a'.InUse 8 ∧ (a'.afterAllocs 8).allocPage.2 = minusOne := by
  have hUsed : (pageAllocatorInit (fun _ => 0xff) noPages 0x1000 16 0x40122000).1.2.InUse 8 := by decide
  refine ⟨_, _, rfl, ?_, hUsed, by decide +kernel⟩
  intro hFresh
  exact hFresh.free 8 (by decide) hUsed

end HyperPoc.PageAllocator
