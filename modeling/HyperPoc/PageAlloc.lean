import HyperPoc.Basic
import HyperPoc.Library.BitField
import Mathlib.Data.Nat.Basic

/-! # The physical page allocator

One bit a page, in words of 64 bits, and a hint where the next search starts. The two search
loops of `__find_free_range` share their run counter; the range found is marked and the hint moves
behind it. The lock makes each call atomic, so a call is a function of the allocator's state.
-/
namespace HyperPoc
set_option autoImplicit false

structure PageAllocator where
  bitmap : Nat → BitVec 64
  totalPages : Nat
  basePfn : Nat
  lastAlloc : Nat

namespace PageAllocator

def testBit (addr : Nat → BitVec 64) (nr : Nat) : Bool :=
  (addr (nr / 64) >>> (nr % 64)) &&& 1#64 ≠ 0#64

def setBit (addr : Nat → BitVec 64) (nr : Nat) : Nat → BitVec 64 := fun w =>
  if w = nr / 64 then addr w ||| (1#64 <<< (nr % 64)) else addr w

def clearBit (addr : Nat → BitVec 64) (nr : Nat) : Nat → BitVec 64 := fun w =>
  if w = nr / 64 then addr w &&& ~~~(1#64 <<< (nr % 64)) else addr w

/-- `set_bit` or `clear_bit` for `n` pages from `i` on. -/
def markRange (mark : (Nat → BitVec 64) → Nat → Nat → BitVec 64) (addr : Nat → BitVec 64) (i : Nat) :
    Nat → Nat → BitVec 64
  | 0 => addr
  | n + 1 => markRange mark (mark addr i) (i + 1) n

/-- One search loop with `n` pages left from `i` on: the start page it returns, or the run it was
counting when it came to its end. -/
def findLoop (bitmap : Nat → BitVec 64) (nrPages : Nat) : Nat → Nat → Nat → Nat → Nat ⊕ (Nat × Nat)
  | 0, _, start, cnt => .inr (start, cnt)
  | n + 1, i, start, cnt =>
    if testBit bitmap i then findLoop bitmap nrPages n (i + 1) start 0
    else
      let start := if cnt = 0 then i else start
      if nrPages ≤ cnt + 1 then .inl start else findLoop bitmap nrPages n (i + 1) start (cnt + 1)

def findFreeRange (a : PageAllocator) (nrPages : Nat) : Nat :=
  match findLoop a.bitmap nrPages (a.totalPages - a.lastAlloc) a.lastAlloc 0 0 with
  | .inl start => start
  | .inr (start, cnt) =>
    match findLoop a.bitmap nrPages a.lastAlloc 0 start cnt with
    | .inl start => start
    | .inr _ => minusOne

def pfnToPhy (pfn : Nat) : Nat := u64 (pfn <<< 12)

def phyToPfn (phy : Nat) : Nat := phy >>> 12

def allocPages (a : PageAllocator) (nrPages : Nat) : PageAllocator × Nat :=
  if nrPages = 0 ∨ a.totalPages < nrPages then (a, minusOne)
  else
    let startPage := a.findFreeRange nrPages
    if startPage = minusOne then (a, minusOne)
    else
      let stop := u64 (startPage + nrPages)
      ({ a with
          bitmap := markRange setBit a.bitmap startPage (stop - startPage)
          lastAlloc := stop },
        pfnToPhy (u64 (a.basePfn + startPage)))

/-- The result is 0 on success and -1 when the range is refused. -/
def freePages (a : PageAllocator) (phyaddr nrPages : Nat) : PageAllocator × Int :=
  let pfn := phyToPfn phyaddr
  if pfn < a.basePfn ∨ nrPages = 0 then (a, -1)
  else
    let start := pfn - a.basePfn
    let stop := u64 (start + nrPages)
    if a.totalPages < stop then (a, -1)
    else
      ({ a with
          bitmap := markRange clearBit a.bitmap start (stop - start)
          lastAlloc := if start < a.lastAlloc then start else a.lastAlloc },
        0)

def allocPage (a : PageAllocator) : PageAllocator × Nat := a.allocPages 1

def freePage (a : PageAllocator) (phyaddr : Nat) : PageAllocator × Int := a.freePages phyaddr 1

theorem testBit_eq (addr : Nat → BitVec 64) (nr : Nat) :
    testBit addr nr = (addr (nr / 64)).getLsbD (nr % 64) := by
  have hBit : ∀ w : BitVec 64, (w &&& 1#64 ≠ 0#64) = (w.getLsbD 0 = true) := by
    intro w
    rw [ne_eq, BitVec.and_one_eq_setWidth_ofBool_getLsbD]
    cases w.getLsbD 0 <;> simp
  simp only [testBit, hBit, BitVec.getLsbD_ushiftRight, Nat.add_zero, Bool.decide_eq_true]

theorem testBit_setBit (addr : Nat → BitVec 64) (n m : Nat) :
    testBit (setBit addr n) m = (decide (m = n) || testBit addr m) := by
  rw [testBit_eq, testBit_eq, setBit]
  split
  · rename_i hWord
    have hEq : decide (m % 64 = n % 64) = decide (m = n) := decide_eq_decide.mpr (by omega)
    rw [Library.BitField.getLsbD_set _ _ _ (by omega), hEq]
  · rename_i hWord
    have hNe : m ≠ n := fun h => hWord (by rw [h])
    simp [hNe]

theorem testBit_clearBit (addr : Nat → BitVec 64) (n m : Nat) :
    testBit (clearBit addr n) m = (decide (m ≠ n) && testBit addr m) := by
  rw [testBit_eq, testBit_eq, clearBit]
  split
  · rename_i hWord
    have hEq : (!decide (m % 64 = n % 64)) = decide (m ≠ n) := by
      rw [← decide_not]
      exact decide_eq_decide.mpr (by omega)
    rw [Library.BitField.getLsbD_clear _ _ _ (by omega), hEq]
  · rename_i hWord
    have hNe : m ≠ n := fun h => hWord (by rw [h])
    simp [hNe]

theorem bitmap_ext {addr addr' : Nat → BitVec 64} (h : ∀ nr, testBit addr nr = testBit addr' nr) :
    addr = addr' := by
  funext w
  apply BitVec.eq_of_getLsbD_eq
  intro i hi
  have hBit := h (w * 64 + i)
  rw [testBit_eq, testBit_eq] at hBit
  have hDiv : (w * 64 + i) / 64 = w := by omega
  have hMod : (w * 64 + i) % 64 = i := by omega
  rwa [hDiv, hMod] at hBit

theorem testBit_markRange_clear (addr : Nat → BitVec 64) (i n m : Nat) :
    testBit (markRange clearBit addr i n) m = (decide (¬(i ≤ m ∧ m < i + n)) && testBit addr m) := by
  induction n generalizing addr i with
  | zero =>
    have hNot : ¬(i ≤ m ∧ m < i + 0) := by omega
    rw [markRange, decide_eq_true hNot, Bool.true_and]
  | succ n ih =>
    rw [markRange, ih, testBit_clearBit, ← Bool.and_assoc, ← Bool.decide_and]
    have hEq : (¬(i + 1 ≤ m ∧ m < i + 1 + n) ∧ m ≠ i) ↔ ¬(i ≤ m ∧ m < i + (n + 1)) := by omega
    rw [decide_eq_decide.mpr hEq]

/-- A one-page search stops at the first free page, or leaves the loop with no run counted. -/
theorem findLoop_one (bitmap : Nat → BitVec 64) (n i start : Nat) :
    (∃ k, i ≤ k ∧ k < i + n ∧ testBit bitmap k = false ∧
      (∀ j, i ≤ j → j < k → testBit bitmap j = true) ∧ findLoop bitmap 1 n i start 0 = .inl k) ∨
    ((∀ j, i ≤ j → j < i + n → testBit bitmap j = true) ∧
      findLoop bitmap 1 n i start 0 = .inr (start, 0)) := by
  induction n generalizing i with
  | zero => exact .inr ⟨fun j _ _ => by omega, rfl⟩
  | succ n ih =>
    cases hBit : testBit bitmap i with
    | false => exact .inl ⟨i, by omega, by omega, hBit, fun j _ _ => by omega, by simp [findLoop, hBit]⟩
    | true =>
      have hNext : findLoop bitmap 1 (n + 1) i start 0 = findLoop bitmap 1 n (i + 1) start 0 := by
        simp [findLoop, hBit]
      have hFrom : ∀ j, i ≤ j → i + 1 ≤ j ∨ testBit bitmap j = true := by
        intro j hj
        rcases Nat.eq_or_lt_of_le hj with rfl | hLt
        · exact .inr hBit
        · exact .inl hLt
      rw [hNext]
      rcases ih (i + 1) with ⟨k, hik, hkn, hFree, hBelow, hFound⟩ | ⟨hAll, hNone⟩
      · refine .inl ⟨k, by omega, by omega, hFree, ?_, hFound⟩
        intro j hj hjk
        rcases hFrom j hj with hj' | hSet
        · exact hBelow j hj' hjk
        · exact hSet
      · refine .inr ⟨?_, hNone⟩
        intro j hj hjn
        rcases hFrom j hj with hj' | hSet
        · exact hAll j hj' (by omega)
        · exact hSet

/-- The allocator's pages are physical addresses and its hint lies inside the pool. -/
structure Pool (a : PageAllocator) : Prop where
  fits : (a.basePfn + a.totalPages) * 4096 ≤ 2 ^ 64
  hint : a.lastAlloc ≤ a.totalPages

def InUse (a : PageAllocator) (k : Nat) : Prop := testBit a.bitmap k = true

def Free (a : PageAllocator) (k : Nat) : Prop := k < a.totalPages ∧ testBit a.bitmap k = false

instance (a : PageAllocator) (k : Nat) : Decidable (a.InUse k) :=
  inferInstanceAs (Decidable (testBit a.bitmap k = true))

instance (a : PageAllocator) (k : Nat) : Decidable (a.Free k) :=
  inferInstanceAs (Decidable (k < a.totalPages ∧ testBit a.bitmap k = false))

def pageAddr (a : PageAllocator) (k : Nat) : Nat := (a.basePfn + k) * 4096

/-- The allocator after page `k` has been handed out. -/
def take (a : PageAllocator) (k : Nat) : PageAllocator :=
  { a with bitmap := setBit a.bitmap k, lastAlloc := k + 1 }

/-- The page a search from the hint finds first, going round once. -/
structure NextFree (a : PageAllocator) (k : Nat) : Prop where
  free : a.Free k
  order : (a.lastAlloc ≤ k ∧ ∀ j, a.lastAlloc ≤ j → j < k → a.InUse j) ∨
    (k < a.lastAlloc ∧ (∀ j, a.lastAlloc ≤ j → j < a.totalPages → a.InUse j) ∧
      ∀ j, j < k → a.InUse j)

theorem findFreeRange_one (a : PageAllocator) (h : a.Pool) :
    (∃ k, a.NextFree k ∧ a.findFreeRange 1 = k) ∨
    ((∀ k, k < a.totalPages → a.InUse k) ∧ a.findFreeRange 1 = minusOne) := by
  have hHint := h.hint
  have hEnd : a.lastAlloc + (a.totalPages - a.lastAlloc) = a.totalPages := by omega
  rcases findLoop_one a.bitmap (a.totalPages - a.lastAlloc) a.lastAlloc 0 with
    ⟨k, hLow, hHigh, hFree, hBelow, hFound⟩ | ⟨hAll, hNone⟩
  · exact .inl ⟨k, ⟨⟨by omega, hFree⟩, .inl ⟨hLow, hBelow⟩⟩, by simp [findFreeRange, hFound]⟩
  · rw [hEnd] at hAll
    rcases findLoop_one a.bitmap a.lastAlloc 0 0 with
      ⟨k, _, hHigh, hFree, hBelow, hFound⟩ | ⟨hRest, hNone'⟩
    · refine .inl ⟨k, ⟨⟨by omega, hFree⟩, .inr ⟨by omega, hAll, fun j hj => hBelow j (by omega) hj⟩⟩,
        ?_⟩
      simp [findFreeRange, hNone, hFound]
    · refine .inr ⟨?_, by simp [findFreeRange, hNone, hNone']⟩
      intro k hk
      rcases Nat.lt_or_ge k a.lastAlloc with hLt | hGe
      · exact hRest k (by omega) (by omega)
      · exact hAll k hGe hk

/-- `alloc_page` takes the next free page, or fails without a change when there is none. -/
theorem allocPage_cases (a : PageAllocator) (h : a.Pool) :
    (∃ k, a.NextFree k ∧ a.allocPage = (a.take k, a.pageAddr k)) ∨
    ((∀ k, k < a.totalPages → a.InUse k) ∧ a.allocPage = (a, minusOne)) := by
  have hFits := h.fits
  rcases findFreeRange_one a h with ⟨k, hNext, hFind⟩ | ⟨hAll, hFind⟩
  · have hk : k < a.totalPages := hNext.free.1
    have hStop : u64 (k + 1) = k + 1 := u64_of_lt (by omega)
    have hPfn : u64 (a.basePfn + k) = a.basePfn + k := u64_of_lt (by omega)
    have hAddr : pfnToPhy (a.basePfn + k) = a.pageAddr k := by
      rw [pfnToPhy, Nat.shiftLeft_eq, u64_of_lt (by omega), pageAddr]
    have hOne : k + 1 - k = 1 := by omega
    have hNe : k ≠ minusOne := by
      rw [minusOne]
      omega
    refine .inl ⟨k, hNext, ?_⟩
    rw [allocPage, allocPages, if_neg (by omega)]
    simp only [hFind, if_neg hNe, hStop, hPfn, hAddr, hOne, markRange, take]
  · refine .inr ⟨hAll, ?_⟩
    rw [allocPage, allocPages]
    split
    · rfl
    · simp only [hFind, if_true]

@[simp] theorem take_pageAddr (a : PageAllocator) (k j : Nat) : (a.take k).pageAddr j = a.pageAddr j := rfl

theorem take_inUse (a : PageAllocator) (k j : Nat) : (a.take k).InUse j ↔ j = k ∨ a.InUse j := by
  simp [InUse, take, testBit_setBit]

theorem take_free (a : PageAllocator) (k j : Nat) : (a.take k).Free j ↔ a.Free j ∧ j ≠ k := by
  simp only [Free, take, testBit_setBit, Bool.or_eq_false_iff, decide_eq_false_iff_not]
  constructor
  · rintro ⟨hj, hNe, hBit⟩
    exact ⟨⟨hj, hBit⟩, hNe⟩
  · rintro ⟨⟨hj, hBit⟩, hNe⟩
    exact ⟨hj, hNe, hBit⟩

theorem Pool.take {a : PageAllocator} (h : a.Pool) {k : Nat} (hk : k < a.totalPages) : (a.take k).Pool :=
  ⟨h.fits, hk⟩

end PageAllocator
end HyperPoc
