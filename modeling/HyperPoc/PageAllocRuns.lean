import HyperPoc.PageAlloc
import Mathlib.Data.Finset.Card
import Mathlib.Data.Finset.Range
import Mathlib.Logic.Function.Iterate

/-! # Whole runs of the single-page allocator

Along every run of `alloc_page` and successful `free_pages` calls from an empty pool the pages
below the hint are all in use. First fit, exhaustion and the absence of leaks follow from it.
-/
namespace HyperPoc.PageAllocator
set_option autoImplicit false

/-- A call with the result or the arguments that name its pages. -/
inductive Call
  | alloc (result : Nat)
  | free (phyaddr nrPages : Nat)

def startPage (a : PageAllocator) (phyaddr : Nat) : Nat := phyToPfn phyaddr - a.basePfn

/-- The runs from `a₀`, their calls listed newest first. -/
inductive Run (a₀ : PageAllocator) : List Call → PageAllocator → Prop
  | start : Run a₀ [] a₀
  | alloc {calls : List Call} {a : PageAllocator} : Run a₀ calls a →
      Run a₀ (.alloc a.allocPage.2 :: calls) a.allocPage.1
  | free {calls : List Call} {a a' : PageAllocator} {phyaddr n : Nat} : Run a₀ calls a →
      a.freePages phyaddr n = (a', 0) → a.startPage phyaddr + n < 2 ^ 64 →
      Run a₀ (.free phyaddr n :: calls) a'

/-- Page `k` has been handed out and not been freed since. -/
def Live (a₀ : PageAllocator) : List Call → Nat → Prop
  | [], _ => False
  | .alloc result :: calls, k => result = a₀.pageAddr k ∨ Live a₀ calls k
  | .free phyaddr n :: calls, k =>
    Live a₀ calls k ∧ ¬(a₀.startPage phyaddr ≤ k ∧ k < a₀.startPage phyaddr + n)

/-- Each free names only pages that are allocated at that time. -/
def Disciplined (a₀ : PageAllocator) : List Call → Prop
  | [] => True
  | .alloc _ :: calls => Disciplined a₀ calls
  | .free phyaddr n :: calls => Disciplined a₀ calls ∧
    ∀ k, a₀.startPage phyaddr ≤ k → k < a₀.startPage phyaddr + n → Live a₀ calls k

structure Hinted (a : PageAllocator) : Prop extends Pool a where
  below : ∀ k, k < a.lastAlloc → a.InUse k

theorem Hinted.allocPage_cases {a : PageAllocator} (h : a.Hinted) :
    (∃ k, a.Free k ∧ a.lastAlloc ≤ k ∧ (∀ j, j < k → a.InUse j) ∧
      a.allocPage = (a.take k, a.pageAddr k)) ∨
    ((∀ k, k < a.totalPages → a.InUse k) ∧ a.allocPage = (a, minusOne)) := by
  rcases PageAllocator.allocPage_cases a h.toPool with ⟨k, hNext, hAlloc⟩ | hFull
  · left
    rcases hNext.order with ⟨hLow, hBetween⟩ | ⟨hLow, _⟩
    · refine ⟨k, hNext.free, hLow, ?_, hAlloc⟩
      intro j hj
      rcases Nat.lt_or_ge j a.lastAlloc with hLt | hGe
      · exact h.below j hLt
      · exact hBetween j hGe hj
    · have hUsed : testBit a.bitmap k = true := h.below k hLow
      rw [hNext.free.2] at hUsed
      cases hUsed
  · exact .inr hFull

theorem Hinted.take {a : PageAllocator} (h : a.Hinted) {k : Nat} (hk : k < a.totalPages)
    (hBelow : ∀ j, j < k → a.InUse j) : (a.take k).Hinted where
  toPool := h.toPool.take hk
  below j hj := by
    have hj : j < k + 1 := hj
    rw [take_inUse]
    rcases Nat.eq_or_lt_of_le (Nat.le_of_lt_succ hj) with hEq | hLt
    · exact .inl hEq
    · exact .inr (hBelow j hLt)

/-- The allocator after the `n` pages from `s` on have been given back. -/
def giveRange (a : PageAllocator) (s n : Nat) : PageAllocator :=
  { a with bitmap := markRange clearBit a.bitmap s n, lastAlloc := if s < a.lastAlloc then s else a.lastAlloc }

theorem giveRange_inUse (a : PageAllocator) (s n k : Nat) :
    (a.giveRange s n).InUse k ↔ ¬(s ≤ k ∧ k < s + n) ∧ a.InUse k := by
  simp only [InUse, giveRange, testBit_markRange_clear, Bool.and_eq_true, decide_eq_true_eq]

theorem giveRange_lastAlloc (a : PageAllocator) (s n : Nat) :
    (a.giveRange s n).lastAlloc = min a.lastAlloc s := by
  rw [giveRange]
  dsimp only
  split <;> omega

theorem Pool.giveRange {a : PageAllocator} (h : a.Pool) (s n : Nat) : (a.giveRange s n).Pool where
  fits := h.fits
  hint := by
    rw [giveRange_lastAlloc]
    exact Nat.le_trans (Nat.min_le_left _ _) h.hint

theorem Pool.freePages_eq {a : PageAllocator} (h : a.Pool) {s n : Nat} (hn : 0 < n) (hEnd : s + n ≤ a.totalPages) :
    a.freePages (a.pageAddr s) n = (a.giveRange s n, 0) := by
  have hFits := h.fits
  have hPfn : phyToPfn (a.pageAddr s) = a.basePfn + s := by
    rw [phyToPfn, Nat.shiftRight_eq_div_pow, pageAddr]
    omega
  have hStop : u64 (s + n) = s + n := u64_of_lt (by omega)
  have hNot : ¬(a.basePfn + s < a.basePfn ∨ n = 0) := by omega
  have hIn : ¬a.totalPages < s + n := by omega
  simp only [freePages, hPfn, if_neg hNot, Nat.add_sub_cancel_left, hStop, if_neg hIn, PageAllocator.giveRange]

/-- A successful free clears exactly its range and pulls the hint back to it. -/
theorem freePages_eq {a a' : PageAllocator} {phyaddr n : Nat}
    (hFree : a.freePages phyaddr n = (a', 0)) (hWrap : a.startPage phyaddr + n < 2 ^ 64) :
    a.startPage phyaddr + n ≤ a.totalPages ∧ a' = a.giveRange (a.startPage phyaddr) n := by
  have hWrap' : phyToPfn phyaddr - a.basePfn + n < 2 ^ 64 := hWrap
  rw [freePages] at hFree
  split at hFree
  · cases hFree
  · simp only [u64_of_lt hWrap', Nat.add_sub_cancel_left] at hFree
    split at hFree
    · cases hFree
    · rename_i hLe
      cases hFree
      exact ⟨Nat.le_of_not_lt hLe, rfl⟩

theorem Hinted.giveRange {a : PageAllocator} (h : a.Hinted) (s n : Nat) : (a.giveRange s n).Hinted where
  toPool := h.toPool.giveRange s n
  below := by
    intro k hk
    rw [giveRange_lastAlloc] at hk
    exact (a.giveRange_inUse s n k).mpr ⟨by omega, h.below k (by omega)⟩

structure Kept (a₀ a : PageAllocator) : Prop where
  hinted : a.Hinted
  totalPages : a.totalPages = a₀.totalPages
  basePfn : a.basePfn = a₀.basePfn

theorem Kept.pageAddr {a₀ a : PageAllocator} (h : Kept a₀ a) (k : Nat) : a.pageAddr k = a₀.pageAddr k := by
  rw [PageAllocator.pageAddr, PageAllocator.pageAddr, h.basePfn]

theorem Run.kept {a₀ : PageAllocator} (h₀ : a₀.Hinted) {calls : List Call} {a : PageAllocator}
    (hRun : Run a₀ calls a) : Kept a₀ a := by
  induction hRun with
  | start => exact ⟨h₀, rfl, rfl⟩
  | alloc _ ih =>
    rcases ih.hinted.allocPage_cases with ⟨k, hFree, _, hBelow, hAlloc⟩ | ⟨_, hAlloc⟩
    · rw [hAlloc]
      exact ⟨ih.hinted.take hFree.1 hBelow, ih.totalPages, ih.basePfn⟩
    · rw [hAlloc]
      exact ih
  | free _ hFree hWrap ih =>
    obtain ⟨_, rfl⟩ := freePages_eq hFree hWrap
    exact ⟨ih.hinted.giveRange _ _, ih.totalPages, ih.basePfn⟩

theorem pageAddr_inj (a : PageAllocator) {j k : Nat} (h : a.pageAddr j = a.pageAddr k) : j = k := by
  rw [pageAddr, pageAddr] at h
  omega

theorem pageAddr_ne_minusOne (a : PageAllocator) (k : Nat) : a.pageAddr k ≠ minusOne := by
  rw [pageAddr, minusOne]
  omega

def freeCount (a : PageAllocator) : Nat := ((Finset.range a.totalPages).filter a.Free).card

theorem freeCount_take {a : PageAllocator} {k : Nat} (hFree : a.Free k) : (a.take k).freeCount + 1 = a.freeCount := by
  have hErase : (Finset.range (a.take k).totalPages).filter (a.take k).Free =
      ((Finset.range a.totalPages).filter a.Free).erase k := by
    ext j
    simp only [Finset.mem_filter, Finset.mem_range, Finset.mem_erase, take_free]
    exact ⟨fun ⟨hj, hf, hNe⟩ => ⟨hNe, hj, hf⟩, fun ⟨hNe, hj, hf⟩ => ⟨hj, hf, hNe⟩⟩
  rw [freeCount, hErase]
  exact Finset.card_erase_add_one (Finset.mem_filter.mpr ⟨Finset.mem_range.mpr hFree.1, hFree⟩)

theorem Pool.allocPage_count {a : PageAllocator} (h : a.Pool) :
    a.allocPage.2 ≠ minusOne ∧ a.allocPage.1.freeCount + 1 = a.freeCount ∨
      a.allocPage = (a, minusOne) ∧ a.freeCount = 0 := by
  rcases allocPage_cases a h with ⟨k, hNext, hAlloc⟩ | ⟨hFull, hAlloc⟩
  · rw [hAlloc]
    exact .inl ⟨pageAddr_ne_minusOne a k, freeCount_take hNext.free⟩
  · refine .inr ⟨hAlloc, ?_⟩
    rw [freeCount, Finset.card_eq_zero, Finset.filter_eq_empty_iff]
    intro k hk hFree
    have hUsed := hFull k (Finset.mem_range.mp hk)
    rw [InUse, hFree.2] at hUsed
    cases hUsed
theorem freePages_giveRange (a : PageAllocator) (phyaddr n : Nat) :
    (a.freePages phyaddr n).1 = a ∨ ∃ s m, (a.freePages phyaddr n).1 = a.giveRange s m := by
  rw [freePages]
  dsimp only
  split
  · exact .inl rfl
  · split
    · exact .inl rfl
    · exact .inr ⟨_, _, rfl⟩

theorem freeCount_giveRange (a : PageAllocator) (s n : Nat) : a.freeCount ≤ (a.giveRange s n).freeCount := by
  apply Finset.card_le_card
  intro k hk
  obtain ⟨hk, hFree⟩ := Finset.mem_filter.mp hk
  refine Finset.mem_filter.mpr ⟨hk, hFree.1, ?_⟩
  rw [giveRange, testBit_markRange_clear, hFree.2, Bool.and_false]

theorem Run.startPage_eq {a₀ a : PageAllocator} (h : Kept a₀ a) (phyaddr : Nat) :
    a.startPage phyaddr = a₀.startPage phyaddr := by
  rw [startPage, startPage, h.basePfn]

/-- With disciplined frees the marked pages of the pool are the live ones. -/
theorem Run.inUse_iff_live {a₀ : PageAllocator} (h₀ : a₀.Hinted)
    (hClear : ∀ k, k < a₀.totalPages → ¬a₀.InUse k) {calls : List Call} {a : PageAllocator}
    (hRun : Run a₀ calls a) (hDisc : Disciplined a₀ calls) (k : Nat) :
    Live a₀ calls k ↔ k < a₀.totalPages ∧ a.InUse k := by
  induction hRun with
  | start =>
    constructor
    · intro h
      cases h
    · rintro ⟨hk, hUsed⟩
      exact hClear k hk hUsed
  | alloc hPrev ih =>
    have hKept := hPrev.kept h₀
    have ih := ih hDisc
    rcases hKept.hinted.allocPage_cases with ⟨p, hFree, _, _, hAlloc⟩ | ⟨_, hAlloc⟩
    · have hp : p < a₀.totalPages := hKept.totalPages ▸ hFree.1
      rw [Live, hAlloc, take_inUse, ih, hKept.pageAddr]
      constructor
      · rintro (hAddr | ⟨hk, hUsed⟩)
        · have hEq := pageAddr_inj a₀ hAddr
          exact ⟨hEq ▸ hp, .inl hEq.symm⟩
        · exact ⟨hk, .inr hUsed⟩
      · rintro ⟨hk, hEq | hUsed⟩
        · exact .inl (by rw [hEq])
        · exact .inr ⟨hk, hUsed⟩
    · rw [Live, hAlloc, ih]
      constructor
      · rintro (hAddr | h)
        · exact False.elim (pageAddr_ne_minusOne a₀ k hAddr.symm)
        · exact h
      · exact .inr
  | free hPrev hFree hWrap ih =>
    have hKept := hPrev.kept h₀
    have ih := ih hDisc.1
    obtain ⟨_, rfl⟩ := freePages_eq hFree hWrap
    rw [Live, ih, ← Run.startPage_eq hKept, giveRange_inUse]
    constructor
    · rintro ⟨⟨hk, hUsed⟩, hOut⟩
      exact ⟨hk, hOut, hUsed⟩
    · rintro ⟨hk, hOut, hUsed⟩
      exact ⟨⟨hk, hUsed⟩, hOut⟩

theorem freePage_take {a : PageAllocator} (h : a.Pool) {k : Nat} (hFree : a.Free k) :
    ((a.take k).freePage (a.pageAddr k)).2 = 0 ∧
    ((a.take k).freePage (a.pageAddr k)).1.bitmap = a.bitmap := by
  have hGive : (a.take k).freePage (a.pageAddr k) = ((a.take k).giveRange k 1, 0) :=
    (h.take hFree.1).freePages_eq Nat.one_pos hFree.1
  rw [hGive]
  refine ⟨rfl, ?_⟩
  apply bitmap_ext
  intro nr
  change testBit (clearBit (setBit a.bitmap k) k) nr = _
  rw [testBit_clearBit, testBit_setBit]
  by_cases hEq : nr = k
  · rw [hEq, hFree.2]
    simp
  · simp [hEq]

/-- Every free page comes up: the calls before it only use up the pages below it. -/
theorem Hinted.reaches {a : PageAllocator} (h : a.Hinted) {k : Nat} (hFree : a.Free k) :
    ∃ n, ((fun b : PageAllocator => b.allocPage.1)^[n] a).allocPage.2 = a.pageAddr k := by
  have hk : a.lastAlloc ≤ k := by
    rcases Nat.lt_or_ge k a.lastAlloc with hLt | hGe
    · have hUsed : testBit a.bitmap k = true := h.below k hLt
      rw [hFree.2] at hUsed
      cases hUsed
    · exact hGe
  obtain ⟨d, hd⟩ : ∃ d, k - a.lastAlloc = d := ⟨_, rfl⟩
  -- on the distance of the page from the hint, which a call that takes a lower page cuts
  induction d using Nat.strongRecOn generalizing a with
  | ind d ih =>
    rcases h.allocPage_cases with ⟨p, hp, hLow, hBelow, hAlloc⟩ | ⟨hAll, _⟩
    · rcases Nat.lt_trichotomy p k with hLt | rfl | hGt
      · have hNext : (a.take p).Free k := (take_free a p k).mpr ⟨hFree, by omega⟩
        have hHint : (a.take p).lastAlloc = p + 1 := rfl
        obtain ⟨n, hn⟩ := ih (k - (p + 1)) (by omega) (h.take hp.1 hBelow) hNext (by omega) rfl
        refine ⟨n + 1, ?_⟩
        rw [Function.iterate_succ_apply, hAlloc, hn, take_pageAddr]
      · exact ⟨0, by rw [Function.iterate_zero_apply, hAlloc]⟩
      · have hUsed : testBit a.bitmap k = true := hBelow k hGt
        rw [hFree.2] at hUsed
        cases hUsed
    · have hUsed : testBit a.bitmap k = true := hAll k hFree.1
      rw [hFree.2] at hUsed
      cases hUsed

/-- The single-page contract in a state `a` that the calls have led to from `a₀`. -/
structure Contract (a₀ : PageAllocator) (calls : List Call) (a : PageAllocator) : Prop where
  below_hint : ∀ k, k < a.lastAlloc → a.InUse k
  hint_le : a.lastAlloc ≤ a.totalPages
  exhausted : a.allocPage.2 = minusOne ↔ ∀ k, k < a.totalPages → a.InUse k
  first_fit : a.allocPage.2 ≠ minusOne → ∃ k, k < a.totalPages ∧ ¬a.InUse k ∧
    (∀ j, j < k → a.InUse j) ∧ a.allocPage.2 = a.basePfn * 4096 + 4096 * k ∧
    ∀ j, a.allocPage.1.InUse j ↔ j = k ∨ a.InUse j
  restores : a.allocPage.2 ≠ minusOne → (a.allocPage.1.freePage a.allocPage.2).2 = 0 ∧
    (a.allocPage.1.freePage a.allocPage.2).1.bitmap = a.bitmap
  no_leak : ∀ k, k < a.totalPages → ¬a.InUse k →
    ∃ n, ((fun b : PageAllocator => b.allocPage.1)^[n] a).allocPage.2 = a.basePfn * 4096 + 4096 * k
  no_double : Disciplined a₀ calls → ∀ k, Live a₀ calls k →
    a.allocPage.2 ≠ a.basePfn * 4096 + 4096 * k

theorem not_inUse {a : PageAllocator} {k : Nat} : ¬a.InUse k ↔ testBit a.bitmap k = false := by
  simp [InUse]

theorem pageAddr_eq (a : PageAllocator) (k : Nat) : a.pageAddr k = a.basePfn * 4096 + 4096 * k := by
  rw [pageAddr]
  omega

theorem Run.contract (a₀ : PageAllocator) (hFits : (a₀.basePfn + a₀.totalPages) * 4096 ≤ 2 ^ 64)
    (hHint : a₀.lastAlloc = 0) (hClear : ∀ k, k < a₀.totalPages → ¬a₀.InUse k)
    (calls : List Call) (a : PageAllocator) (hRun : Run a₀ calls a) : Contract a₀ calls a := by
  have h₀ : a₀.Hinted := ⟨⟨hFits, by omega⟩, fun k hk => by omega⟩
  have hKept := hRun.kept h₀
  have h := hKept.hinted
  have hLeak : ∀ k, k < a.totalPages → ¬a.InUse k →
      ∃ n, ((fun b : PageAllocator => b.allocPage.1)^[n] a).allocPage.2 =
        a.basePfn * 4096 + 4096 * k := by
    intro k hk hUsed
    rw [← pageAddr_eq]
    exact h.reaches ⟨hk, not_inUse.mp hUsed⟩
  rcases h.allocPage_cases with ⟨k, hFree, _, hBelow, hAlloc⟩ | ⟨hAll, hAlloc⟩
  · have hUnused : ¬a.InUse k := not_inUse.mpr hFree.2
    refine ⟨h.below, h.hint, ?_, ?_, ?_, hLeak, ?_⟩
    · rw [hAlloc]
      constructor
      · intro hEq
        exact False.elim (pageAddr_ne_minusOne a k hEq)
      · intro hAll
        exact False.elim (hUnused (hAll k hFree.1))
    · intro _
      rw [hAlloc]
      exact ⟨k, hFree.1, hUnused, hBelow, pageAddr_eq a k, take_inUse a k⟩
    · intro _
      rw [hAlloc]
      exact freePage_take h.toPool hFree
    · intro hDisc j hLive hEq
      rw [hAlloc, ← pageAddr_eq] at hEq
      have hUsed := ((hRun.inUse_iff_live h₀ hClear hDisc j).mp hLive).2
      rw [← pageAddr_inj a hEq] at hUsed
      exact hUnused hUsed
  · refine ⟨h.below, h.hint, ?_, ?_, ?_, hLeak, ?_⟩
    · rw [hAlloc]
      exact ⟨fun _ => hAll, fun _ => rfl⟩
    · intro hNe
      rw [hAlloc] at hNe
      exact False.elim (hNe rfl)
    · intro hNe
      rw [hAlloc] at hNe
      exact False.elim (hNe rfl)
    · intro _ k _ hEq
      rw [hAlloc, ← pageAddr_eq] at hEq
      exact pageAddr_ne_minusOne a k hEq.symm

def twoPages : PageAllocator := ⟨fun _ => 0, 2, 0x40122, 0⟩

/-- Both pages of a pool at 0x40122000 are handed out and the first one is freed again. -/
theorem Run.contract_twoPages :
    Contract twoPages
      [.free 0x40122000 1, .alloc twoPages.allocPage.1.allocPage.2, .alloc twoPages.allocPage.2]
      (twoPages.allocPage.1.allocPage.1.freePages 0x40122000 1).1 := by
  have hClear : ∀ k, k < twoPages.totalPages → ¬twoPages.InUse k := by decide
  have hFree : (twoPages.allocPage.1.allocPage.1.freePages 0x40122000 1).2 = 0 := by decide
  exact Run.contract twoPages (by decide) rfl hClear _ _
    (.free (.alloc (.alloc .start)) (Prod.ext rfl hFree) (by decide))

end HyperPoc.PageAllocator
