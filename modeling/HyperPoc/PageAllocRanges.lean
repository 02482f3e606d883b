import HyperPoc.PageAllocRuns
import HyperPoc.Library.RunSearch

/-! # Ranges of pages

`alloc_pages` searches from the hint to the end of the pool and goes on at page 0. The pages it has
counted at the end of the pool still count there, so that it may find a range that leaves the pool; and a
range that begins below the hint and ends behind it is in neither of its two loops.
-/
namespace HyperPoc.PageAllocator
open Library.RunSearch
set_option autoImplicit false

def unmarked (a : PageAllocator) (k : Nat) : Bool := !testBit a.bitmap k

def tail (a : PageAllocator) : Nat := a.totalPages - a.lastAlloc

/-- The page the two loops look at in round `p`. -/
def visited (a : PageAllocator) (p : Nat) : Nat := if p < a.tail then a.lastAlloc + p else p - a.tail

def visitedFree (a : PageAllocator) (p : Nat) : Bool := a.unmarked (a.visited p)

/-- No range at or behind the hint is free, but pages at the end of the pool and pages from 0 on make up
the number asked for. -/
structure Wraps (a : PageAllocator) (nrPages : Nat) : Prop where
  none : ∀ s, a.lastAlloc ≤ s → s + nrPages ≤ a.totalPages → ¬FreeRun a.unmarked s nrPages
  wrap : ∃ t, 0 < t ∧ t < nrPages ∧ a.lastAlloc + t ≤ a.totalPages ∧ nrPages ≤ t + a.lastAlloc ∧
    FreeRun a.unmarked (a.totalPages - t) t ∧ FreeRun a.unmarked 0 (nrPages - t)

section
variable {a : PageAllocator} {nrPages : Nat}

/-- A loop over consecutive pages is a scan over its rounds, and `start` is the page of the round in which
the count began. -/
theorem findLoop_scan (a : PageAllocator) (nrPages n i start cnt p : Nat)
    (hPage : ∀ j, j < n → a.visited (p + j) = i + j) (hCnt : cnt ≤ p)
    (hStart : cnt ≠ 0 → start = a.visited (p - cnt)) :
    (∃ q, scan a.visitedFree nrPages n p cnt = .inl q ∧
      findLoop a.bitmap nrPages n i start cnt = .inl (a.visited q)) ∨
    (∃ c start', scan a.visitedFree nrPages n p cnt = .inr c ∧
      findLoop a.bitmap nrPages n i start cnt = .inr (start', c) ∧ c ≤ p + n ∧
      (c ≠ 0 → start' = a.visited (p + n - c))) := by
  induction n generalizing i start cnt p with
  | zero => exact .inr ⟨cnt, start, rfl, rfl, hCnt, hStart⟩
  | succ n ih =>
    have hHere : a.visited p = i := hPage 0 (by omega)
    have hNext : ∀ j, j < n → a.visited (p + 1 + j) = i + 1 + j := by
      intro j hj
      have hEq := hPage (j + 1) (by omega)
      rw [show p + 1 + j = p + (j + 1) by omega, hEq]
      omega
    have hEnd : p + (n + 1) = p + 1 + n := by omega
    rw [scan, findLoop, hEnd, visitedFree, hHere, unmarked]
    cases hBit : testBit a.bitmap i with
    | true =>
      simp only [Bool.not_true, Bool.false_eq_true, if_false, if_true]
      exact ih (i + 1) start 0 (p + 1) hNext (by omega) (fun h => (h rfl).elim)
    | false =>
      have hBegin : (if cnt = 0 then i else start) = a.visited (p - cnt) := by
        split
        · rename_i hZero
          rw [hZero, Nat.sub_zero, hHere]
        · rename_i hNe
          exact hStart hNe
      simp only [Bool.not_false, Bool.false_eq_true, if_false, if_true]
      split
      · exact .inl ⟨p - cnt, rfl, congrArg Sum.inl hBegin⟩
      · apply ih (i + 1) _ (cnt + 1) (p + 1) hNext (by omega)
        intro _
        rw [Nat.add_sub_add_right]
        exact hBegin

theorem findFreeRange_scan (a : PageAllocator) (nrPages : Nat) : a.findFreeRange nrPages =
    match scan a.visitedFree nrPages (a.tail + a.lastAlloc) 0 0 with
    | .inl p => a.visited p
    | .inr _ => minusOne := by
  have hFirst : ∀ j, j < a.tail → a.visited (0 + j) = a.lastAlloc + j := by
    intro j hj
    rw [Nat.zero_add, visited, if_pos hj]
  have hSecond : ∀ j, j < a.lastAlloc → a.visited (a.tail + j) = 0 + j := by
    intro j _
    rw [visited, if_neg (by omega)]
    omega
  rw [findFreeRange, scan_add]
  obtain ⟨q, hScan, hLoop⟩ | ⟨c, start, hScan, hLoop, hc, hStart⟩ :=
    findLoop_scan a nrPages a.tail a.lastAlloc 0 0 0 hFirst (Nat.le_refl 0) (fun h => (h rfl).elim)
  · rw [tail] at hScan hLoop
    simp only [tail, hScan, hLoop]
  · rw [Nat.zero_add] at hc hStart
    rw [tail] at hLoop
    simp only [hScan, hLoop, Nat.zero_add]
    obtain ⟨q, hScan, hLoop⟩ | ⟨c, start', hScan, hLoop, _⟩ :=
      findLoop_scan a nrPages a.lastAlloc 0 start c a.tail hSecond hc hStart
    · simp only [hScan, hLoop]
    · simp only [hScan, hLoop]

theorem visited_behind {p n : Nat} (h : p + n ≤ a.tail) :
    FreeRun a.visitedFree p n ↔ FreeRun a.unmarked (a.lastAlloc + p) n := by
  constructor
  · intro hRun k hk hkn
    have hFree := hRun (k - a.lastAlloc) (by omega) (by omega)
    rw [visitedFree, visited, if_pos (by omega), Nat.add_sub_cancel' (by omega)] at hFree
    exact hFree
  · intro hRun k hk hkn
    rw [visitedFree, visited, if_pos (by omega)]
    exact hRun _ (by omega) (by omega)

theorem visited_below {p n : Nat} (h : a.tail ≤ p) :
    FreeRun a.visitedFree p n ↔ FreeRun a.unmarked (p - a.tail) n := by
  constructor
  · intro hRun k hk hkn
    have hFree := hRun (k + a.tail) (by omega) (by omega)
    rw [visitedFree, visited, if_neg (by omega), Nat.add_sub_cancel] at hFree
    exact hFree
  · intro hRun k hk hkn
    rw [visitedFree, visited, if_neg (by omega)]
    exact hRun _ (by omega) (by omega)

theorem visited_across {p n : Nat} (hp : p ≤ a.tail) (hn : a.tail ≤ p + n) : FreeRun a.visitedFree p n ↔
    FreeRun a.unmarked (a.lastAlloc + p) (a.tail - p) ∧ FreeRun a.unmarked 0 (p + n - a.tail) := by
  rw [show n = a.tail - p + (p + n - a.tail) by omega, freeRun_add, visited_behind (by omega),
    visited_below (by omega), show p + (a.tail - p) - a.tail = 0 by omega,
    show p + (a.tail - p + (p + n - a.tail)) - a.tail = p + n - a.tail by omega]

theorem Wraps.visited (h : a.Wraps nrPages) :
    ∃ p, p < a.tail ∧ p + nrPages ≤ a.tail + a.lastAlloc ∧ FreeRun a.visitedFree p nrPages := by
  obtain ⟨t, hPos, _, hTail, hHead, hEnd, hStart⟩ := h.wrap
  have hCount : a.tail = a.totalPages - a.lastAlloc := rfl
  refine ⟨a.tail - t, by omega, by omega, (visited_across (by omega) (by omega)).mpr ⟨?_, ?_⟩⟩
  · rwa [show a.lastAlloc + (a.tail - t) = a.totalPages - t by omega,
      show a.tail - (a.tail - t) = t by omega]
  · rwa [show a.tail - t + nrPages - a.tail = nrPages - t by omega]

theorem wraps_of_visited {p : Nat}
    (hNone : ∀ s, a.lastAlloc ≤ s → s + nrPages ≤ a.totalPages → ¬FreeRun a.unmarked s nrPages)
    (hp : p < a.tail) (hOut : a.tail < p + nrPages) (hEnd : p + nrPages ≤ a.tail + a.lastAlloc)
    (hRun : FreeRun a.visitedFree p nrPages) :
    a.Wraps nrPages := by
  have hCount : a.tail = a.totalPages - a.lastAlloc := rfl
  obtain ⟨hEndFree, hStartFree⟩ := (visited_across (by omega) (by omega)).mp hRun
  refine ⟨hNone, a.tail - p, by omega, by omega, by omega, by omega, ?_, ?_⟩
  · rwa [show a.totalPages - (a.tail - p) = a.lastAlloc + p by omega]
  · rwa [show nrPages - (a.tail - p) = p + nrPages - a.tail by omega]

/-- The range found lies behind the hint, leaves the pool, or lies below the hint, in this order. -/
theorem findFreeRange_cases (a : PageAllocator) (hNr : 0 < nrPages) :
    (∃ s, a.lastAlloc ≤ s ∧ s + nrPages ≤ a.totalPages ∧ FreeRun a.unmarked s nrPages ∧
      a.findFreeRange nrPages = s) ∨
    (a.Wraps nrPages ∧ ∃ s, s < a.totalPages ∧ a.totalPages < s + nrPages ∧ a.findFreeRange nrPages = s) ∨
    (¬a.Wraps nrPages ∧ (∀ s, a.lastAlloc ≤ s → s + nrPages ≤ a.totalPages →
      ¬FreeRun a.unmarked s nrPages) ∧
      ((∃ s, s + nrPages ≤ a.lastAlloc ∧ FreeRun a.unmarked s nrPages ∧ a.findFreeRange nrPages = s) ∨
      ((∀ s, s + nrPages ≤ a.lastAlloc → ¬FreeRun a.unmarked s nrPages) ∧
        a.findFreeRange nrPages = minusOne))) := by
  have hCount : a.tail = a.totalPages - a.lastAlloc := rfl
  have hBehind : ∀ s, a.lastAlloc ≤ s → s + nrPages ≤ a.totalPages → FreeRun a.unmarked s nrPages →
      FreeRun a.visitedFree (s - a.lastAlloc) nrPages := by
    intro s hLow hHigh hRun
    rw [visited_behind (by omega), Nat.add_sub_cancel' hLow]
    exact hRun
  have hStart : Scanned a.visitedFree nrPages 0 0 := scanned_start hNr
  rw [findFreeRange_scan]
  obtain ⟨p, hScan, hFirst, hEnd⟩ | ⟨c, hScan, hNone⟩ := hStart.scan (a.tail + a.lastAlloc)
  · simp only [hScan]
    obtain hOut | hIn := Nat.lt_or_ge a.tail (p + nrPages)
    · have hNoneBehind : ∀ s, a.lastAlloc ≤ s → s + nrPages ≤ a.totalPages →
          ¬FreeRun a.unmarked s nrPages := by
        intro s hLow hHigh hRun
        exact hFirst.first (s - a.lastAlloc) (by omega) (hBehind s hLow hHigh hRun)
      obtain hp | hp := Nat.lt_or_ge p a.tail
      · have hPage : a.visited p = a.lastAlloc + p := if_pos hp
        have hWraps := wraps_of_visited hNoneBehind hp hOut (by omega) hFirst.run
        exact .inr (.inl ⟨hWraps, a.lastAlloc + p, by omega, by omega, hPage⟩)
      · have hPage : a.visited p = p - a.tail := if_neg (by omega)
        refine .inr
          (.inr ⟨?_, hNoneBehind, .inl ⟨p - a.tail, by omega, (visited_below hp).mp hFirst.run, hPage⟩⟩)
        intro hWraps
        obtain ⟨q, hq, _, hRun⟩ := hWraps.visited
        exact hFirst.first q (by omega) hRun
    · have hPage : a.visited p = a.lastAlloc + p := if_pos (by omega)
      exact .inl ⟨a.lastAlloc + p, by omega, by omega, (visited_behind hIn).mp hFirst.run, hPage⟩
  · simp only [hScan]
    rw [Nat.zero_add] at hNone
    refine .inr (.inr ⟨?_, ?_, .inr ⟨?_, trivial⟩⟩)
    · intro hWraps
      obtain ⟨q, _, hEnd, hRun⟩ := hWraps.visited
      exact hNone.none q hEnd hRun
    · intro s hLow hHigh hRun
      exact hNone.none (s - a.lastAlloc) (by omega) (hBehind s hLow hHigh hRun)
    · intro s hs hRun
      apply hNone.none (a.tail + s) (by omega)
      rwa [visited_below (by omega), Nat.add_sub_cancel_left]

end

theorem testBit_markRange_set (addr : Nat → BitVec 64) (i n m : Nat) :
    testBit (markRange setBit addr i n) m = (decide (i ≤ m ∧ m < i + n) || testBit addr m) := by
  induction n generalizing addr i with
  | zero =>
    have hNot : ¬(i ≤ m ∧ m < i + 0) := by omega
    rw [markRange, decide_eq_false hNot, Bool.false_or]
  | succ n ih =>
    rw [markRange, ih, testBit_setBit, ← Bool.or_assoc, ← Bool.decide_or]
    have hEq : ((i + 1 ≤ m ∧ m < i + 1 + n) ∨ m = i) ↔ (i ≤ m ∧ m < i + (n + 1)) := by omega
    rw [decide_eq_decide.mpr hEq]

def takeRange (a : PageAllocator) (s n : Nat) : PageAllocator :=
  { a with bitmap := markRange setBit a.bitmap s n, lastAlloc := s + n }

section
variable {a : PageAllocator} {nrPages : Nat}

theorem takeRange_inUse (a : PageAllocator) (s n k : Nat) :
    (a.takeRange s n).InUse k ↔ (s ≤ k ∧ k < s + n) ∨ a.InUse k := by
  simp [InUse, takeRange, testBit_markRange_set]

theorem unmarked_iff (k : Nat) : a.unmarked k = true ↔ ¬a.InUse k := by
  simp [unmarked, InUse]

theorem pfnToPhy_ne_minusOne (pfn : Nat) : pfnToPhy pfn ≠ minusOne := by
  rw [pfnToPhy, Nat.shiftLeft_eq, u64, minusOne]
  omega

theorem allocPages_refused (h : nrPages = 0 ∨ a.totalPages < nrPages) : a.allocPages nrPages = (a, minusOne) :=
  if_pos h

theorem allocPages_none (hFind : a.findFreeRange nrPages = minusOne) : a.allocPages nrPages = (a, minusOne) := by
  rw [allocPages]
  split
  · rfl
  · exact if_pos hFind

theorem allocPages_found {s : Nat} (hNr : 0 < nrPages) (hLe : nrPages ≤ a.totalPages)
    (hFind : a.findFreeRange nrPages = s) (hs : s ≠ minusOne) : (a.allocPages nrPages).2 ≠ minusOne := by
  rw [allocPages, if_neg (by omega)]
  simp only [hFind, if_neg hs]
  exact pfnToPhy_ne_minusOne _

theorem Pool.allocPages_eq (h : a.Pool) {s : Nat} (hNr : 0 < nrPages) (hLe : nrPages ≤ a.totalPages)
    (hFind : a.findFreeRange nrPages = s) (hs : s < a.totalPages) :
    a.allocPages nrPages = (a.takeRange s nrPages, a.pageAddr s) := by
  have hFits := h.fits
  have hStop : u64 (s + nrPages) = s + nrPages := u64_of_lt (by omega)
  have hPfn : u64 (a.basePfn + s) = a.basePfn + s := u64_of_lt (by omega)
  have hAddr : pfnToPhy (a.basePfn + s) = a.pageAddr s := by
    rw [pfnToPhy, Nat.shiftLeft_eq, u64_of_lt (by omega), pageAddr]
  have hNe : s ≠ minusOne := by
    rw [minusOne]
    omega
  rw [allocPages, if_neg (by omega)]
  simp only [hFind, if_neg hNe, hStop, hPfn, hAddr, Nat.add_sub_cancel_left, takeRange]

/-- What a successful `alloc_pages` promises about the range it returns. -/
def SoundAlloc (a : PageAllocator) (nrPages : Nat) : Prop :=
  (a.allocPages nrPages).2 ≠ minusOne → ∃ s, (a.allocPages nrPages).2 = a.pageAddr s ∧
    s + nrPages ≤ a.totalPages ∧ (∀ k, s ≤ k → k < s + nrPages → ¬a.InUse k) ∧
    (∀ k, (a.allocPages nrPages).1.InUse k ↔ (s ≤ k ∧ k < s + nrPages) ∨ a.InUse k) ∧
    (a.allocPages nrPages).1.lastAlloc ≤ a.totalPages

theorem Wraps.bounds (h : a.Wraps nrPages) : 0 < nrPages ∧ nrPages ≤ a.totalPages := by
  obtain ⟨t, _, _, _, _, _, _⟩ := h.wrap
  constructor <;> omega

theorem Pool.allocPages_cases (h : a.Pool) (nrPages : Nat) :
    (¬a.Wraps nrPages ∧ a.allocPages nrPages = (a, minusOne)) ∨
    (¬a.Wraps nrPages ∧ 0 < nrPages ∧ ∃ s, s + nrPages ≤ a.totalPages ∧ FreeRun a.unmarked s nrPages ∧
      a.allocPages nrPages = (a.takeRange s nrPages, a.pageAddr s)) ∨
    (a.Wraps nrPages ∧ ∃ s, a.totalPages < s + nrPages ∧
      a.allocPages nrPages = (a.takeRange s nrPages, a.pageAddr s)) := by
  by_cases hNr : 0 < nrPages ∧ nrPages ≤ a.totalPages
  · obtain ⟨hPos, hLe⟩ := hNr
    have hHint := h.hint
    obtain ⟨s, hLow, hEnd, hRun, hFind⟩ | ⟨hWraps, s, hs, hOut, hFind⟩ |
      ⟨hNot, _, ⟨s, hEnd, hRun, hFind⟩ | ⟨_, hFind⟩⟩ := a.findFreeRange_cases hPos
    · exact .inr (.inl ⟨fun hWraps => hWraps.none s hLow hEnd hRun, hPos, s, hEnd, hRun,
        h.allocPages_eq hPos hLe hFind (by omega)⟩)
    · exact .inr (.inr ⟨hWraps, s, hOut, h.allocPages_eq hPos hLe hFind hs⟩)
    · exact .inr (.inl ⟨hNot, hPos, s, by omega, hRun, h.allocPages_eq hPos hLe hFind (by omega)⟩)
    · exact .inl ⟨hNot, allocPages_none hFind⟩
  · refine .inl ⟨fun hWraps => hNr hWraps.bounds, allocPages_refused ?_⟩
    omega

theorem Pool.soundAlloc_iff (h : a.Pool) (nrPages : Nat) : a.SoundAlloc nrPages ↔ ¬a.Wraps nrPages := by
  rw [SoundAlloc]
  obtain ⟨hNot, hAlloc⟩ | ⟨hNot, _, s, hEnd, hRun, hAlloc⟩ | ⟨hWraps, s, hOut, hAlloc⟩ :=
    h.allocPages_cases nrPages
  · simp [hAlloc, hNot]
  · rw [hAlloc]
    constructor
    · intro _
      exact hNot
    · intro _ _
      refine ⟨s, rfl, hEnd, ?_, a.takeRange_inUse s nrPages, hEnd⟩
      intro k hk hkn
      exact (unmarked_iff k).mp (hRun k hk hkn)
  · rw [hAlloc]
    constructor
    · intro hSound
      obtain ⟨s', hAddr, hEnd, _⟩ := hSound (pageAddr_ne_minusOne a s)
      rw [pageAddr_inj a hAddr] at hOut
      omega
    · intro hNot
      exact (hNot hWraps).elim

end

/-- The runs from `a₀` whose `alloc_pages` calls are all as `allowed` says, with the ranges that are live:
the address returned and the number of pages. A `free_pages` call gives back a live range. -/
inductive RangeRun (allowed : PageAllocator → Nat → Prop) (a₀ : PageAllocator) :
    List (Nat × Nat) → PageAllocator → Prop
  | start : RangeRun allowed a₀ [] a₀
  | alloc {live : List (Nat × Nat)} {a : PageAllocator} {n : Nat} (hRun : RangeRun allowed a₀ live a)
    (hAllowed : allowed a n) (hOk : (a.allocPages n).2 ≠ minusOne) :
    RangeRun allowed a₀ (((a.allocPages n).2, n) :: live) (a.allocPages n).1
  | fail {live : List (Nat × Nat)} {a : PageAllocator} {n : Nat} (hRun : RangeRun allowed a₀ live a)
    (hFail : (a.allocPages n).2 = minusOne) : RangeRun allowed a₀ live (a.allocPages n).1
  | free {live : List (Nat × Nat)} {a : PageAllocator} {r : Nat × Nat} (hRun : RangeRun allowed a₀ live a)
    (hLive : r ∈ live) : RangeRun allowed a₀ (live.erase r) (a.freePages r.1 r.2).1

def Disjoint (r r' : Nat × Nat) : Prop := r.1 + 4096 * r.2 ≤ r'.1 ∨ r'.1 + 4096 * r'.2 ≤ r.1

/-- The live ranges are marked and apart from each other. -/
structure Ranges (a₀ : PageAllocator) (live : List (Nat × Nat)) (a : PageAllocator) : Prop where
  pool : a.Pool
  totalPages : a.totalPages = a₀.totalPages
  basePfn : a.basePfn = a₀.basePfn
  marked : ∀ r ∈ live, ∃ s, r.1 = a.pageAddr s ∧ 0 < r.2 ∧ s + r.2 ≤ a.totalPages ∧
    ∀ k, s ≤ k → k < s + r.2 → a.InUse k
  apart : live.Pairwise Disjoint

section
variable {a₀ a : PageAllocator} {live : List (Nat × Nat)}

theorem Disjoint.symm {r r' : Nat × Nat} (h : Disjoint r r') : Disjoint r' r := Or.symm h

theorem Ranges.take (h : Ranges a₀ live a) {s n : Nat} (hn : 0 < n) (hEnd : s + n ≤ a.totalPages)
    (hRun : FreeRun a.unmarked s n) : Ranges a₀ ((a.pageAddr s, n) :: live) (a.takeRange s n) where
  pool := ⟨h.pool.fits, hEnd⟩
  totalPages := h.totalPages
  basePfn := h.basePfn
  marked := by
    intro r hr
    obtain rfl | hr := List.mem_cons.mp hr
    · refine ⟨s, rfl, hn, hEnd, ?_⟩
      intro k hk hkn
      exact (a.takeRange_inUse s n k).mpr (.inl ⟨hk, hkn⟩)
    · obtain ⟨s', hAddr, hPos, hEnd', hUsed⟩ := h.marked r hr
      refine ⟨s', hAddr, hPos, hEnd', ?_⟩
      intro k hk hkn
      exact (a.takeRange_inUse s n k).mpr (.inr (hUsed k hk hkn))
  apart := by
    refine List.pairwise_cons.mpr ⟨?_, h.apart⟩
    intro r hr
    obtain ⟨s', hAddr, hPos, _, hUsed⟩ := h.marked r hr
    rw [Disjoint, hAddr, pageAddr, pageAddr]
    by_contra hMeet
    -- the larger of the two start pages would be free and in use
    have hFree := hRun (max s s') (by omega) (by omega)
    exact (unmarked_iff _).mp hFree (hUsed (max s s') (by omega) (by omega))

theorem Ranges.give (h : Ranges a₀ live a) {r : Nat × Nat} (hr : r ∈ live) :
    Ranges a₀ (live.erase r) (a.freePages r.1 r.2).1 := by
  obtain ⟨s, hAddr, hPos, hEnd, _⟩ := h.marked r hr
  have hApart : ∀ r' ∈ live.erase r, Disjoint r r' := by
    have hPairs := (List.perm_cons_erase hr).pairwise h.apart Disjoint.symm
    exact (List.pairwise_cons.mp hPairs).1
  rw [hAddr, h.pool.freePages_eq hPos hEnd]
  refine ⟨h.pool.giveRange s r.2, h.totalPages, h.basePfn, ?_, h.apart.sublist List.erase_sublist⟩
  intro r' hr'
  obtain ⟨s', hAddr', hPos', hEnd', hUsed⟩ := h.marked r' (List.mem_of_mem_erase hr')
  refine ⟨s', hAddr', hPos', hEnd', ?_⟩
  intro k hk hkn
  rw [giveRange_inUse]
  refine ⟨?_, hUsed k hk hkn⟩
  have hDisjoint := hApart r' hr'
  rw [Disjoint, hAddr, hAddr', pageAddr, pageAddr] at hDisjoint
  omega

theorem RangeRun.ranges (h₀ : a₀.Pool) (hRun : RangeRun (fun a n => ¬a.Wraps n) a₀ live a) :
    Ranges a₀ live a := by
  induction hRun with
  | start => exact ⟨h₀, rfl, rfl, by simp, .nil⟩
  | @alloc live a n _ hNot hOk ih =>
    obtain ⟨_, hAlloc⟩ | ⟨_, hPos, s, hEnd, hFree, hAlloc⟩ | ⟨hWraps, _⟩ := ih.pool.allocPages_cases n
    · rw [hAlloc] at hOk
      exact (hOk rfl).elim
    · rw [hAlloc]
      exact ih.take hPos hEnd hFree
    · exact (hNot hWraps).elim
  | @fail live a n _ hFail ih =>
    obtain ⟨_, hAlloc⟩ | ⟨_, _, s, _, _, hAlloc⟩ | ⟨_, s, _, hAlloc⟩ := ih.pool.allocPages_cases n
    · rw [hAlloc]
      exact ih
    · rw [hAlloc] at hFail
      exact (pageAddr_ne_minusOne a s hFail).elim
    · rw [hAlloc] at hFail
      exact (pageAddr_ne_minusOne a s hFail).elim
  | free _ hLive ih => exact ih.give hLive

/-- As long as no search has wrapped, a call is sound exactly if its own search does not wrap. -/
theorem allocPages_sound (a₀ : PageAllocator) (hFits : (a₀.basePfn + a₀.totalPages) * 4096 ≤ 2 ^ 64)
    (hHint : a₀.lastAlloc = 0) (live : List (Nat × Nat)) (a : PageAllocator)
    (hRun : RangeRun (fun a n => ¬a.Wraps n) a₀ live a) :
    (∀ nrPages, a.SoundAlloc nrPages ↔ ¬a.Wraps nrPages) ∧ a.lastAlloc ≤ a.totalPages ∧
    live.Pairwise Disjoint ∧
    ∀ r ∈ live, a₀.basePfn * 4096 ≤ r.1 ∧
      r.1 + 4096 * r.2 ≤ a₀.basePfn * 4096 + 4096 * a₀.totalPages := by
  have hRanges := hRun.ranges ⟨hFits, by omega⟩
  refine ⟨hRanges.pool.soundAlloc_iff, hRanges.pool.hint, hRanges.apart, ?_⟩
  intro r hr
  obtain ⟨s, hAddr, _, hEnd, _⟩ := hRanges.marked r hr
  have hTotal := hRanges.totalPages
  rw [hAddr, pageAddr, hRanges.basePfn]
  omega

end

def fivePages : PageAllocator := ⟨fun _ => 0, 5, 0x40122, 0⟩

/-- Pages 0 and 1 are handed out one by one, page 0 is given back, and a pair is handed out. -/
def holed (a : PageAllocator) : PageAllocator :=
  ((((a.allocPages 1).1.allocPages 1).1.freePages (a.allocPages 1).2 1).1.allocPages 2).1

theorem not_wraps_one (a : PageAllocator) : ¬a.Wraps 1 := by
  intro h
  obtain ⟨t, _, _, _⟩ := h.wrap
  omega

theorem not_wraps_of_hint_zero {a : PageAllocator} (h : a.lastAlloc = 0) (n : Nat) : ¬a.Wraps n := by
  intro hWraps
  obtain ⟨t, _, _, _, _, _⟩ := hWraps.wrap
  omega

theorem fivePages_run {allowed : PageAllocator → Nat → Prop} (hOne : ∀ a, allowed a 1)
    (hZero : ∀ a n, a.lastAlloc = 0 → allowed a n) :
    RangeRun allowed fivePages [(0x40124000, 2), (0x40123000, 1)] fivePages.holed := by
  have hStart : RangeRun allowed fivePages [] fivePages := .start
  have hTwo := RangeRun.alloc (n := 1) (.alloc (n := 1) hStart (hOne _) (by decide)) (hOne _) (by decide)
  have hGiven := RangeRun.free (r := (0x40122000, 1)) hTwo (by decide)
  exact .alloc hGiven (hZero _ 2 (by decide)) (by decide)

theorem allocPages_sound_fivePages : fivePages.lastAlloc = 0 ∧
    (∀ nrPages, fivePages.holed.SoundAlloc nrPages ↔ ¬fivePages.holed.Wraps nrPages) ∧
    fivePages.holed.lastAlloc ≤ fivePages.holed.totalPages := by
  obtain ⟨hSound, hHint, _⟩ := allocPages_sound fivePages (by decide) rfl _ _
    (fivePages_run not_wraps_one fun _ n h => not_wraps_of_hint_zero h n)
  exact ⟨rfl, hSound, hHint⟩

/-- The last page and page 0 are free, and they are returned as a range of two pages. -/
theorem allocPages_leaves_pool : ∃ live a, RangeRun (fun _ _ => True) fivePages live a ∧ ¬a.SoundAlloc 2 ∧
    (a.allocPages 2).2 = 0x40126000 ∧ (a.allocPages 2).1.InUse 5 ∧ (a.allocPages 2).1.lastAlloc = 6 := by
  refine ⟨_, _, fivePages_run (fun _ => trivial) (fun _ _ _ => trivial), ?_, by decide, by decide, by decide⟩
  intro hSound
  obtain ⟨s, hAddr, hEnd, _⟩ := hSound (by decide)
  have hAddr' : (fivePages.holed.allocPages 2).2 = fivePages.holed.pageAddr 4 := by decide
  rw [← pageAddr_inj _ (hAddr'.symm.trans hAddr)] at hEnd
  exact absurd hEnd (by decide)

/-- What a failed `alloc_pages` promises. -/
structure CompleteAlloc (a : PageAllocator) (nrPages : Nat) : Prop where
  exhausted : (a.allocPages nrPages).2 = minusOne →
    ∀ s, s + nrPages ≤ a.totalPages → ∃ k, s ≤ k ∧ k < s + nrPages ∧ a.InUse k
  same : (a.allocPages nrPages).2 = minusOne → (a.allocPages nrPages).1 = a

/-- Ranges of the length asked for are free, but all of them begin below the hint and end behind it, and
the search does not wrap. -/
structure CutByHint (a : PageAllocator) (nrPages : Nat) : Prop where
  free : ∃ s, s + nrPages ≤ a.totalPages ∧ FreeRun a.unmarked s nrPages
  cut : ∀ s, s + nrPages ≤ a.totalPages → FreeRun a.unmarked s nrPages →
    s < a.lastAlloc ∧ a.lastAlloc < s + nrPages
  noWrap : ¬a.Wraps nrPages

section
variable {a₀ a : PageAllocator} {nrPages : Nat}

theorem allocPages_same (h : (a.allocPages nrPages).2 = minusOne) : (a.allocPages nrPages).1 = a := by
  rw [allocPages] at h ⊢
  split
  · rfl
  · rename_i hNr
    rw [if_neg hNr] at h
    dsimp only at h ⊢
    split
    · rfl
    · rename_i hNe
      rw [if_neg hNe] at h
      exact (pfnToPhy_ne_minusOne _ h).elim

theorem exists_inUse {s n : Nat} (h : ¬FreeRun a.unmarked s n) : ∃ k, s ≤ k ∧ k < s + n ∧ a.InUse k := by
  by_contra hNone
  apply h
  intro k hk hkn
  rw [unmarked_iff]
  intro hUsed
  exact hNone ⟨k, hk, hkn, hUsed⟩

/-- The fields of the allocator are 64-bit words. -/
structure Words (a : PageAllocator) : Prop where
  totalPages : a.totalPages < 2 ^ 64
  lastAlloc : a.lastAlloc < 2 ^ 64

theorem Words.alloc (h : a.Words) (nrPages : Nat) : (a.allocPages nrPages).1.Words := by
  rw [allocPages]
  split
  · exact h
  · dsimp only
    split
    · exact h
    · exact ⟨h.totalPages, Nat.mod_lt _ (by decide)⟩

theorem Words.free (h : a.Words) (phyaddr n : Nat) : (a.freePages phyaddr n).1.Words := by
  have hHint := h.lastAlloc
  rw [freePages]
  split
  · exact h
  · dsimp only
    split
    · exact h
    · refine ⟨h.totalPages, ?_⟩
      dsimp only
      split <;> omega

theorem RangeRun.words {allowed : PageAllocator → Nat → Prop} {live : List (Nat × Nat)} (h₀ : a₀.Words)
    (hRun : RangeRun allowed a₀ live a) : a.Words := by
  induction hRun with
  | start => exact h₀
  | alloc _ _ _ ih => exact ih.alloc _
  | fail _ _ ih => exact ih.alloc _
  | free _ _ ih => exact ih.free _ _

theorem Words.fails_iff (h : a.Words) (hNr : 0 < nrPages) (hLe : nrPages ≤ a.totalPages) :
    (a.allocPages nrPages).2 = minusOne ↔ ¬a.Wraps nrPages ∧
      (∀ s, a.lastAlloc ≤ s → s + nrPages ≤ a.totalPages → ¬FreeRun a.unmarked s nrPages) ∧
      ∀ s, s + nrPages ≤ a.lastAlloc → ¬FreeRun a.unmarked s nrPages := by
  have hTotal := h.totalPages
  have hHint := h.lastAlloc
  have hFound : ∀ s, s + 1 < 2 ^ 64 → a.findFreeRange nrPages = s → (a.allocPages nrPages).2 ≠ minusOne := by
    intro s hs hFind
    refine allocPages_found hNr hLe hFind ?_
    rw [minusOne]
    omega
  obtain ⟨s, hLow, hEnd, hRun, hFind⟩ | ⟨hWraps, s, hs, _, hFind⟩ |
    ⟨hNot, hBehind, ⟨s, hEnd, hRun, hFind⟩ | ⟨hBelow, hFind⟩⟩ := a.findFreeRange_cases hNr
  · constructor
    · intro hFail
      exact (hFound s (by omega) hFind hFail).elim
    · rintro ⟨_, hBehind, _⟩
      exact (hBehind s hLow hEnd hRun).elim
  · constructor
    · intro hFail
      exact (hFound s (by omega) hFind hFail).elim
    · rintro ⟨hNot, _⟩
      exact (hNot hWraps).elim
  · constructor
    · intro hFail
      exact (hFound s (by omega) hFind hFail).elim
    · rintro ⟨_, _, hBelow⟩
      exact (hBelow s hEnd hRun).elim
  · constructor
    · intro _
      exact ⟨hNot, hBehind, hBelow⟩
    · intro _
      rw [allocPages_none hFind]

/-- A call misses a free range exactly if the hint cuts through all of them. -/
theorem allocPages_complete (a₀ : PageAllocator) (hTotal : a₀.totalPages < 2 ^ 64) (hHint : a₀.lastAlloc = 0)
    (live : List (Nat × Nat)) (a : PageAllocator) (hRun : RangeRun (fun _ _ => True) a₀ live a) (nrPages : Nat)
    (hNr : 1 ≤ nrPages) (hLe : nrPages ≤ a.totalPages) : a.CompleteAlloc nrPages ↔ ¬a.CutByHint nrPages := by
  have hWords := hRun.words ⟨hTotal, by omega⟩
  have hFails := hWords.fails_iff hNr hLe
  constructor
  · rintro hComplete ⟨⟨s, hs, hFree⟩, hCut, hNoWrap⟩
    have hHere := hCut s hs hFree
    have hFail : (a.allocPages nrPages).2 = minusOne := by
      refine hFails.mpr ⟨hNoWrap, ?_, ?_⟩
      · intro s' hLow hEnd hFree'
        have hAcross := hCut s' hEnd hFree'
        omega
      · intro s' hEnd hFree'
        have hAcross := hCut s' (by omega) hFree'
        omega
    obtain ⟨k, hk, hkn, hUsed⟩ := hComplete.exhausted hFail s hs
    exact (unmarked_iff k).mp (hFree k hk hkn) hUsed
  · intro hNotCut
    refine ⟨?_, allocPages_same⟩
    intro hFail s hs
    obtain ⟨hNoWrap, hBehind, hBelow⟩ := hFails.mp hFail
    apply exists_inUse
    intro hFree
    refine hNotCut ⟨⟨s, hs, hFree⟩, ?_, hNoWrap⟩
    intro s' hs' hFree'
    constructor
    · by_contra hGe
      exact hBehind s' (by omega) hs' hFree'
    · by_contra hGe
      exact hBelow s' (by omega) hFree'

end

def fourPages : PageAllocator := ⟨fun _ => 0, 4, 0x40122, 0⟩

theorem fourPages_run : RangeRun (fun _ _ => True) fourPages [(0x40124000, 2), (0x40123000, 1)] fourPages.holed := by
  have hStart : RangeRun (fun _ _ => True) fourPages [] fourPages := .start
  have hTwo := RangeRun.alloc (n := 1) (.alloc (n := 1) hStart trivial (by decide)) trivial (by decide)
  have hGiven := RangeRun.free (r := (0x40122000, 1)) hTwo (by decide)
  exact .alloc (n := 2) hGiven trivial (by decide)

theorem allocPages_complete_fourPages : (fourPages.holed.allocPages 2).2 = minusOne ∧
    (fourPages.holed.CompleteAlloc 2 ↔ ¬fourPages.holed.CutByHint 2) :=
  ⟨by decide, allocPages_complete fourPages (by decide) rfl _ _ fourPages_run 2 (by decide) (by decide)⟩

/-- Page 1 is given back as well. Pages 0 and 1 are free, and the hint is between them. -/
theorem allocPages_misses_range : ∃ live a, RangeRun (fun _ _ => True) fourPages live a ∧ ¬a.CompleteAlloc 2 ∧
    (a.allocPages 2).2 = minusOne ∧ ¬a.InUse 0 ∧ ¬a.InUse 1 := by
  have hFail : ((fourPages.holed.freePages 0x40123000 1).1.allocPages 2).2 = minusOne := by decide
  have hFree : ∀ k, k < 2 → ¬(fourPages.holed.freePages 0x40123000 1).1.InUse k := by decide
  refine ⟨_, _, .free (r := (0x40123000, 1)) fourPages_run (by decide), ?_, hFail, hFree 0 (by decide),
    hFree 1 (by decide)⟩
  intro hComplete
  obtain ⟨k, _, hk, hUsed⟩ := hComplete.exhausted hFail 0 (by decide)
  exact hFree k (by omega) hUsed

end HyperPoc.PageAllocator
