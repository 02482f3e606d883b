import HyperPoc.PageAllocRanges

/-! # Giving pages back

`free_pages` checks the end of the range with a sum that may wrap.
-/
namespace HyperPoc.PageAllocator
set_option autoImplicit false

/-- What `free_pages` promises: it accepts exactly the ranges of the pool, and changes nothing else. -/
structure FreeContract (a : PageAllocator) (phyaddr nrPages : Nat) : Prop where
  accepts : (a.freePages phyaddr nrPages).2 = 0 ↔ 1 ≤ nrPages ∧ a.basePfn ≤ phyToPfn phyaddr ∧
    phyToPfn phyaddr + nrPages ≤ a.basePfn + a.totalPages
  clears : (a.freePages phyaddr nrPages).2 = 0 → ∀ k, (a.freePages phyaddr nrPages).1.InUse k ↔
    ¬(a.startPage phyaddr ≤ k ∧ k < a.startPage phyaddr + nrPages) ∧ a.InUse k
  hint : (a.freePages phyaddr nrPages).2 = 0 →
    (a.freePages phyaddr nrPages).1.lastAlloc = min a.lastAlloc (a.startPage phyaddr)
  pool : (a.freePages phyaddr nrPages).1.totalPages = a.totalPages ∧
    (a.freePages phyaddr nrPages).1.basePfn = a.basePfn
  refuses : (a.freePages phyaddr nrPages).2 ≠ 0 → a.freePages phyaddr nrPages = (a, -1)

/-- The sum of start page and length is too large for a word, and what is left of it is accepted. -/
def Overflows (a : PageAllocator) (phyaddr nrPages : Nat) : Prop :=
  a.basePfn ≤ phyToPfn phyaddr ∧ 2 ^ 64 ≤ a.startPage phyaddr + nrPages ∧
    a.startPage phyaddr + nrPages - 2 ^ 64 ≤ a.totalPages

section
variable {a : PageAllocator} {phyaddr nrPages : Nat}

theorem startPage_lt (hAddr : phyaddr < 2 ^ 64) : a.startPage phyaddr < 2 ^ 52 := by
  rw [startPage, phyToPfn, Nat.shiftRight_eq_div_pow]
  omega

theorem freePages_refused (h : phyToPfn phyaddr < a.basePfn ∨ nrPages = 0) :
    a.freePages phyaddr nrPages = (a, -1) := if_pos h

theorem freePages_beyond (h : a.totalPages < u64 (a.startPage phyaddr + nrPages)) :
    a.freePages phyaddr nrPages = (a, -1) := by
  rw [freePages]
  split
  · rfl
  · exact if_pos h

theorem freePages_accepted (hBase : a.basePfn ≤ phyToPfn phyaddr) (hNr : 0 < nrPages)
    (h : u64 (a.startPage phyaddr + nrPages) ≤ a.totalPages) : (a.freePages phyaddr nrPages).2 = 0 := by
  rw [freePages, if_neg (by omega)]
  dsimp only
  rw [if_neg]
  exact Nat.not_lt_of_le h

theorem freeContract_of_refused (h : a.freePages phyaddr nrPages = (a, -1))
    (hOut : ¬(1 ≤ nrPages ∧ a.basePfn ≤ phyToPfn phyaddr ∧
      phyToPfn phyaddr + nrPages ≤ a.basePfn + a.totalPages)) : a.FreeContract phyaddr nrPages := by
  have hRet : (a.freePages phyaddr nrPages).2 ≠ 0 := by simp [h]
  refine ⟨?_, fun hZero => (hRet hZero).elim, fun hZero => (hRet hZero).elim, ?_, fun _ => h⟩
  · constructor
    · intro hZero
      exact (hRet hZero).elim
    · intro hIn
      exact (hOut hIn).elim
  · rw [h]
    exact ⟨rfl, rfl⟩

theorem freeContract_of_range (hNr : 1 ≤ nrPages) (hBase : a.basePfn ≤ phyToPfn phyaddr)
    (hEnd : a.startPage phyaddr + nrPages ≤ a.totalPages) (hTotal : a.totalPages < 2 ^ 64) :
    a.FreeContract phyaddr nrPages := by
  have hWrap : a.startPage phyaddr + nrPages < 2 ^ 64 := by omega
  have hRet : (a.freePages phyaddr nrPages).2 = 0 :=
    freePages_accepted hBase hNr (by rwa [u64_of_lt hWrap])
  have hFree : (a.freePages phyaddr nrPages).1 = a.giveRange (a.startPage phyaddr) nrPages :=
    (PageAllocator.freePages_eq (Prod.ext rfl hRet) hWrap).2
  refine ⟨?_, fun _ => ?_, fun _ => ?_, ?_, fun hNe => (hNe hRet).elim⟩
  · rw [startPage] at hEnd
    constructor
    · intro _
      exact ⟨hNr, hBase, by omega⟩
    · intro _
      exact hRet
  · rw [hFree]
    exact a.giveRange_inUse (a.startPage phyaddr) nrPages
  · rw [hFree]
    exact a.giveRange_lastAlloc (a.startPage phyaddr) nrPages
  · rw [hFree]
    exact ⟨rfl, rfl⟩

end

theorem freeContract_iff (a : PageAllocator) (hTotal : a.totalPages < 2 ^ 64) (phyaddr nrPages : Nat)
    (hAddr : phyaddr < 2 ^ 64) (hNr : nrPages < 2 ^ 64) :
    a.FreeContract phyaddr nrPages ↔ ¬a.Overflows phyaddr nrPages := by
  have hStart : a.startPage phyaddr < 2 ^ 52 := startPage_lt hAddr
  have hDef : a.startPage phyaddr = phyToPfn phyaddr - a.basePfn := rfl
  constructor
  · rintro hContract ⟨hBase, hWrap, hLe⟩
    have hSum : u64 (a.startPage phyaddr + nrPages) = a.startPage phyaddr + nrPages - 2 ^ 64 := by
      rw [u64]
      omega
    have hRet : (a.freePages phyaddr nrPages).2 = 0 := freePages_accepted hBase (by omega) (by rwa [hSum])
    obtain ⟨_, _, hEnd⟩ := hContract.accepts.mp hRet
    omega
  · intro hNot
    by_cases hLow : phyToPfn phyaddr < a.basePfn ∨ nrPages = 0
    · exact freeContract_of_refused (freePages_refused hLow) (by omega)
    · obtain hIn | hOut := Nat.lt_or_ge a.totalPages (a.startPage phyaddr + nrPages)
      · refine freeContract_of_refused (freePages_beyond ?_) (by omega)
        obtain hFit | hWrap := Nat.lt_or_ge (a.startPage phyaddr + nrPages) (2 ^ 64)
        · rwa [u64_of_lt hFit]
        · by_contra hSmall
          apply hNot
          refine ⟨by omega, hWrap, ?_⟩
          rw [u64] at hSmall
          omega
      · exact freeContract_of_range (by omega) (by omega) hOut hTotal

theorem freeContract_fivePages : fivePages.totalPages < 2 ^ 64 ∧
    (fivePages.FreeContract 0x40123000 2 ↔ ¬fivePages.Overflows 0x40123000 2) :=
  ⟨by decide, freeContract_iff fivePages (by decide) 0x40123000 2 (by decide) (by decide)⟩

/-- A range of 2 ^ 64 - 1 pages is accepted. It clears nothing, and the hint moves. -/
theorem freePages_accepts_overflow : ∃ a : PageAllocator, a.totalPages < 2 ^ 64 ∧
    ¬a.FreeContract 0x40123000 (2 ^ 64 - 1) ∧ (a.freePages 0x40123000 (2 ^ 64 - 1)).2 = 0 ∧
    a.lastAlloc = 2 ∧ (a.freePages 0x40123000 (2 ^ 64 - 1)).1.lastAlloc = 1 := by
  have hRet : ((fivePages.allocPages 2).1.freePages 0x40123000 (2 ^ 64 - 1)).2 = 0 := by decide
  refine ⟨(fivePages.allocPages 2).1, by decide, ?_, hRet, by decide, by decide⟩
  intro hContract
  obtain ⟨_, _, hEnd⟩ := hContract.accepts.mp hRet
  exact absurd hEnd (by decide)

end HyperPoc.PageAllocator
