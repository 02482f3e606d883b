import HyperPoc.Library.CriticalSection
import HyperPoc.PageAllocRuns
import HyperPoc.SpinlockRuns

/-! # The page allocator under its lock

Several cpus call `alloc_pages` and `free_pages`. The arguments are tested before the lock is taken, against
numbers that are fixed after the start. Behind the lock a call loads and stores words of the bitmap and the
hint one at a time, and the accesses of all cpus interleave.
-/
namespace HyperPoc.PageAllocator
open Library.CriticalSection Spinlock
set_option autoImplicit false

inductive PageCall
  | alloc (nrPages : Nat)
  | free (phyaddr nrPages : Nat)
  deriving DecidableEq

inductive PageAnswer
  | page (phyaddr : Nat)
  | status (ret : Int)
  deriving DecidableEq

/-- Where a call stands behind the lock. `first` and `second` are the loops of `__find_free_range`. -/
inductive PageLoc
  | begin (nrPages : Nat)
  | first (nrPages i start cnt : Nat)
  | second (nrPages i start cnt : Nat)
  | secondTest (nrPages i start cnt : Nat)
  | found (nrPages start : Nat)
  | mark (nrPages start i : Nat)
  | markStore (nrPages start i : Nat) (word : BitVec 64)
  | hint (nrPages start : Nat)
  | clear (start stop i : Nat)
  | clearStore (start stop i : Nat) (word : BitVec 64)
  | testHint (start : Nat)
  | storeHint (start : Nat)

def setWord (a : PageAllocator) (i : Nat) (word : BitVec 64) : PageAllocator :=
  { a with bitmap := fun w => if w = i / 64 then word else a.bitmap w }

def setHint (a : PageAllocator) (lastAlloc : Nat) : PageAllocator := { a with lastAlloc := lastAlloc }

/-- What a search loop does after it has tested page `i`. -/
def scanned (loop : Nat → Nat → Nat → PageLoc) (bit : Bool) (nrPages i start cnt : Nat) : PageLoc :=
  if bit then loop (i + 1) start 0
  else
    let start := if cnt = 0 then i else start
    if nrPages ≤ cnt + 1 then .found nrPages start else loop (i + 1) start (cnt + 1)

section
variable (totalPages basePfn : Nat)

def pageRefuse : PageCall → Option PageAnswer
  | .alloc nrPages => if nrPages = 0 ∨ totalPages < nrPages then some (.page minusOne) else none
  | .free phyaddr nrPages =>
    if phyToPfn phyaddr < basePfn ∨ nrPages = 0 then some (.status (-1))
    else if totalPages < u64 (phyToPfn phyaddr - basePfn + nrPages) then some (.status (-1))
    else none

def pageStart : PageCall → PageLoc
  | .alloc nrPages => .begin nrPages
  | .free phyaddr nrPages =>
    let start := phyToPfn phyaddr - basePfn
    .clear start (u64 (start + nrPages)) start

def pageAccess (a : PageAllocator) : PageLoc → PageAllocator × (PageLoc ⊕ PageAnswer)
  | .begin nrPages => (a, .inl (.first nrPages a.lastAlloc 0 0))
  | .first nrPages i start cnt =>
    if i < totalPages then (a, .inl (scanned (.first nrPages) (testBit a.bitmap i) nrPages i start cnt))
    else (a, .inl (.second nrPages 0 start cnt))
  | .second nrPages i start cnt =>
    if i < a.lastAlloc then (a, .inl (.secondTest nrPages i start cnt)) else (a, .inr (.page minusOne))
  | .secondTest nrPages i start cnt =>
    (a, .inl (scanned (.second nrPages) (testBit a.bitmap i) nrPages i start cnt))
  | .found nrPages start =>
    if start = minusOne then (a, .inr (.page minusOne)) else (a, .inl (.mark nrPages start start))
  | .mark nrPages start i =>
    if i < u64 (start + nrPages) then (a, .inl (.markStore nrPages start i (a.bitmap (i / 64))))
    else (a, .inl (.hint nrPages start))
  | .markStore nrPages start i word =>
    (a.setWord i (word ||| (1#64 <<< (i % 64))), .inl (.mark nrPages start (i + 1)))
  | .hint nrPages start => (a.setHint (u64 (start + nrPages)), .inr (.page (pfnToPhy (u64 (basePfn + start)))))
  | .clear start stop i =>
    if i < stop then (a, .inl (.clearStore start stop i (a.bitmap (i / 64)))) else (a, .inl (.testHint start))
  | .clearStore start stop i word =>
    (a.setWord i (word &&& ~~~(1#64 <<< (i % 64))), .inl (.clear start stop (i + 1)))
  | .testHint start => (a, if start < a.lastAlloc then .inl (.storeHint start) else .inr (.status 0))
  | .storeHint start => (a.setHint start, .inr (.status 0))

def lockedPages : Object PageAllocator PageCall PageAnswer PageLoc where
  refuse := pageRefuse totalPages basePfn
  start := pageStart basePfn
  access := pageAccess totalPages basePfn

end

/-- A call with nothing between its accesses. -/
def pageCall (a : PageAllocator) : PageCall → PageAllocator × PageAnswer
  | .alloc nrPages => ((a.allocPages nrPages).1, .page (a.allocPages nrPages).2)
  | .free phyaddr nrPages => ((a.freePages phyaddr nrPages).1, .status (a.freePages phyaddr nrPages).2)

section
variable {totalPages basePfn : Nat} {a a' : PageAllocator} {r : PageAnswer}

theorem setWord_setBit (a : PageAllocator) (i : Nat) :
    a.setWord i (a.bitmap (i / 64) ||| (1#64 <<< (i % 64))) = { a with bitmap := setBit a.bitmap i } := by
  rw [setWord, PageAllocator.mk.injEq]
  refine ⟨funext fun w => ?_, rfl, rfl, rfl⟩
  rw [setBit]
  split
  · rename_i hw
    rw [hw]
  · rfl

theorem setWord_clearBit (a : PageAllocator) (i : Nat) :
    a.setWord i (a.bitmap (i / 64) &&& ~~~(1#64 <<< (i % 64))) = { a with bitmap := clearBit a.bitmap i } := by
  rw [setWord, PageAllocator.mk.injEq]
  refine ⟨funext fun w => ?_, rfl, rfl, rfl⟩
  rw [clearBit]
  split
  · rename_i hw
    rw [hw]
  · rfl

/-- How a search loop goes on after `findLoop` has given its result. -/
def afterFirst (nrPages : Nat) : Nat ⊕ (Nat × Nat) → PageLoc
  | .inl start => .found nrPages start
  | .inr (start, cnt) => .second nrPages 0 start cnt

theorem runs_first {nrPages i start cnt : Nat}
    (h : (lockedPages totalPages basePfn).Runs a
      (afterFirst nrPages (findLoop a.bitmap nrPages (totalPages - i) i start cnt)) a' r) :
    (lockedPages totalPages basePfn).Runs a (.first nrPages i start cnt) a' r := by
  obtain ⟨n, hn⟩ : ∃ n, totalPages - i = n := ⟨_, rfl⟩
  rw [hn] at h
  induction n generalizing i start cnt with
  | zero =>
    apply Object.Runs.more _ h
    change (if i < totalPages then _ else _) = _
    rw [if_neg (by omega)]
    rfl
  | succ n ih =>
    have hAccess : (lockedPages totalPages basePfn).access a (.first nrPages i start cnt) =
        (a, .inl (scanned (.first nrPages) (testBit a.bitmap i) nrPages i start cnt)) := by
      change (if i < totalPages then _ else _) = _
      rw [if_pos (by omega)]
    apply Object.Runs.more hAccess
    rw [findLoop] at h
    rw [scanned]
    split at h
    · rename_i hBit
      rw [if_pos hBit]
      exact ih h (by omega)
    · rename_i hBit
      rw [if_neg hBit]
      dsimp only at h ⊢
      split at h
      · rename_i hEnough
        rw [if_pos hEnough]
        exact h
      · rename_i hEnough
        rw [if_neg hEnough]
        exact ih h (by omega)

theorem runs_second_step {nrPages i start cnt : Nat} (hi : i < a.lastAlloc)
    (h : (lockedPages totalPages basePfn).Runs a
      (scanned (.second nrPages) (testBit a.bitmap i) nrPages i start cnt) a' r) :
    (lockedPages totalPages basePfn).Runs a (.second nrPages i start cnt) a' r := by
  have hTest : (lockedPages totalPages basePfn).access a (.second nrPages i start cnt) =
      (a, .inl (.secondTest nrPages i start cnt)) := by
    change (if i < a.lastAlloc then _ else _) = _
    rw [if_pos hi]
  exact .more hTest (.more rfl h)

theorem runs_second_found {nrPages i start cnt n k : Nat} (hn : i + n = a.lastAlloc)
    (hLoop : findLoop a.bitmap nrPages n i start cnt = .inl k)
    (h : (lockedPages totalPages basePfn).Runs a (.found nrPages k) a' r) :
    (lockedPages totalPages basePfn).Runs a (.second nrPages i start cnt) a' r := by
  induction n generalizing i start cnt with
  | zero => cases hLoop
  | succ n ih =>
    apply runs_second_step (by omega)
    rw [findLoop] at hLoop
    rw [scanned]
    split at hLoop
    · rename_i hBit
      rw [if_pos hBit]
      exact ih (by omega) hLoop
    · rename_i hBit
      rw [if_neg hBit]
      dsimp only at hLoop ⊢
      split at hLoop
      · rename_i hEnough
        cases hLoop
        rw [if_pos hEnough]
        exact h
      · rename_i hEnough
        rw [if_neg hEnough]
        exact ih (by omega) hLoop

theorem runs_second_failed {nrPages i start cnt n : Nat} {run : Nat × Nat} (hn : i + n = a.lastAlloc)
    (hLoop : findLoop a.bitmap nrPages n i start cnt = .inr run) :
    (lockedPages totalPages basePfn).Runs a (.second nrPages i start cnt) a (.page minusOne) := by
  induction n generalizing i start cnt with
  | zero =>
    apply Object.Runs.last
    change (if i < a.lastAlloc then _ else _) = _
    rw [if_neg (by omega)]
  | succ n ih =>
    apply runs_second_step (by omega)
    rw [findLoop] at hLoop
    rw [scanned]
    split at hLoop
    · rename_i hBit
      rw [if_pos hBit]
      exact ih (by omega) hLoop
    · rename_i hBit
      rw [if_neg hBit]
      dsimp only at hLoop ⊢
      split at hLoop
      · cases hLoop
      · rename_i hEnough
        rw [if_neg hEnough]
        exact ih (by omega) hLoop

theorem runs_mark {nrPages start i n : Nat} (hn : u64 (start + nrPages) - i = n)
    (h : (lockedPages totalPages basePfn).Runs { a with bitmap := markRange setBit a.bitmap i n }
      (.hint nrPages start) a' r) :
    (lockedPages totalPages basePfn).Runs a (.mark nrPages start i) a' r := by
  induction n generalizing a i with
  | zero =>
    apply Object.Runs.more _ h
    change (if i < u64 (start + nrPages) then _ else _) = _
    rw [if_neg (by omega)]
    rfl
  | succ n ih =>
    have hLoad : (lockedPages totalPages basePfn).access a (.mark nrPages start i) =
        (a, .inl (.markStore nrPages start i (a.bitmap (i / 64)))) := by
      change (if i < u64 (start + nrPages) then _ else _) = _
      rw [if_pos (by omega)]
    have hStore : (lockedPages totalPages basePfn).access a (.markStore nrPages start i (a.bitmap (i / 64))) =
        ({ a with bitmap := setBit a.bitmap i }, .inl (.mark nrPages start (i + 1))) := by
      rw [← setWord_setBit]
      rfl
    exact .more hLoad (.more hStore (ih (by omega) h))

theorem runs_clear {start stop i n : Nat} (hn : stop - i = n)
    (h : (lockedPages totalPages basePfn).Runs { a with bitmap := markRange clearBit a.bitmap i n }
      (.testHint start) a' r) :
    (lockedPages totalPages basePfn).Runs a (.clear start stop i) a' r := by
  induction n generalizing a i with
  | zero =>
    apply Object.Runs.more _ h
    change (if i < stop then _ else _) = _
    rw [if_neg (by omega)]
    rfl
  | succ n ih =>
    have hLoad : (lockedPages totalPages basePfn).access a (.clear start stop i) =
        (a, .inl (.clearStore start stop i (a.bitmap (i / 64)))) := by
      change (if i < stop then _ else _) = _
      rw [if_pos (by omega)]
    have hStore : (lockedPages totalPages basePfn).access a (.clearStore start stop i (a.bitmap (i / 64))) =
        ({ a with bitmap := clearBit a.bitmap i }, .inl (.clear start stop (i + 1))) := by
      rw [← setWord_clearBit]
      rfl
    exact .more hLoad (.more hStore (ih (by omega) h))

theorem runs_found {nrPages start : Nat} (hBase : a.basePfn = basePfn)
    (hRefuse : ¬(nrPages = 0 ∨ a.totalPages < nrPages)) (hFind : a.findFreeRange nrPages = start) :
    (lockedPages totalPages basePfn).Runs a (.found nrPages start) (a.allocPages nrPages).1
      (.page (a.allocPages nrPages).2) := by
  rw [allocPages, if_neg hRefuse]
  dsimp only
  rw [hFind]
  split
  · rename_i hFail
    apply Object.Runs.last
    change (if start = minusOne then _ else _) = _
    rw [if_pos hFail]
  · rename_i hFail
    have hGo : (lockedPages totalPages basePfn).access a (.found nrPages start) =
        (a, .inl (.mark nrPages start start)) := by
      change (if start = minusOne then _ else _) = _
      rw [if_neg hFail]
    refine .more hGo (runs_mark rfl (.last ?_))
    rw [hBase]
    rfl

theorem runs_alloc {nrPages : Nat} (hTotal : a.totalPages = totalPages) (hBase : a.basePfn = basePfn)
    (hRefuse : ¬(nrPages = 0 ∨ totalPages < nrPages)) :
    (lockedPages totalPages basePfn).Runs a (.begin nrPages)
    (a.allocPages nrPages).1 (.page (a.allocPages nrPages).2) := by
  rw [← hTotal] at hRefuse
  apply Object.Runs.more rfl
  apply runs_first
  rw [← hTotal]
  have hFind := findFreeRange.eq_def a nrPages
  cases hFirst : findLoop a.bitmap nrPages (a.totalPages - a.lastAlloc) a.lastAlloc 0 0 with
  | inl start =>
    rw [hFirst] at hFind
    exact runs_found hBase hRefuse hFind
  | inr run =>
    obtain ⟨start, cnt⟩ := run
    rw [hFirst] at hFind
    change (lockedPages a.totalPages basePfn).Runs a (.second nrPages 0 start cnt) _ _
    cases hSecond : findLoop a.bitmap nrPages a.lastAlloc 0 start cnt with
    | inl start' =>
      simp only [hSecond] at hFind
      exact runs_second_found (Nat.zero_add _) hSecond (runs_found hBase hRefuse hFind)
    | inr run =>
      simp only [hSecond] at hFind
      rw [allocPages, if_neg hRefuse]
      dsimp only
      rw [if_pos hFind]
      exact runs_second_failed (Nat.zero_add _) hSecond

theorem runs_free {phyaddr nrPages : Nat} (hTotal : a.totalPages = totalPages) (hBase : a.basePfn = basePfn)
    (hRefuse : pageRefuse totalPages basePfn (.free phyaddr nrPages) = none) :
    (lockedPages totalPages basePfn).Runs a (pageStart basePfn (.free phyaddr nrPages)) (a.freePages phyaddr nrPages).1
      (.status (a.freePages phyaddr nrPages).2) := by
  rw [pageRefuse, ← hTotal, ← hBase] at hRefuse
  rw [freePages, ← hTotal, ← hBase]
  split at hRefuse
  · cases hRefuse
  · rename_i hArgs
    split at hRefuse
    · cases hRefuse
    · rename_i hEnd
      rw [if_neg hArgs]
      dsimp only
      rw [if_neg hEnd]
      refine runs_clear rfl ?_
      generalize markRange clearBit a.bitmap _ _ = bitmap
      by_cases hHint : phyToPfn phyaddr - a.basePfn < a.lastAlloc
      · rw [if_pos hHint]
        have hTest : (lockedPages a.totalPages a.basePfn).access { a with bitmap := bitmap }
            (.testHint (phyToPfn phyaddr - a.basePfn)) =
            ({ a with bitmap := bitmap }, .inl (.storeHint (phyToPfn phyaddr - a.basePfn))) :=
          congrArg (Prod.mk _) (if_pos hHint)
        exact .more hTest (.last rfl)
      · rw [if_neg hHint]
        exact .last (congrArg (Prod.mk _) (if_neg hHint))

end

theorem allocPages_fixed (a : PageAllocator) (nrPages : Nat) :
    (a.allocPages nrPages).1.totalPages = a.totalPages ∧ (a.allocPages nrPages).1.basePfn = a.basePfn := by
  rw [allocPages]
  split
  · exact ⟨rfl, rfl⟩
  · dsimp only
    split
    · exact ⟨rfl, rfl⟩
    · exact ⟨rfl, rfl⟩

theorem freePages_fixed (a : PageAllocator) (phyaddr nrPages : Nat) :
    (a.freePages phyaddr nrPages).1.totalPages = a.totalPages ∧
      (a.freePages phyaddr nrPages).1.basePfn = a.basePfn := by
  rw [freePages]
  dsimp only
  split
  · exact ⟨rfl, rfl⟩
  · split
    · exact ⟨rfl, rfl⟩
    · exact ⟨rfl, rfl⟩

/-- The accesses of a call, made without interruption, are the call. -/
theorem lockedPages_implements (totalPages basePfn : Nat) :
    (lockedPages totalPages basePfn).Implements (fun a => a.totalPages = totalPages ∧
      a.basePfn = basePfn) pageCall where
  refused := by
    rintro a op r ⟨rfl, rfl⟩ hRefuse
    cases op with
    | alloc nrPages =>
      change pageRefuse a.totalPages a.basePfn (.alloc nrPages) = _ at hRefuse
      rw [pageRefuse] at hRefuse
      split at hRefuse
      · rename_i hArgs
        cases hRefuse
        rw [pageCall, allocPages, if_pos hArgs]
      · cases hRefuse
    | free phyaddr nrPages =>
      change pageRefuse a.totalPages a.basePfn (.free phyaddr nrPages) = _ at hRefuse
      rw [pageRefuse] at hRefuse
      rw [pageCall, freePages]
      split at hRefuse
      · rename_i hArgs
        cases hRefuse
        rw [if_pos hArgs]
      · rename_i hArgs
        split at hRefuse
        · rename_i hEnd
          cases hRefuse
          rw [if_neg hArgs]
          dsimp only
          rw [if_pos hEnd]
        · cases hRefuse
  runs := by
    rintro a op ⟨hTotal, hBase⟩ hRefuse
    cases op with
    | alloc nrPages =>
      apply runs_alloc hTotal hBase
      intro hArgs
      change pageRefuse totalPages basePfn (.alloc nrPages) = _ at hRefuse
      rw [pageRefuse, if_pos hArgs] at hRefuse
      cases hRefuse
    | free phyaddr nrPages => exact runs_free hTotal hBase hRefuse
  keeps := by
    rintro a op ⟨rfl, rfl⟩
    cases op with
    | alloc nrPages => exact allocPages_fixed a nrPages
    | free phyaddr nrPages => exact freePages_fixed a phyaddr nrPages

abbrev PageSystem (n : Nat) := System (Fin n) PageAllocator PageCall PageAnswer PageLoc

/-- The accesses of `n` cpus in the order of the schedule. It names the call that an idle cpu begins. -/
def runCpus (n : Nat) (a₀ : PageAllocator) (schedule : List (Fin n × PageCall)) : PageSystem n :=
  System.run (lockedPages a₀.totalPages a₀.basePfn) (2 ^ 32) (.start a₀) schedule

def lockPc : Pc PageCall PageAnswer PageLoc → LockPc
  | .idle => .out
  | .wait _ t => .wait t
  | .inside _ _ | .leaving _ _ => .inside
  | .storing _ _ next => .storing next

/-- The calls are those of the sequential allocator in the order of the log, with its answers. -/
structure Sequential {n : Nat} (a₀ : PageAllocator) (x : PageSystem n) : Prop where
  lock : ∃ schedule, ((Lockers.start n).run schedule).lock = ⟨x.ticket, x.next⟩ ∧
    ((Lockers.start n).run schedule).pcs = fun cpu => lockPc (x.pcs cpu)
  exclusive : ∀ cpu cpu', (x.pcs cpu).Holds → (x.pcs cpu').Holds → cpu = cpu'
  history : ∃ a, History pageCall a₀ x.log a ∧ ((∀ cpu, ¬(x.pcs cpu).Inside) → x.shared = a)
  answered : ∀ cpu call r, (x.pcs cpu = .leaving call r ∨ ∃ next, x.pcs cpu = .storing call r next) →
    (cpu, call, r) ∈ x.log

/-- Every access is one of the lock's, or leaves the lock and the cpu's place at it alone. -/
theorem step_lock {n totalPages basePfn : Nat} (x : PageSystem n) (cpu : Fin n) (call : PageCall) :
    ((x.step (lockedPages totalPages basePfn) (2 ^ 32) cpu call).ticket = x.ticket ∧
      (x.step (lockedPages totalPages basePfn) (2 ^ 32) cpu call).next = x.next ∧
      (fun c => lockPc ((x.step (lockedPages totalPages basePfn) (2 ^ 32) cpu call).pcs c)) = fun c =>
        lockPc (x.pcs c)) ∨
    ((⟨(x.step (lockedPages totalPages basePfn) (2 ^ 32) cpu call).ticket,
        (x.step (lockedPages totalPages basePfn) (2 ^ 32) cpu call).next⟩ : Spinlock) =
        (lockStep ⟨x.ticket, x.next⟩ (lockPc (x.pcs cpu))).2 ∧
      (fun c => lockPc ((x.step (lockedPages totalPages basePfn) (2 ^ 32) cpu call).pcs c)) =
        Function.update (fun c => lockPc (x.pcs c)) cpu (lockStep ⟨x.ticket, x.next⟩ (lockPc (x.pcs cpu))).1) := by
  have hUpdate : ∀ pc, (fun c => lockPc (Function.update x.pcs cpu pc c)) =
      Function.update (fun c => lockPc (x.pcs c)) cpu (lockPc pc) :=
    fun pc => Function.comp_update lockPc x.pcs cpu pc
  have hSame : ∀ pc, lockPc pc = lockPc (x.pcs cpu) →
      (fun c => lockPc (Function.update x.pcs cpu pc c)) = fun c => lockPc (x.pcs c) := by
    intro pc hPc
    rw [hUpdate, hPc]
    exact Function.update_eq_self cpu _
  rw [System.step]
  cases hPc : x.pcs cpu with
  | idle =>
    dsimp only
    split
    · exact .inl ⟨rfl, rfl, rfl⟩
    · exact .inr ⟨rfl, hUpdate _⟩
  | wait call t =>
    dsimp only
    split
    · rename_i hTurn
      refine .inr ⟨rfl, ?_⟩
      rw [hUpdate]
      simp [lockPc, lockStep, granted, hTurn]
    · exact .inl ⟨rfl, rfl, rfl⟩
  | inside call l =>
    dsimp only
    split
    · exact .inl ⟨rfl, rfl, hSame _ (by rw [hPc]; rfl)⟩
    · exact .inl ⟨rfl, rfl, hSame _ (by rw [hPc]; rfl)⟩
  | leaving call r => exact .inr ⟨rfl, hUpdate _⟩
  | storing call r next => exact .inr ⟨rfl, hUpdate _⟩

theorem runCpus_lock {n : Nat} (a₀ : PageAllocator) (schedule : List (Fin n × PageCall)) :
    ∃ lockers, ((Lockers.start n).run lockers).lock = ⟨(runCpus n a₀ schedule).ticket,
      (runCpus n a₀ schedule).next⟩ ∧
      ((Lockers.start n).run lockers).pcs = fun cpu => lockPc ((runCpus n a₀ schedule).pcs cpu) := by
  induction schedule using List.reverseRecOn with
  | nil => exact ⟨[], rfl, rfl⟩
  | append_singleton schedule p ih =>
    obtain ⟨lockers, hLock, hPcs⟩ := ih
    have hRun : runCpus n a₀ (schedule ++ [p]) =
        (runCpus n a₀ schedule).step (lockedPages a₀.totalPages a₀.basePfn) (2 ^ 32) p.1 p.2 :=
          List.foldl_concat ..
    have hLast : (Lockers.start n).run (lockers ++ [p.1]) = ((Lockers.start n).run lockers).step p.1 :=
      List.foldl_concat ..
    rw [hRun]
    obtain ⟨hTicket, hNext, hSame⟩ | ⟨hStep, hMoved⟩ := step_lock (runCpus n a₀ schedule) p.1 p.2
    · refine ⟨lockers, ?_, ?_⟩
      · rw [hLock, hTicket, hNext]
      · rw [hPcs, hSame]
    · refine ⟨lockers ++ [p.1], ?_, ?_⟩
      · rw [hLast, hStep, ← hLock]
        change (lockStep ((Lockers.start n).run lockers).lock (((Lockers.start n).run lockers).pcs p.1)).2 = _
        rw [hPcs]
      · rw [hLast, hMoved, ← hLock]
        change Function.update ((Lockers.start n).run lockers).pcs p.1
          (lockStep ((Lockers.start n).run lockers).lock (((Lockers.start n).run lockers).pcs p.1)).1 = _
        rw [hPcs]

theorem runCpus_linearized {n : Nat} (hn : n < 2 ^ 32) (a₀ : PageAllocator) (schedule : List (Fin n × PageCall)) :
    ∃ queue a, Linearized (lockedPages a₀.totalPages a₀.basePfn) pageCall (2 ^ 32) a₀
      (runCpus n a₀ schedule) queue a := by
  rw [← Fintype.card_fin n] at hn
  exact (System.linearizes_run (lockedPages_implements a₀.totalPages a₀.basePfn) ⟨rfl, rfl⟩ hn schedule).2

/-- For every interleaving of the accesses of fewer than `2 ^ 32` cpus. -/
theorem concurrent_calls_sequential (n : Nat) (hn : n < 2 ^ 32) (a₀ : PageAllocator)
    (schedule : List (Fin n × PageCall)) : Sequential a₀ (runCpus n a₀ schedule) := by
  obtain ⟨queue, a, hLin⟩ := runCpus_linearized hn a₀ schedule
  exact ⟨runCpus_lock a₀ schedule, fun _ _ => hLin.queued.holder_unique, ⟨a, hLin.history, hLin.settled⟩,
    hLin.recorded⟩

/-- Cpu 0 allocates a page and frees it while cpu 1 waits with a call of its own. -/
def twoCpus : List (Fin 2 × PageCall) :=
  List.replicate 4 (0, .alloc 1) ++ [(1, .alloc 1)] ++ List.replicate 7 (0, .alloc 1) ++
    [(0, .free 0x40122000 1)] ++ List.replicate 11 (1, .alloc 1) ++ List.replicate 8 (0, .free 0x40122000 1) ++
    List.replicate 8 (1, .alloc 1)

theorem concurrent_calls_sequential_two : (2 : Nat) < 2 ^ 32 ∧ Sequential twoPages (runCpus 2 twoPages twoCpus) :=
  ⟨by decide, concurrent_calls_sequential 2 (by decide) twoPages twoCpus⟩

/-- A call that has given back the page at `phyaddr`. -/
def GivesBack (a₀ : PageAllocator) (phyaddr : Nat) (call : PageCall) (r : PageAnswer) : Prop :=
  ∃ p n, call = .free p n ∧ r = .status 0 ∧ a₀.startPage p ≤ a₀.startPage phyaddr ∧
    a₀.startPage phyaddr < a₀.startPage p + n

section
variable {n : Nat} {a₀ a a' : PageAllocator} {log : List (Fin n × PageCall × PageAnswer)}

theorem freePages_inUse {a a' : PageAllocator} {phyaddr m k : Nat} {ret : Int}
    (hFree : a.freePages phyaddr m = (a', ret)) (hUsed : a.InUse k) :
    a'.InUse k ∨ ret = 0 ∧ a.startPage phyaddr ≤ k ∧ k < a.startPage phyaddr + m := by
  rw [freePages] at hFree
  dsimp only at hFree
  split at hFree
  · cases hFree
    exact .inl hUsed
  · split at hFree
    · cases hFree
      exact .inl hUsed
    · cases hFree
      rw [InUse, testBit_markRange_clear, Bool.and_eq_true, decide_eq_true_eq]
      by_cases hRange : a.startPage phyaddr ≤ k ∧ k < a.startPage phyaddr + m
      · exact .inr ⟨rfl, hRange⟩
      · refine .inl ⟨?_, hUsed⟩
        have hWrap : u64 (a.startPage phyaddr + m) ≤ a.startPage phyaddr + m := Nat.mod_le _ _
        rw [startPage] at hRange hWrap
        omega

theorem startPage_pageAddr (a : PageAllocator) (k : Nat) : a.startPage (a.pageAddr k) = k := by
  rw [startPage, phyToPfn, pageAddr, Nat.shiftRight_eq_div_pow]
  omega

theorem Pool.freePages {a : PageAllocator} (h : a.Pool) (phyaddr m : Nat) : (a.freePages phyaddr m).1.Pool := by
  rw [PageAllocator.freePages]
  dsimp only
  split
  · exact h
  · split
    · exact h
    · refine ⟨h.fits, ?_⟩
      have hHint := h.hint
      dsimp only
      split
      · omega
      · exact hHint

theorem history_pool (hRun : History pageCall a log a') (hPool : a.Pool)
    (hSingle : ∀ e ∈ log, ∀ m, e.2.1 = .alloc m → m = 1) : a'.basePfn = a.basePfn ∧ a'.Pool := by
  induction hRun with
  | nil => exact ⟨rfl, hPool⟩
  | @snoc log b _ cpu call ih =>
    obtain ⟨hBase, hPool'⟩ := ih fun e he => hSingle e (List.mem_append_left _ he)
    cases call with
    | alloc m =>
      obtain rfl := hSingle _ (List.mem_append_right _ List.mem_cons_self) m rfl
      change (b.allocPage).1.basePfn = _ ∧ (b.allocPage).1.Pool
      obtain ⟨j, hNext, hAlloc⟩ | ⟨_, hAlloc⟩ := allocPage_cases b hPool'
      · rw [hAlloc]
        exact ⟨hBase, hPool'.take hNext.free.1⟩
      · rw [hAlloc]
        exact ⟨hBase, hPool'⟩
    | free phyaddr m => exact ⟨(freePages_fixed b phyaddr m).2.trans hBase, hPool'.freePages phyaddr m⟩

/-- A page that is in use stays so until a call gives it back. -/
theorem history_inUse (hRun : History pageCall a log a') (hPool : a.Pool)
    (hSingle : ∀ e ∈ log, ∀ m, e.2.1 = .alloc m → m = 1) {k : Nat} (hUsed : a.InUse k) :
    a'.InUse k ∨ ∃ e ∈ log, GivesBack a (a.pageAddr k) e.2.1 e.2.2 := by
  induction hRun with
  | nil => exact .inl hUsed
  | @snoc log b hPrev cpu call ih =>
    have hBefore : ∀ e ∈ log, ∀ m, e.2.1 = .alloc m → m = 1 := fun e he => hSingle e (List.mem_append_left _ he)
    obtain ⟨hBase, hPool'⟩ := history_pool hPrev hPool hBefore
    obtain hIn | ⟨e, he, hGives⟩ := ih hBefore
    · cases call with
      | alloc m =>
        obtain rfl := hSingle _ (List.mem_append_right _ List.mem_cons_self) m rfl
        left
        change (b.allocPage).1.InUse k
        obtain ⟨j, _, hAlloc⟩ | ⟨_, hAlloc⟩ := allocPage_cases b hPool'
        · rw [hAlloc]
          exact (take_inUse b j k).mpr (.inr hIn)
        · rw [hAlloc]
          exact hIn
      | free phyaddr m =>
        refine (freePages_inUse rfl hIn).imp_right ?_
        rintro ⟨hRet, hLow, hHigh⟩
        refine ⟨_, List.mem_append_right _ List.mem_cons_self, phyaddr, m, rfl, congrArg PageAnswer.status hRet, ?_⟩
        rw [startPage_pageAddr, startPage, ← hBase]
        exact ⟨hLow, hHigh⟩
    · exact .inr ⟨e, List.mem_append_left _ he, hGives⟩

end

/-- Between two calls that return the same page, whichever cpus make them, the page has been given back. -/
theorem page_returned_between (n : Nat) (hn : n < 2 ^ 32) (a₀ : PageAllocator) (hPool : a₀.Pool)
    (schedule : List (Fin n × PageCall))
    (hSingle : ∀ e ∈ (runCpus n a₀ schedule).log, ∀ m, e.2.1 = .alloc m → m = 1)
    (before between after : List (Fin n × PageCall × PageAnswer)) (cpu cpu' : Fin n) (phyaddr : Nat)
    (hLog : (runCpus n a₀ schedule).log =
      before ++ (cpu, .alloc 1, .page phyaddr) :: (between ++ (cpu', .alloc 1, .page phyaddr) :: after))
    (hPage : phyaddr ≠ minusOne) : ∃ e ∈ between, GivesBack a₀ phyaddr e.2.1 e.2.2 := by
  obtain ⟨queue, a, hLin⟩ := runCpus_linearized hn a₀ schedule
  have hHistory := hLin.history
  rw [hLog] at hHistory hSingle
  obtain ⟨a₁, hBefore, hRest⟩ := hHistory.append_inv
  obtain ⟨hFirst, hRest⟩ := hRest.cons_inv
  obtain ⟨a₂, hBetween, hRest⟩ := hRest.append_inv
  obtain ⟨hSecond, _⟩ := hRest.cons_inv
  obtain ⟨hBase₁, hPool₁⟩ := history_pool hBefore hPool fun e he => hSingle e (List.mem_append_left _ he)
  change PageAnswer.page phyaddr = .page a₁.allocPage.2 at hFirst
  change PageAnswer.page phyaddr = .page a₂.allocPage.2 at hSecond
  change History pageCall a₁.allocPage.1 between a₂ at hBetween
  have hSingle' : ∀ e ∈ between, ∀ m, e.2.1 = .alloc m → m = 1 := fun e he =>
    hSingle e (List.mem_append_right _ (List.mem_cons_of_mem _ (List.mem_append_left _ he)))
  obtain ⟨k, hNext, hAlloc⟩ | ⟨_, hAlloc⟩ := allocPage_cases a₁ hPool₁
  · rw [hAlloc] at hFirst hBetween
    cases hFirst
    have hTaken := hPool₁.take hNext.free.1
    obtain ⟨hBase₂, hPool₂⟩ := history_pool hBetween hTaken hSingle'
    obtain hStill | ⟨e, he, p, m, hCall, hStatus, hRange⟩ := history_inUse hBetween hTaken hSingle'
      ((take_inUse a₁ k k).mpr (.inl rfl))
    -- the second call has found the page free
    · obtain ⟨j, hNext₂, hAlloc₂⟩ | ⟨_, hAlloc₂⟩ := allocPage_cases a₂ hPool₂
      · rw [hAlloc₂, PageAnswer.page.injEq, pageAddr, pageAddr, hBase₂] at hSecond
        have hSame : k = j := pageAddr_inj a₁ hSecond
        rw [InUse, hSame, hNext₂.free.2] at hStill
        cases hStill
      · rw [hAlloc₂, PageAnswer.page.injEq] at hSecond
        exact (hPage hSecond).elim
    · refine ⟨e, he, p, m, hCall, hStatus, ?_⟩
      rw [startPage, startPage, ← hBase₁]
      exact hRange
  · rw [hAlloc, PageAnswer.page.injEq] at hFirst
    exact (hPage hFirst).elim

/-- The page that cpu 0 frees goes to cpu 1, after another one. -/
theorem page_returned_between_two : ∃ e ∈ [((1 : Fin 2), PageCall.alloc 1, PageAnswer.page 0x40123000),
      (0, .free 0x40122000 1, .status 0)], GivesBack twoPages 0x40122000 e.2.1 e.2.2 := by
  have hLog : (runCpus 2 twoPages twoCpus).log = [] ++ (0, .alloc 1, .page 0x40122000) ::
      ([(1, .alloc 1, .page 0x40123000), (0, .free 0x40122000 1, .status 0)] ++
        (1, .alloc 1, .page 0x40122000) :: []) := by
    decide
  apply page_returned_between 2 (by decide) twoPages ⟨by decide, by decide⟩ twoCpus _ [] _ [] 0 1 0x40122000 hLog
    (by decide)
  rw [hLog]
  simp

end HyperPoc.PageAllocator
