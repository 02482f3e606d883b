import HyperPoc.PageAllocInit
import HyperPoc.SpInit
import HyperPoc.Trap.LifeCycle
import HyperPoc.Vm.Loading

/-! # Bringing up the first core

`vmm_init_primary` marks the stack of the first core, hands the RAM to the page allocator and takes a
page of it for the stack of each other core, before it creates the VM. The lowest word of each stack
is there to be checked later.
-/
namespace HyperPoc
open Library.Memory Library.Run Stage2
set_option autoImplicit false

/-- The addresses the linker gives to `vmm_init_primary`. -/
structure LinkerMap where
  gBitmap : Nat
  primaryStackStart : Nat
  primaryStackEnd : Nat
  ramStart : Nat

def ramSize : Nat := 0x10000000

def ramPageNum : Nat := ramSize / 4096

def primaryStackInit (l : LinkerMap) (s : Stacks) : Stacks where
  host := s.host.store64 l.primaryStackStart (spMagic ||| 0)
  spTop := Function.update s.spTop 0 l.primaryStackStart
  spBottom := Function.update s.spBottom 0 l.primaryStackEnd

def spCanaryCheck (m : Mem) (spTop : Nat → Nat) : Outcome Bool :=
  (List.range pcpuNum).foldlM (fun ok cpuid =>
    if load m (spTop cpuid) 8 ≠ spMagic ||| cpuid then
      .error (.panic "[sp_canary_check]: CPU %d's el2 stack is collapsed (stack top: %x)\n")
    else .ok ok) true

/-- The result of `page_allocator_init` is not looked at. -/
def allocatorInit (l : LinkerMap) (s : Stacks) : Stacks :=
  let init := PageAllocator.pageAllocatorInit s.host.mem s.host.allocator l.gBitmap ramPageNum l.ramStart
  { s with host := { s.host with mem := init.1.1, allocator := init.1.2 } }

/-- Up to `secondary_stacks_init`. Before, the static arrays hold the end of the first stack and zeros. -/
def initMemory (l : LinkerMap) (h : Host) : Outcome Stacks :=
  secondaryStacksInit (allocatorInit l
    (primaryStackInit l ⟨h, fun _ => 0, Function.update (fun _ => 0) 0 l.primaryStackEnd⟩))

/-- The first core up to its entry into the guest. Interrupt controller, timer and the registers of stage 2 are set up
in between and are no part of these records. -/
def vmmInitPrimary (l : LinkerMap) (s : Hypervisor) (cfg : VmConfig) : Outcome (Stacks × Hypervisor) := do
  let st ← initMemory l s.host
  let s ← createVm { s with host := st.host } (some cfg)
  let s ← Trap.enterVcpu s 0
  return (st, s)

/-- The sections follow each other as in the linker script; `.bss` and the RAM behind the image are zero. -/
structure Linked (l : LinkerMap) (m : Mem) : Prop where
  bitmap : l.gBitmap ≠ 0 ∧ l.gBitmap + ramPageNum / 8 ≤ l.primaryStackStart
  stack : l.primaryStackStart + 4096 = l.primaryStackEnd ∧ l.primaryStackEnd ≤ l.ramStart
  aligned : l.ramStart % 4096 = 0
  below : l.ramStart + ramSize ≤ 2 ^ 48
  uart : uartBase + 4096 ≤ l.ramStart
  bss : Zero m l.gBitmap (ramPageNum / 8)
  ram : Zero m l.ramStart ramSize

def LinkerMap.stackTop (l : LinkerMap) (cpuid : Nat) : Nat :=
  if cpuid = 0 then l.primaryStackStart else l.ramStart + 4096 * (cpuid - 1)

/-- The first core and `n` others have their stacks, the `n` first pages of the pool. -/
structure Stacked (l : LinkerMap) (n : Nat) (st : Stacks) : Prop where
  filled : st.host.allocator.Filled n
  basePfn : st.host.allocator.basePfn * 4096 = l.ramStart
  totalPages : st.host.allocator.totalPages = ramPageNum
  granted : ∀ g ∈ st.host.grants, GrantedZero g
  zeroed : ∀ k, n ≤ k → k < ramPageNum → Zero st.host.mem (l.ramStart + 4096 * k) 4096
  top : ∀ c, c ≤ n → st.spTop c = l.stackTop c
  bottom : ∀ c, c ≤ n → st.spBottom c = l.stackTop c + 4096
  canary : ∀ c, c ≤ n → load st.host.mem (l.stackTop c) 8 = spMagic ||| c

section
variable {l : LinkerMap} {m : Mem} {st st' : Stacks} {n : Nat}

theorem spMagic_or {c : Nat} (hc : c < 2 ^ 16) : spMagic ||| c < 256 ^ 8 := by
  have hMagic : spMagic < 2 ^ 64 := by decide
  exact Nat.or_lt_two_pow hMagic (by omega)

theorem Stacked.pageAddr (h : Stacked l n st) (k : Nat) : st.host.allocator.pageAddr k = l.ramStart + 4096 * k := by
  rw [PageAllocator.pageAddr, Nat.add_mul, h.basePfn, Nat.mul_comm k]

/-- The bitmap is zero before it is cleared, so clearing a part of it changes nothing. -/
theorem Linked.allocatorInit_eq (hLinked : Linked l m) (a : PageAllocator) (grants : List Grant)
    (tops bottoms : Nat → Nat) :
    (allocatorInit l (primaryStackInit l ⟨⟨m, a, grants⟩, tops, bottoms⟩)) =
      ⟨⟨store m l.primaryStackStart 8 (spMagic ||| 0), ⟨PageAllocator.bitmapWords (store m l.primaryStackStart 8
        (spMagic ||| 0)) l.gBitmap, ramPageNum, PageAllocator.phyToPfn l.ramStart, 0⟩, grants⟩,
        Function.update tops 0 l.primaryStackStart, Function.update bottoms 0 l.primaryStackEnd⟩ := by
  obtain ⟨hBuf, hBitmap⟩ := hLinked.bitmap
  obtain ⟨hStack, hEnd⟩ := hLinked.stack
  have hBelow := hLinked.below
  have hCleared : u64 (ramPageNum + 63) / 64 ≤ ramPageNum / 8 := by decide
  have hNum : ramPageNum ≠ 0 := by decide
  have hRoom : l.gBitmap + u64 (ramPageNum + 63) / 64 < 2 ^ 64 := by omega
  have hSame : memset (store m l.primaryStackStart 8 (spMagic ||| 0)) l.gBitmap 0 (u64 (ramPageNum + 63) / 64) =
      store m l.primaryStackStart 8 (spMagic ||| 0) := by
    rw [memset_eq _ _ _ _ hRoom]
    funext x
    rw [fill]
    split
    · rename_i hx
      have hZero := hLinked.bss (x - l.gBitmap) (by omega)
      rw [Nat.add_sub_cancel' hx.1] at hZero
      rw [store_sameOutside m _ 8 _ x (by omega), hZero]
    · rfl
  simp only [allocatorInit, primaryStackInit, Host.store64, PageAllocator.pageAllocatorInit,
    if_neg (not_or.mpr ⟨hBuf, hNum⟩), hSame]

theorem initMemory_first (hLinked : Linked l m) (a : PageAllocator) (tops bottoms : Nat → Nat) :
    Stacked l 0 (allocatorInit l (primaryStackInit l ⟨⟨m, a, []⟩, tops, bottoms⟩)) := by
  have hAligned := hLinked.aligned
  have hBelow := hLinked.below
  obtain ⟨_, hBitmap⟩ := hLinked.bitmap
  obtain ⟨hStack, hEnd⟩ := hLinked.stack
  have hSize : ramSize = 4096 * ramPageNum := by decide
  have hFree : ∀ k, k < ramPageNum →
      ¬(⟨PageAllocator.bitmapWords (store m l.primaryStackStart 8 (spMagic ||| 0)) l.gBitmap,
      ramPageNum, PageAllocator.phyToPfn l.ramStart, 0⟩ : PageAllocator).InUse k := by
    intro k hk
    have hByte : k / 8 < ramPageNum / 8 := by
      have hWhole : ramPageNum = 8 * (ramPageNum / 8) := by decide
      omega
    rw [PageAllocator.not_inUse, PageAllocator.testBit_bitmapWords, store_sameOutside m _ 8 _ _ (by omega),
      hLinked.bss (k / 8) hByte]
    simp
  rw [hLinked.allocatorInit_eq]
  have hTops : ∀ c, c ≤ 0 → c = 0 := fun c hc => Nat.le_zero.mp hc
  refine ⟨?_, ?_, rfl, fun g hg => (by cases hg), ?_, ?_, ?_, ?_⟩
  · have hFits : l.ramStart + 4096 * ramPageNum ≤ 2 ^ 64 := by omega
    exact PageAllocator.filled_zero rfl rfl rfl hFits hFree
  · dsimp only
    rw [PageAllocator.phyToPfn, Nat.shiftRight_eq_div_pow]
    omega
  · intro k _ hk j hj
    dsimp only
    rw [store_sameOutside m _ 8 _ _ (by omega), Nat.add_assoc]
    exact hLinked.ram (4096 * k + j) (by omega)
  · intro c hc
    rw [hTops c hc]
    exact Function.update_self 0 l.primaryStackStart tops
  · intro c hc
    rw [hTops c hc]
    exact (Function.update_self 0 l.primaryStackEnd bottoms).trans hStack.symm
  · intro c hc
    rw [hTops c hc]
    exact load_store (spMagic_or (by decide))

theorem Stacked.next (hLinked : Linked l m) (h : Stacked l n st) (hn : n < 2 ^ 15) :
    ∃ st', secondaryStack st (n + 1) = .ok st' ∧ Stacked l (n + 1) st' := by
  have hPages : n < ramPageNum := Nat.lt_of_lt_of_le hn (by decide)
  obtain ⟨hAlloc, hFilled⟩ := h.filled.next (by rw [h.totalPages]; exact hPages)
  have hBelow := hLinked.below
  obtain ⟨hStack, hEnd⟩ := hLinked.stack
  have hSize : ramSize = 4096 * ramPageNum := by decide
  have hPage : st.host.allocPage.2 = l.ramStart + 4096 * n := by
    rw [Host.allocPage, hAlloc, h.pageAddr]
  have hNewTop : l.stackTop (n + 1) = l.ramStart + 4096 * n := by
    rw [LinkerMap.stackTop, if_neg (Nat.succ_ne_zero n), Nat.add_sub_cancel]
  -- the stacks that are there lie below the new one
  have hOld : ∀ c, c ≤ n → l.stackTop c + 8 ≤ l.ramStart + 4096 * n := by
    intro c hc
    rw [LinkerMap.stackTop]
    split
    · omega
    · omega
  have hWord : ∀ a k, a + k ≤ l.ramStart + 4096 * n ∨ l.ramStart + 4096 * n + 8 ≤ a →
      load (store st.host.mem (l.ramStart + 4096 * n) 8 (spMagic ||| (n + 1))) a k = load st.host.mem a k :=
    fun a k hApart => load_store_of_disjoint hApart
  refine ⟨st.place (n + 1) st.host.allocPage.1 (l.ramStart + 4096 * n), ?_, ?_, ?_, ?_, ?_, ?_, ?_, ?_, ?_⟩
  · rw [secondaryStack]
    dsimp only
    rw [hPage, if_neg (by omega)]
  · change st.host.allocator.allocPage.1.Filled (n + 1)
    rw [hAlloc]
    exact hFilled
  · change st.host.allocator.allocPage.1.basePfn * 4096 = _
    rw [hAlloc]
    exact h.basePfn
  · change st.host.allocator.allocPage.1.totalPages = _
    rw [hAlloc]
    exact h.totalPages
  · intro g hg
    obtain rfl | hOld := List.mem_cons.mp hg
    · change st.host.allocPage.2 ≠ minusOne ∧ Zero st.host.mem st.host.allocPage.2 4096
      rw [hPage]
      exact ⟨by rw [minusOne]; omega, h.zeroed n (Nat.le_refl n) hPages⟩
    · exact h.granted g hOld
  · intro k hLow hk j hj
    have hByte : store st.host.mem (l.ramStart + 4096 * n) 8 (spMagic ||| (n + 1)) (l.ramStart + 4096 * k + j) =
        st.host.mem (l.ramStart + 4096 * k + j) := store_sameOutside _ _ _ _ _ (by omega)
    exact hByte.trans (h.zeroed k (by omega) hk j hj)
  · intro c hc
    change Function.update st.spTop (n + 1) _ c = _
    obtain rfl | hNe := eq_or_ne c (n + 1)
    · rw [Function.update_self, hNewTop]
    · rw [Function.update_of_ne hNe]
      exact h.top c (by omega)
  · intro c hc
    change Function.update st.spBottom (n + 1) _ c = _
    obtain rfl | hNe := eq_or_ne c (n + 1)
    · rw [Function.update_self, hNewTop, pageSize, u64_of_lt (by omega)]
    · rw [Function.update_of_ne hNe]
      exact h.bottom c (by omega)
  · intro c hc
    change load (store st.host.mem (l.ramStart + 4096 * n) 8 (spMagic ||| (n + 1))) (l.stackTop c) 8 = _
    obtain rfl | hNe := eq_or_ne c (n + 1)
    · rw [hNewTop]
      exact load_store (spMagic_or (by omega))
    · rw [hWord _ _ (.inl (hOld c (by omega)))]
      exact h.canary c (by omega)

theorem secondaryStacks_stacked (hLinked : Linked l m) {k : Nat} (h : Stacked l n st) (hBound : n + k < 2 ^ 15) :
    ∃ st', (List.range' (n + 1) k).foldlM secondaryStack st = .ok st' ∧ Stacked l (n + k) st' := by
  induction k generalizing n st with
  | zero => exact ⟨st, rfl, h⟩
  | succ k ih =>
    obtain ⟨st₁, hFirst, hNext⟩ := h.next hLinked (by omega)
    obtain ⟨st', hRest, hStacked⟩ := ih hNext (by omega)
    refine ⟨st', ?_, ?_⟩
    · rw [List.range'_succ, List.foldlM_cons, hFirst, ok_bind]
      exact hRest
    · rwa [Nat.add_assoc, Nat.add_comm 1 k] at hStacked

theorem initMemory_stacked (hLinked : Linked l m) (a : PageAllocator) :
    ∃ st, initMemory l ⟨m, a, []⟩ = .ok st ∧ Stacked l (pcpuNum - 1) st := by
  have hFirst := initMemory_first hLinked a (fun _ => 0) (Function.update (fun _ => 0) 0 l.primaryStackEnd)
  obtain ⟨st, hRun, hStacked⟩ := secondaryStacks_stacked (k := pcpuNum - 1) hLinked hFirst (by decide)
  rw [Nat.zero_add] at hStacked
  exact ⟨st, hRun, hStacked⟩

theorem Stacked.ramPool (hLinked : Linked l m) (h : Stacked l n st) : RamPool st.host.allocator := by
  have hBelow := hLinked.below
  have hUart := hLinked.uart
  have hSize : ramSize = 4096 * ramPageNum := by decide
  refine ⟨h.filled.toPool, ?_, ?_⟩
  · rw [Nat.add_mul, h.basePfn, h.totalPages, Nat.mul_comm ramPageNum, ← hSize]
    exact hBelow
  · intro k _
    rw [h.pageAddr]
    exact Nat.ne_of_gt (Nat.lt_of_lt_of_le (Nat.lt_add_of_pos_right (by decide))
      (Nat.le_trans hUart (Nat.le_add_right _ _)))

theorem Stacked.free_bounds (h : Stacked l n st) {k : Nat} (hFree : st.host.allocator.Free k) :
    n ≤ k ∧ k < ramPageNum ∧ l.ramStart + 4096 * n ≤ st.host.allocator.pageAddr k ∧
      st.host.allocator.pageAddr k + 4096 ≤ l.ramStart + ramSize := by
  have hUnused : ¬k < n := by
    rw [← h.filled.inUse_iff k hFree.1]
    exact PageAllocator.not_inUse.mpr hFree.2
  have hBound := hFree.1
  have hSize : ramSize = 4096 * ramPageNum := by decide
  rw [h.totalPages] at hBound
  rw [h.pageAddr]
  omega

theorem Stacked.free_zero (h : Stacked l n st) {k : Nat} (hFree : st.host.allocator.Free k) :
    Zero st.host.mem (st.host.allocator.pageAddr k) 4096 := by
  obtain ⟨hLow, hHigh, _⟩ := h.free_bounds hFree
  rw [h.pageAddr]
  exact h.zeroed k hLow hHigh

theorem Linked.stackTop_le (hLinked : Linked l m) {c : Nat} (hc : c ≤ n) :
    l.stackTop c + 8 ≤ l.ramStart + 4096 * n := by
  obtain ⟨hStack, hEnd⟩ := hLinked.stack
  rw [LinkerMap.stackTop]
  split
  · omega
  · omega

theorem spCanaryCheck_ok {spTop : Nat → Nat} (h : ∀ c, c < pcpuNum → load m (spTop c) 8 = spMagic ||| c) :
    spCanaryCheck m spTop = .ok true := by
  have hLoop : ∀ c ∈ List.range pcpuNum, ∀ ok : Bool, True →
      (if load m (spTop c) 8 ≠ spMagic ||| c then
        .error (.panic "[sp_canary_check]: CPU %d's el2 stack is collapsed (stack top: %x)\n")
      else .ok ok : Outcome Bool) = .ok ok ∧ True := by
    intro c hc ok _
    exact ⟨if_neg (not_not.mpr (h c (List.mem_range.mp hc))), trivial⟩
  exact foldlM_eq_foldl (I := fun _ => True) (f := fun ok _ => ok) _ hLoop true trivial

end

end HyperPoc
