import HyperPoc.PageAllocRuns
import HyperPoc.SpInit
import HyperPoc.Vm.Sites
import HyperPoc.Vm.Trap

/-! # What pages from the allocator are used for

For each function that takes pages, the list of the addresses it goes on with and what it uses them for, in
the order of the source. The outcome of a call is not enough for that: a copy to a page that does not exist
may be followed by a panic that has another reason.
-/
namespace HyperPoc
open Library.Memory Library.Run Stage2
set_option autoImplicit false

/-- `root` is `vm->stage2_pt`, `table` the address in a table descriptor, `mapping` the one in a page descriptor,
`copy` and `fill` are the destinations of `memcpy` and `memset`. -/
inductive Purpose where
  | root
  | table
  | mapping
  | copy
  | fill
  | spis
  | stack
  deriving DecidableEq

structure Use where
  purpose : Purpose
  page : Nat
  deriving DecidableEq

def after {α : Type} (x : Outcome α) (uses : α → List Use) : List Use :=
  match x with
  | .ok r => uses r
  | .error _ => []

/-- The failure value of `alloc_page` is not used as the address of a page. -/
def NoMisuse (uses : List Use) : Prop := ∀ u ∈ uses, u.page ≠ minusOne

theorem noMisuse_nil : NoMisuse [] := fun _ hu => by cases hu

theorem noMisuse_cons {u : Use} {uses : List Use} : NoMisuse (u :: uses) ↔ u.page ≠ minusOne ∧ NoMisuse uses :=
  List.forall_mem_cons

theorem noMisuse_append {uses uses' : List Use} : NoMisuse (uses ++ uses') ↔ NoMisuse uses ∧ NoMisuse uses' :=
  List.forall_mem_append

/-- A pool that does not begin at address 0, so that no test for `NULL` ever fires. -/
structure Usable (a : PageAllocator) : Prop extends a.Pool where
  base : 0 < a.basePfn

theorem Usable.allocPage {a : PageAllocator} (h : Usable a) : a.allocPage.2 ≠ 0 ∧ Usable a.allocPage.1 := by
  rcases PageAllocator.allocPage_cases a h.toPool with ⟨k, hNext, hAlloc⟩ | ⟨_, hAlloc⟩
  · rw [hAlloc]
    refine ⟨?_, h.toPool.take hNext.free.1, h.base⟩
    have hBase := h.base
    dsimp only
    rw [PageAllocator.pageAddr]
    omega
  · rw [hAlloc]
    refine ⟨?_, h⟩
    change minusOne ≠ 0
    decide

/-- The allocator is usable and has `n` free pages at least. -/
structure Reserve (n : Nat) (h : Host) : Prop extends Usable h.allocator where
  count : n ≤ h.allocator.freeCount

theorem Reserve.allocPage {n : Nat} {h : Host} (hRes : Reserve (n + 1) h) :
    h.allocPage.2 ≠ 0 ∧ h.allocPage.2 ≠ minusOne ∧ Reserve n h.allocPage.1 := by
  have hCount := hRes.count
  obtain ⟨hPos, hUse⟩ := hRes.toUsable.allocPage
  obtain ⟨hNe, hLess⟩ | ⟨_, hNone⟩ := hRes.toPool.allocPage_count
  · refine ⟨hPos, hNe, hUse, ?_⟩
    change n ≤ h.allocator.allocPage.1.freeCount
    omega
  · omega

theorem Reserve.mono {m n : Nat} {h : Host} (hRes : Reserve n h) (hLe : m ≤ n) : Reserve m h :=
  ⟨hRes.toUsable, hLe.trans hRes.count⟩

/-- No use of the failure value on the way to a result with the property. -/
def Safe {α : Type} (P : α → Prop) (x : Outcome α) (uses : List Use) : Prop :=
  NoMisuse uses ∧ ∀ r, x = .ok r → P r

section
variable {α β : Type} {P : α → Prop} {Q : β → Prop} {x : Outcome α}

theorem Safe.ok {r : α} (h : P r) : Safe P (.ok r) [] := by
  refine ⟨noMisuse_nil, ?_⟩
  intro r' hr
  cases hr
  exact h

theorem Safe.error (e : Stop) : Safe P (.error e) [] := ⟨noMisuse_nil, fun _ hr => by cases hr⟩

theorem Safe.cons {uses : List Use} {u : Use} (hu : u.page ≠ minusOne) (h : Safe P x uses) : Safe P x (u :: uses) :=
  ⟨noMisuse_cons.mpr ⟨hu, h.1⟩, h.2⟩

theorem Safe.bind {uses : List Use} {f : α → Outcome β} {usesAfter : α → List Use} (hx : Safe P x uses)
    (hf : ∀ r, P r → Safe Q (f r) (usesAfter r)) : Safe Q (x >>= f) (uses ++ after x usesAfter) := by
  cases x with
  | error e => exact ⟨noMisuse_append.mpr ⟨hx.1, noMisuse_nil⟩, fun _ hr => by cases hr⟩
  | ok r =>
    obtain ⟨hRest, hResult⟩ := hf r (hx.2 r rfl)
    exact ⟨noMisuse_append.mpr ⟨hx.1, hRest⟩, hResult⟩

end

theorem Reserve.freePage {n : Nat} {h : Host} (hRes : Reserve n h) (phyaddr : Nat) :
    Reserve n (h.freePage phyaddr) := by
  obtain hSame | ⟨s, m, hGive⟩ := h.allocator.freePages_giveRange phyaddr 1
  · rw [Host.freePage, PageAllocator.freePage, hSame]
    exact hRes
  · have hGive : (h.freePage phyaddr).allocator = h.allocator.giveRange s m := hGive
    refine ⟨⟨?_, ?_⟩, ?_⟩
    · rw [hGive]
      exact hRes.toPool.giveRange s m
    · rw [hGive]
      exact hRes.base
    · rw [hGive]
      exact hRes.count.trans (h.allocator.freeCount_giveRange s m)

end HyperPoc
