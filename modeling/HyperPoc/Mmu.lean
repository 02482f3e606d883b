import HyperPoc.Lib
import HyperPoc.PageAlloc

/-! # Stage-2 page tables as the hypervisor builds them

Tables live in host memory and come from the page allocator. A table pointer is an address, a
returned entry pointer is an address or 0 for `NULL`.
-/
namespace HyperPoc
open Library.Memory
set_option autoImplicit false

/-- A call of `alloc_page`: the memory it was made in and what it returned. -/
structure Grant where
  mem : Mem
  page : Nat

/-- Host memory and allocator. The list of grants is a history that no code reads. -/
structure Host where
  mem : Mem
  allocator : PageAllocator
  grants : List Grant

def Host.allocPage (h : Host) : Host × Nat :=
  ({ h with
      allocator := h.allocator.allocPage.1
      grants := ⟨h.mem, h.allocator.allocPage.2⟩ :: h.grants },
    h.allocator.allocPage.2)

def Host.freePage (h : Host) (phyaddr : Nat) : Host :=
  { h with allocator := (h.allocator.freePage phyaddr).1 }

def Host.store64 (h : Host) (a v : Nat) : Host := { h with mem := store h.mem a 8 v }

def pidx (level va : Nat) : Nat := (va >>> (39 - level * 9)) &&& 0x1ff

def ptePa (pte : Nat) : Nat := pte &&& 0xfffffffff000

def pteValid : Nat := 1
def pteTable : Nat := 2
def pteV : Nat := 3
def pteAf : Nat := 1 <<< 10
def s2pteAf : Nat := 1 <<< 10
def s2pteS2ap (ap : Nat) : Nat := (ap &&& 3) <<< 6
def s2pteRw : Nat := s2pteS2ap 3
def s2pteAttr (attr : Nat) : Nat := (attr &&& 7) <<< 2
def s2pteNormal : Nat := s2pteAttr 1
def s2pteDevice : Nat := s2pteAttr 0

def pteAddr (pgt level va : Nat) : Nat := u64 (pgt + 8 * pidx level va)

def pagewalkLoop (va : Nat) (needAlloc : Bool) : Nat → Nat → Host → Nat → Outcome (Host × Nat)
  | 0, _, h, pgt => .ok (h, pteAddr pgt 3 va)
  | n + 1, level, h, pgt =>
    let pte := pteAddr pgt level va
    let desc := load h.mem pte 8
    if desc &&& pteValid ≠ 0 ∧ desc &&& pteTable ≠ 0 then
      pagewalkLoop va needAlloc n (level + 1) h (ptePa desc)
    else if needAlloc then
      let page := h.allocPage.2
      if page = 0 then .error (.panic "nomem")
      else
        pagewalkLoop va needAlloc n (level + 1)
          (h.allocPage.1.store64 pte (ptePa page ||| pteTable ||| pteValid)) page
    else .ok (h, 0)

def pagewalk (h : Host) (pgt va : Nat) (needAlloc : Bool) : Outcome (Host × Nat) :=
  pagewalkLoop va needAlloc 3 0 h pgt

def pagemapLoop (pgt attr : Nat) : Nat → Host → Nat → Nat → Outcome Host
  | 0, h, _, _ => .ok h
  | n + 1, h, va, pa => do
    let (h, pte) ← pagewalk h pgt va true
    if load h.mem pte 8 &&& pteAf ≠ 0 then
      .error (.panic "[pagemap]: this entry has been used")
    else
      pagemapLoop pgt attr n (h.store64 pte (ptePa pa ||| s2pteAf ||| attr ||| pteV))
        (u64 (va + pageSize)) (u64 (pa + pageSize))

def pagemap (h : Host) (pgt va pa size attr : Nat) : Outcome Host :=
  if va % pageSize ≠ 0 ∨ pa % pageSize ≠ 0 ∨ size % pageSize ≠ 0 then
    .error (.panic "invalid pagemap")
  else pagemapLoop pgt attr (size / pageSize) h va pa

def pageunmapLoop (pgt : Nat) : Nat → Host → Nat → Outcome Host
  | 0, h, _ => .ok h
  | n + 1, h, va => do
    let (h, pte) ← pagewalk h pgt va false
    if pte = 0 then .error .nullDereference
    else if load h.mem pte 8 = 0 then .error (.panic "unmapped")
    else
      pageunmapLoop pgt n ((h.freePage (ptePa (load h.mem pte 8))).store64 pte 0) (u64 (va + pageSize))

def pageunmap (h : Host) (pgt va size : Nat) : Outcome Host :=
  if va % pageSize ≠ 0 ∨ size % pageSize ≠ 0 then .error (.panic "invalid pageunmap")
  else pageunmapLoop pgt (size / pageSize) h va

def ipa2pa (h : Host) (pgt ipa : Nat) : Outcome Nat :=
  if pgt = 0 then .ok 0
  else do
    let (h, pte) ← pagewalk h pgt ipa false
    if pte = 0 then .ok 0
    else .ok (u64 (ptePa (load h.mem pte 8) + (ipa &&& (pageSize - 1))))

theorem pagewalkLoop_returns (va n level : Nat) (h : Host) (pgt : Nat) :
    ∃ r, pagewalkLoop va false n level h pgt = .ok r := by
  induction n generalizing level pgt with
  | zero => exact ⟨_, rfl⟩
  | succ n ih =>
    rw [pagewalkLoop]
    dsimp only
    split
    · exact ih _ _
    · exact ⟨_, rfl⟩

/-- A walk that allocates nothing returns on any memory. -/
theorem ipa2pa_returns (h : Host) (pgt ipa : Nat) : ∃ pa, ipa2pa h pgt ipa = .ok pa := by
  obtain ⟨⟨h', pte⟩, hWalk⟩ := pagewalkLoop_returns ipa 3 0 h pgt
  rw [ipa2pa, pagewalk, hWalk]
  split
  · exact ⟨_, rfl⟩
  · change ∃ pa, (if pte = 0 then _ else _) = _
    split
    · exact ⟨_, rfl⟩
    · exact ⟨_, rfl⟩

end HyperPoc
