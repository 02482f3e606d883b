import HyperPoc.Mmu

/-! # Places that take a page

Every caller of `alloc_page` tests what it got in its own way. The functions of the hypervisor that
take pages are given here with that test as a parameter: with the tests of the source they are the
source's functions, and with a stricter test they stop where the source goes on.
-/
namespace HyperPoc
open Library.Memory Library.Run
set_option autoImplicit false

inductive Site where
  | table
  | root
  | file
  | bss
  | ram
  | spis
  deriving DecidableEq

/-- The texts with which the callers panic for want of a page. `new_vgic` has no test and no text. -/
def Site.noMem : Site → String
  | .table => "nomem"
  | .root => "[create_vm] no mem"
  | .file => "[create_vm] no mem 2"
  | .bss => "[create_vm] no mem 3"
  | .ram => "[create_vm] no mem 3"
  | .spis => "[new_vgic] no mem for spis"

abbrev Take : Type := Site → Host → Outcome (Host × Nat)

/-- The tests of the source: all but one compare the address with `NULL`. -/
def takePage : Take := fun site h =>
  if site ≠ .spis ∧ h.allocPage.2 = 0 then .error (.panic site.noMem) else .ok h.allocPage

/-- A stricter test in front of the source's. -/
def takeIf (C : Site → Grant → Prop) [∀ site g, Decidable (C site g)] : Take := fun site h =>
  if C site ⟨h.mem, h.allocPage.2⟩ then takePage site h else .error (.panic site.noMem)

/-- Where `take` succeeds at a site, it has made one allocation and the grant has the property. -/
def Take.Gives (take : Take) (site : Site) (Ok : Grant → Prop) : Prop :=
  ∀ h r, take site h = .ok r → r = h.allocPage ∧ (site ≠ .spis → h.allocPage.2 ≠ 0) ∧
    Ok ⟨h.mem, h.allocPage.2⟩

theorem takePage_gives (site : Site) : takePage.Gives site fun _ => True := by
  intro h r hTake
  rw [takePage] at hTake
  split at hTake
  · cases hTake
  · rename_i hPage
    cases hTake
    exact ⟨rfl, fun hSite hZero => hPage ⟨hSite, hZero⟩, trivial⟩

theorem takeIf_gives (C : Site → Grant → Prop) [∀ site g, Decidable (C site g)] (site : Site) :
    (takeIf C).Gives site (C site) := by
  intro h r hTake
  rw [takeIf] at hTake
  split at hTake
  · rename_i hOk
    obtain ⟨hPage, hZero, _⟩ := takePage_gives site h r hTake
    exact ⟨hPage, hZero, hOk⟩
  · cases hTake

/-- `Ok` is tested of the pages that become tables, `Fr` of the others. -/
structure Take.Tests (take : Take) (Ok Fr : Grant → Prop) : Prop where
  table : take.Gives .table Ok
  root : take.Gives .root Ok
  file : take.Gives .file Fr
  bss : take.Gives .bss Fr
  ram : take.Gives .ram Fr
  spis : take.Gives .spis Fr

theorem takeIf_tests (Ok : Grant → Prop) [DecidablePred Ok] : (takeIf fun _ => Ok).Tests Ok Ok :=
  ⟨takeIf_gives _ _, takeIf_gives _ _, takeIf_gives _ _, takeIf_gives _ _, takeIf_gives _ _, takeIf_gives _ _⟩

section
variable (take : Take)

def pagewalkLoopWith (va : Nat) (needAlloc : Bool) : Nat → Nat → Host → Nat → Outcome (Host × Nat)
  | 0, _, h, pgt => .ok (h, pteAddr pgt 3 va)
  | n + 1, level, h, pgt =>
    let pte := pteAddr pgt level va
    let desc := load h.mem pte 8
    if desc &&& pteValid ≠ 0 ∧ desc &&& pteTable ≠ 0 then
      pagewalkLoopWith va needAlloc n (level + 1) h (ptePa desc)
    else if needAlloc then do
      let (h, page) ← take .table h
      pagewalkLoopWith va needAlloc n (level + 1) (h.store64 pte (ptePa page ||| pteTable ||| pteValid)) page
    else .ok (h, 0)

def pagewalkWith (h : Host) (pgt va : Nat) (needAlloc : Bool) : Outcome (Host × Nat) :=
  pagewalkLoopWith take va needAlloc 3 0 h pgt

def pagemapLoopWith (pgt attr : Nat) : Nat → Host → Nat → Nat → Outcome Host
  | 0, h, _, _ => .ok h
  | n + 1, h, va, pa => do
    let (h, pte) ← pagewalkWith take h pgt va true
    if load h.mem pte 8 &&& pteAf ≠ 0 then
      .error (.panic "[pagemap]: this entry has been used")
    else
      pagemapLoopWith pgt attr n (h.store64 pte (ptePa pa ||| s2pteAf ||| attr ||| pteV))
        (u64 (va + pageSize)) (u64 (pa + pageSize))

def pagemapWith (h : Host) (pgt va pa size attr : Nat) : Outcome Host :=
  if va % pageSize ≠ 0 ∨ pa % pageSize ≠ 0 ∨ size % pageSize ≠ 0 then
    .error (.panic "invalid pagemap")
  else pagemapLoopWith take pgt attr (size / pageSize) h va pa

end

theorem takePage_of_tested {site : Site} (hSite : site ≠ .spis) (h : Host) : takePage site h =
    if h.allocPage.2 = 0 then .error (.panic site.noMem) else .ok h.allocPage := by
  rw [takePage]
  simp only [hSite, ne_eq, not_false_eq_true, true_and]

theorem pagewalkLoopWith_takePage (va : Nat) (needAlloc : Bool) (n level : Nat) (h : Host) (pgt : Nat) :
    pagewalkLoopWith takePage va needAlloc n level h pgt = pagewalkLoop va needAlloc n level h pgt := by
  induction n generalizing level h pgt with
  | zero => rfl
  | succ n ih =>
    rw [pagewalkLoopWith, pagewalkLoop]
    dsimp only
    split
    · exact ih _ _ _
    · split
      · rw [takePage_of_tested (by decide)]
        split
        · rfl
        · exact ih _ _ _
      · rfl

theorem pagewalkWith_takePage (h : Host) (pgt va : Nat) (needAlloc : Bool) :
    pagewalkWith takePage h pgt va needAlloc = pagewalk h pgt va needAlloc :=
  pagewalkLoopWith_takePage va needAlloc 3 0 h pgt

theorem pagemapLoopWith_takePage (pgt attr n : Nat) (h : Host) (va pa : Nat) :
    pagemapLoopWith takePage pgt attr n h va pa = pagemapLoop pgt attr n h va pa := by
  induction n generalizing h va pa with
  | zero => rfl
  | succ n ih =>
    rw [pagemapLoopWith, pagemapLoop, pagewalkWith_takePage]
    congr 1
    funext r
    dsimp only
    split
    · rfl
    · exact ih _ _ _

theorem pagemapWith_takePage (h : Host) (pgt va pa size attr : Nat) :
    pagemapWith takePage h pgt va pa size attr = pagemap h pgt va pa size attr := by
  rw [pagemapWith, pagemap, pagemapLoopWith_takePage]

end HyperPoc
