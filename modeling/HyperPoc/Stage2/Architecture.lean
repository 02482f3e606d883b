import HyperPoc.Library.Memory
import HyperPoc.Library.RadixTable

/-! # The architectural stage-2 walk

4 KB granule, four levels from level 0, 48 input bits. This is the hardware's side: nothing here is
taken from the hypervisor. A level 0 to 2 descriptor with low bits 11 refers to the next table, one
with low bits 01 is a block at levels 1 and 2 and a fault at level 0; a level 3 descriptor is a page
only with low bits 11.
-/
namespace HyperPoc.Stage2
open Library.Memory Library.RadixTable
set_option autoImplicit false

structure Translation where
  desc : Nat
  pa : Nat
  deriving DecidableEq

def outputAddress (desc : Nat) : Nat := desc / 4096 % 2 ^ 36 * 4096

def levelShift (level : Nat) : Nat := 39 - 9 * level

def archIndex (level ipa : Nat) : Nat := ipa / 2 ^ levelShift level % 512

def descriptor (m : Mem) (table index : Nat) : Nat := load m (table + 8 * index) 8

def block (level ipa desc : Nat) : Translation :=
  ⟨desc, desc % 2 ^ 48 / 2 ^ levelShift level * 2 ^ levelShift level + ipa % 2 ^ levelShift level⟩

def archStep (m : Mem) (ipa : Nat) : Nat → Nat → Nat → Option Translation
  | 0, level, table =>
    let desc := descriptor m table (archIndex level ipa)
    if desc % 4 = 3 then some ⟨desc, outputAddress desc + ipa % 4096⟩ else none
  | n + 1, level, table =>
    let desc := descriptor m table (archIndex level ipa)
    if desc % 4 = 3 then archStep m ipa n (level + 1) (outputAddress desc)
    else if desc % 4 = 1 ∧ level ≠ 0 then some (block level ipa desc)
    else none

def archWalk (m : Mem) (root ipa : Nat) : Option Translation :=
  if ipa < 2 ^ 48 then archStep m ipa 3 0 root else none

theorem lt_of_archWalk {m : Mem} {root ipa : Nat} {t : Translation} (h : archWalk m root ipa = some t) :
    ipa < 2 ^ 48 := by
  by_contra hGe
  rw [archWalk, if_neg hGe] at h
  cases h

/-- The table format as a radix table over page numbers. -/
def shape : Shape Nat Nat where
  fanout := 512
  depth := 3
  child desc := if desc % 4 = 3 then some (outputAddress desc) else none
  empty := 0
  fanout_pos := by decide
  child_empty := by decide

theorem child_of_table {desc : Nat} (h : desc % 4 = 3) : shape.child desc = some (outputAddress desc) :=
  if_pos h

theorem child_of_not_table {desc : Nat} (h : desc % 4 ≠ 3) : shape.child desc = none := if_neg h

def page (desc : Nat) : Option Nat := if desc % 4 = 3 then some desc else none

theorem outputAddress_lt (desc : Nat) : outputAddress desc < 2 ^ 48 := by
  rw [outputAddress]
  omega

theorem outputAddress_aligned (desc : Nat) : outputAddress desc % 4096 = 0 := by
  rw [outputAddress]
  omega

theorem slot_eq (l key : Nat) (hl : l ≤ 3) : shape.slot l key = key / 2 ^ (27 - 9 * l) % 512 := by
  have hl : l = 0 ∨ l = 1 ∨ l = 2 ∨ l = 3 := by omega
  rcases hl with rfl | rfl | rfl | rfl <;> simp [Shape.slot, shape]

theorem archIndex_eq (l ipa : Nat) (hl : l ≤ 3) : archIndex l ipa = shape.slot l (ipa / 4096) := by
  have hl : l = 0 ∨ l = 1 ∨ l = 2 ∨ l = 3 := by omega
  rw [slot_eq l _ (by omega)]
  rcases hl with rfl | rfl | rfl | rfl <;> simp [archIndex, levelShift, Nat.div_div_eq_div_mul]

/-- On a represented table the hardware finds exactly the page descriptor stored for the page. -/
theorem archStep_eq {m : Mem} {root : Nat} {node : Nat → Nat → Option Nat}
    (h : Represents shape (descriptor m) root node) (ipa n l t : Nat) (hn : l + n = 3)
    (ht : node l (shape.pre l (ipa / 4096)) = some t) :
    archStep m ipa n l t = (value shape (descriptor m) node page (ipa / 4096)).map
      fun desc => ⟨desc, outputAddress desc + ipa % 4096⟩ := by
  induction n generalizing l t with
  | zero =>
    have hl : l = 3 := by omega
    subst hl
    have hNode : node shape.depth (ipa / 4096 / shape.fanout) = some t := by
      rw [← shape.pre_depth]
      exact ht
    have hSlot : archIndex 3 ipa = ipa / 4096 % shape.fanout := by
      rw [archIndex_eq 3 ipa (by omega)]
      exact shape.slot_depth _
    rw [archStep, value, hNode, Option.bind_some, hSlot, page]
    split <;> rfl
  | succ n ih =>
    have hChild := h.child_slot (ipa / 4096) (by change l < 3; omega) ht
    rw [archStep]
    simp only [archIndex_eq l ipa (by omega)]
    split
    · rename_i hTable
      have hNext : node (l + 1) (shape.pre (l + 1) (ipa / 4096)) =
          some (outputAddress (descriptor m t (shape.slot l (ipa / 4096)))) := by
        rw [← hChild, child_of_table hTable]
      exact ih (l + 1) _ (by omega) hNext
    · rename_i hTable
      have hFree : shape.child (descriptor m t (shape.slot l (ipa / 4096))) = none :=
        child_of_not_table hTable
      have hZero : descriptor m t (shape.slot l (ipa / 4096)) = 0 :=
        h.vacant l _ t _ (by change l < 3; omega) (shape.slot_lt l _) ht hFree
      have hNone := h.node_none_below (ipa / 4096) (hChild.symm.trans hFree) shape.depth
        (by change l + 1 ≤ 3; omega) (Nat.le_refl _)
      rw [hZero, if_neg (by simp), value, ← shape.pre_depth, hNone]
      rfl

theorem archWalk_eq {m : Mem} {root : Nat} {node : Nat → Nat → Option Nat}
    (h : Represents shape (descriptor m) root node) (ipa : Nat) (hIpa : ipa < 2 ^ 48) :
    archWalk m root ipa = (value shape (descriptor m) node page (ipa / 4096)).map
      fun desc => ⟨desc, outputAddress desc + ipa % 4096⟩ := by
  rw [archWalk, if_pos hIpa]
  apply archStep_eq h ipa 3 0 root rfl
  have hPre : shape.pre 0 (ipa / 4096) = 0 := by
    change ipa / 4096 / 512 ^ 4 = 0
    omega
  rw [hPre]
  exact h.root_node

end HyperPoc.Stage2
