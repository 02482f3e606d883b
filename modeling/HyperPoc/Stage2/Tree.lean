import HyperPoc.Library.BitField
import HyperPoc.Mmu
import HyperPoc.Stage2.Architecture

/-! # Table pages as a tree

The tables of one address space are page-aligned pages without sharing. The code's two kinds of
descriptor writes are the two updates of a radix table: a new table page is hung into an entry that
refers to nothing, and a level 3 entry is rewritten.
-/
namespace HyperPoc.Stage2
open Library.Memory Library.RadixTable
set_option autoImplicit false

theorem ptePa_eq (desc : Nat) : ptePa desc = outputAddress desc := by
  have h := Library.BitField.and_field desc 12 36
  rwa [show (2 ^ 36 - 1) * 2 ^ 12 = 0xfffffffff000 by decide] at h

theorem isTable_iff (desc : Nat) :
    (desc &&& pteValid ≠ 0 ∧ desc &&& pteTable ≠ 0) ↔ desc % 4 = 3 := by
  have hValid := Library.BitField.and_bit_ne_zero desc 0
  have hTable := Library.BitField.and_bit_ne_zero desc 1
  rw [show (2 : Nat) ^ 0 = pteValid from rfl] at hValid
  rw [show (2 : Nat) ^ 1 = pteTable from rfl] at hTable
  rw [hValid, hTable, pteValid, pteTable]
  omega

theorem pidx_eq (l va : Nat) (hl : l ≤ 3) : pidx l va = shape.slot l (va % 2 ^ 48 / 4096) := by
  have hl : l = 0 ∨ l = 1 ∨ l = 2 ∨ l = 3 := by omega
  have hMask : ∀ n, n &&& 0x1ff = n % 512 := fun n => Nat.and_two_pow_sub_one_eq_mod n 9
  rw [slot_eq l _ (by omega), pidx, hMask, Nat.shiftRight_eq_div_pow]
  rcases hl with rfl | rfl | rfl | rfl <;> simp only [Nat.reducePow, Nat.reduceMul, Nat.reduceSub] <;> omega

theorem tableDesc_eq (page : Nat) (hAligned : page % 4096 = 0) (hLt : page < 2 ^ 48) :
    ptePa page ||| pteTable ||| pteValid = page + 3 := by
  have hPa : ptePa page = page / 4 * 2 ^ 2 := by
    rw [ptePa_eq, outputAddress]
    omega
  have hLow : pteTable ||| pteValid = 3 := by decide
  rw [Nat.or_assoc, hLow, hPa, Library.BitField.or_eq_add _ _ _ (by decide)]
  omega

theorem pageDesc_eq (pa attr : Nat) (hAttr : attr < 4096) (hAligned : pa % 4096 = 0) (hLt : pa < 2 ^ 48) :
    ptePa pa ||| s2pteAf ||| attr ||| pteV = pa + (s2pteAf ||| attr ||| pteV) := by
  have hPa : ptePa pa = pa / 4096 * 2 ^ 12 := by
    rw [ptePa_eq, outputAddress]
    omega
  have hLow : s2pteAf ||| attr ||| pteV < 2 ^ 12 :=
    Nat.or_lt_two_pow (Nat.or_lt_two_pow (by decide) hAttr) (by decide)
  rw [Nat.or_assoc, Nat.or_assoc, ← Nat.or_assoc s2pteAf, hPa, Library.BitField.or_eq_add _ _ _ hLow]
  omega

theorem lowBits_lt (attr : Nat) (hAttr : attr < 4096) : s2pteAf ||| attr ||| pteV < 4096 :=
  Nat.or_lt_two_pow (n := 12) (Nat.or_lt_two_pow (by decide) hAttr) (by decide)

theorem or_pteV_mod (n : Nat) : (n ||| pteV) % 4 = 3 := by
  have hMod : (n ||| pteV) % 2 ^ 2 = 3 := by
    rw [Nat.or_mod_two_pow, show pteV % 2 ^ 2 = 2 ^ 2 - 1 from rfl]
    apply Nat.eq_of_testBit_eq
    intro i
    rw [Nat.testBit_or, Nat.testBit_mod_two_pow, Nat.testBit_two_pow_sub_one]
    cases decide (i < 2) <;> simp
  exact hMod

theorem pageDesc_output (pa attr : Nat) (hAttr : attr < 4096) (hAligned : pa % 4096 = 0) (hLt : pa < 2 ^ 48) :
    outputAddress (ptePa pa ||| s2pteAf ||| attr ||| pteV) = pa := by
  have hLow := lowBits_lt attr hAttr
  rw [pageDesc_eq pa attr hAttr hAligned hLt, outputAddress]
  omega

/-- The tables below `root`, named by level and prefix, are separate pages of host memory. -/
structure Tree (m : Mem) (root : Nat) (node : Nat → Nat → Option Nat) : Prop where
  rep : Represents shape (descriptor m) root node
  aligned : ∀ l p t, node l p = some t → t % 4096 = 0
  pos : ∀ l p t, node l p = some t → 0 < t
  bound : ∀ l p t, node l p = some t → t < 2 ^ 48
  clean : ∀ p t i, node 3 p = some t → i < 512 → descriptor m t i % 4 ≠ 3 → descriptor m t i = 0

def leafDesc (m : Mem) (node : Nat → Nat → Option Nat) (key : Nat) : Option Nat :=
  value shape (descriptor m) node page key

theorem leafDesc_eq (m : Mem) (node : Nat → Nat → Option Nat) (key : Nat) :
    leafDesc m node key = (node 3 (key / 512)).bind fun t => page (descriptor m t (key % 512)) := rfl

theorem Tree.unmapped_entry {m : Mem} {root : Nat} {node : Nat → Nat → Option Nat} (h : Tree m root node)
    {key t : Nat} (ht : node 3 (key / 512) = some t) (hLeaf : leafDesc m node key = none) :
    load m (t + 8 * (key % 512)) 8 = 0 := by
  rw [leafDesc_eq, ht, Option.bind_some, page] at hLeaf
  apply h.clean _ _ _ ht (Nat.mod_lt _ (by decide))
  intro hPage
  rw [if_pos hPage] at hLeaf
  cases hLeaf

theorem Tree.archWalk_eq {m : Mem} {root : Nat} {node : Nat → Nat → Option Nat} (h : Tree m root node)
    (ipa : Nat) (hIpa : ipa < 2 ^ 48) : archWalk m root ipa = (leafDesc m node (ipa / 4096)).map
      fun desc => ⟨desc, outputAddress desc + ipa % 4096⟩ :=
  Stage2.archWalk_eq h.rep ipa hIpa

theorem descriptor_store_self (m : Mem) (t i w : Nat) (hw : w < 2 ^ 64) :
    descriptor (store m (t + 8 * i) 8 w) t i = w := load_store hw

theorem descriptor_store_ne (m : Mem) (t i w s j : Nat) (ht : t % 4096 = 0) (hs : s % 4096 = 0)
    (hi : i < 512) (hj : j < 512) (hNe : ¬(s = t ∧ j = i)) :
    descriptor (store m (t + 8 * i) 8 w) s j = descriptor m s j := by
  apply load_store_of_disjoint
  omega

theorem descriptor_zero {m : Mem} {t i : Nat} (h : Zero m t 4096) (hi : i < 512) : descriptor m t i = 0 := by
  apply load_zero
  intro k hk
  rw [Nat.add_assoc]
  exact h _ (by omega)

theorem tree_root {m : Mem} {root : Nat} (hZero : Zero m root 4096) (hAligned : root % 4096 = 0)
    (hPos : 0 < root) (hBound : root < 2 ^ 48) :
    Tree m root (fun l p => if l = 0 ∧ p = 0 then some root else none) := by
  have hNode : ∀ l p t, (if l = 0 ∧ p = 0 then some root else none) = some t → t = root := by
    intro l p t ht
    split at ht
    · cases ht
      rfl
    · cases ht
  refine ⟨represents_root fun i hi => descriptor_zero hZero hi, ?_, ?_, ?_, ?_⟩
  · intro l p t ht
    rw [hNode l p t ht]
    exact hAligned
  · intro l p t ht
    rw [hNode l p t ht]
    exact hPos
  · intro l p t ht
    rw [hNode l p t ht]
    exact hBound
  · intro p t i ht
    rw [if_neg (by omega)] at ht
    cases ht

section
variable {m : Mem} {root : Nat} {node : Nat → Nat → Option Nat} {l p i t page : Nat}

theorem Tree.hangs (h : Tree m root node) (hl : l < 3) (hi : i < 512) (ht : node l p = some t)
    (hFree : descriptor m t i % 4 ≠ 3) (hFresh : ∀ l p, node l p ≠ some page)
    (hZero : Zero m page 4096) (hAligned : page % 4096 = 0) (hBound : page < 2 ^ 48) :
    Hangs shape (descriptor m) (descriptor (store m (t + 8 * i) 8 (page + 3))) node l p i t page := by
  have htAligned := h.aligned l p t ht
  have hNe : page ≠ t := by
    intro hEq
    rw [hEq] at hFresh
    exact hFresh l p ht
  have hOut : outputAddress (page + 3) = page := by
    rw [outputAddress]
    omega
  refine ⟨hl, hi, ht, child_of_not_table hFree, hFresh, ?_, ?_, ?_⟩
  · rw [descriptor_store_self _ _ _ _ (by omega), child_of_table (by omega), hOut]
  · intro j hj
    rw [descriptor_store_ne _ _ _ _ _ _ htAligned hAligned hi hj (by omega)]
    exact descriptor_zero hZero hj
  · intro l₀ p₀ s j hs hj hNot
    exact descriptor_store_ne _ _ _ _ _ _ htAligned (h.aligned l₀ p₀ s hs) hi hj hNot

/-- A zeroed page that is no table yet becomes one and maps nothing. -/
theorem Tree.hang (h : Tree m root node) (hl : l < 3) (hi : i < 512) (ht : node l p = some t)
    (hFree : descriptor m t i % 4 ≠ 3) (hFresh : ∀ l p, node l p ≠ some page)
    (hZero : Zero m page 4096) (hAligned : page % 4096 = 0) (hPos : 0 < page) (hBound : page < 2 ^ 48) :
    Tree (store m (t + 8 * i) 8 (page + 3)) root (hang node (l + 1) (512 * p + i) page) ∧
    ∀ key, leafDesc (store m (t + 8 * i) 8 (page + 3)) (hang node (l + 1) (512 * p + i) page) key =
      leafDesc m node key := by
  have hHangs := h.hangs hl hi ht hFree hFresh hZero hAligned hBound
  have hNode : ∀ l₀ p₀ s, Library.RadixTable.hang node (l + 1) (512 * p + i) page l₀ p₀ = some s →
      s = page ∨ node l₀ p₀ = some s := by
    intro l₀ p₀ s hs
    rw [Library.RadixTable.hang] at hs
    split at hs
    · cases hs
      exact .inl rfl
    · exact .inr hs
  refine ⟨⟨hHangs.represents h.rep, ?_, ?_, ?_, ?_⟩, hHangs.value_eq h.rep Stage2.page (by decide)⟩
  · intro l₀ p₀ s hs
    rcases hNode l₀ p₀ s hs with rfl | hOld
    · exact hAligned
    · exact h.aligned l₀ p₀ s hOld
  · intro l₀ p₀ s hs
    rcases hNode l₀ p₀ s hs with rfl | hOld
    · exact hPos
    · exact h.pos l₀ p₀ s hOld
  · intro l₀ p₀ s hs
    rcases hNode l₀ p₀ s hs with rfl | hOld
    · exact hBound
    · exact h.bound l₀ p₀ s hOld
  · intro p₀ s j hs hj hNot
    rcases hNode 3 p₀ s hs with rfl | hOld
    · exact hHangs.blank j hj
    · have hSame := descriptor_store_ne m t i (page + 3) s j (h.aligned l p t ht) (h.aligned 3 p₀ s hOld) hi hj
        (by
          rintro ⟨rfl, _⟩
          have hLevel := (h.rep.unique _ _ _ _ _ hOld ht).1
          omega)
      rw [hSame] at hNot ⊢
      exact h.clean p₀ s j hOld hj hNot

theorem Tree.of_sameTables {m' : Mem} (h : Tree m root node)
    (hSame : ∀ l p t b, node l p = some t → t ≤ b → b < t + 4096 → m' b = m b) :
    Tree m' root node ∧ ∀ key, leafDesc m' node key = leafDesc m node key := by
  have hCells : ∀ l p t i, node l p = some t → i < 512 → descriptor m' t i = descriptor m t i := by
    intro l p t i ht hi
    apply load_congr
    intro k hk
    exact hSame l p t _ ht (by omega) (by omega)
  refine ⟨⟨h.rep.of_inner_eq fun l p t i _ ht hi => hCells l p t i ht hi, h.aligned, h.pos, h.bound, ?_⟩, ?_⟩
  · intro p t i ht hi hNot
    rw [hCells 3 p t i ht hi] at hNot ⊢
    exact h.clean p t i ht hi hNot
  · intro key
    rw [leafDesc_eq, leafDesc_eq]
    cases hNode : node 3 (key / 512) with
    | none => rw [Option.bind_none, Option.bind_none]
    | some t =>
      rw [Option.bind_some, Option.bind_some, hCells 3 _ t _ hNode (Nat.mod_lt _ (by decide))]

theorem Tree.of_sameOutside {m' : Mem} (h : Tree m root node) (hFresh : ∀ l p, node l p ≠ some page)
    (hAligned : page % 4096 = 0) (hSame : SameOutside m m' page 4096) :
    Tree m' root node ∧ ∀ key, leafDesc m' node key = leafDesc m node key := by
  apply h.of_sameTables
  intro l p t b ht hLow hHigh
  have htAligned := h.aligned l p t ht
  have hNe : t ≠ page := by
    rintro rfl
    exact hFresh l p ht
  exact hSame b (by omega)

/-- Writing a level 3 entry changes what is stored for its own page number only. -/
theorem Tree.write (h : Tree m root node) (key w : Nat) (ht : node 3 (key / 512) = some t) (hw : w < 2 ^ 64)
    (hClean : w % 4 = 3 ∨ w = 0) :
    Tree (store m (t + 8 * (key % 512)) 8 w) root node ∧
    ∀ key', leafDesc (store m (t + 8 * (key % 512)) 8 w) node key' =
      if key' = key then Stage2.page w else leafDesc m node key' := by
  have htAligned := h.aligned 3 _ t ht
  have hKey : key % 512 < 512 := Nat.mod_lt _ (by decide)
  refine ⟨⟨h.rep.of_inner_eq ?_, h.aligned, h.pos, h.bound, ?_⟩, ?_⟩
  · intro l₀ p₀ s j hl₀ hs hj
    apply descriptor_store_ne _ _ _ _ _ _ htAligned (h.aligned l₀ p₀ s hs) hKey hj
    rintro ⟨rfl, _⟩
    have hLevel := (h.rep.unique _ _ _ _ _ hs ht).1
    change l₀ < 3 at hl₀
    omega
  · intro p₀ s j hs hj hNot
    by_cases hEntry : s = t ∧ j = key % 512
    · obtain ⟨rfl, rfl⟩ := hEntry
      rw [descriptor_store_self _ _ _ _ hw] at hNot ⊢
      exact hClean.resolve_left hNot
    · rw [descriptor_store_ne _ _ _ _ _ _ htAligned (h.aligned 3 p₀ s hs) hKey hj hEntry] at hNot ⊢
      exact h.clean p₀ s j hs hj hNot
  · apply h.rep.value_write Stage2.page key ht w (descriptor_store_self _ _ _ _ hw)
    intro p₀ s j hs hj hNot
    exact descriptor_store_ne _ _ _ _ _ _ htAligned (h.aligned _ p₀ s hs) hKey hj hNot

end

end HyperPoc.Stage2
