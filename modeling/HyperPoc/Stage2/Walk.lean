import HyperPoc.PageSites
import HyperPoc.Stage2.Order
import HyperPoc.Stage2.Tree

/-! # What `pagewalk` does to a tree of tables

Without allocation it finds the level 3 entry or nothing. With allocation it hangs the missing table
pages one after the other; which pages the allocator may hand out is left to the caller, as an
invariant `I` that each allocation keeps and from which the new page is known to be fresh.
-/
namespace HyperPoc.Stage2
open Library.Memory Library.RadixTable Library.Run
set_option autoImplicit false

def pageKey (va : Nat) : Nat := va % 2 ^ 48 / 4096

theorem pageKey_of_lt {va : Nat} (h : va < 2 ^ 48) : pageKey va = va / 4096 := by
  rw [pageKey, Nat.mod_eq_of_lt h]

theorem pre_zero (va : Nat) : shape.pre 0 (pageKey va) = 0 := by
  change va % 2 ^ 48 / 4096 / 512 ^ 4 = 0
  omega

theorem pre_three (key : Nat) : shape.pre 3 key = key / 512 := shape.pre_depth key

theorem slot_three (key : Nat) : shape.slot 3 key = key % 512 := shape.slot_depth key

theorem slot_lt (l key : Nat) : shape.slot l key < 512 := shape.slot_lt l key

theorem Tree.pteAddr_eq {m : Mem} {root : Nat} {node : Nat → Nat → Option Nat} (h : Tree m root node)
    {l₀ p t : Nat} (ht : node l₀ p = some t) (l va : Nat) (hl : l ≤ 3) :
    pteAddr t l va = t + 8 * shape.slot l (pageKey va) := by
  have hBound := h.bound l₀ p t ht
  have hSlot := slot_lt l (pageKey va)
  rw [pteAddr, pidx_eq l va hl, ← pageKey, u64_of_lt (by omega)]

theorem Tree.node_succ {m : Mem} {root : Nat} {node : Nat → Nat → Option Nat} (h : Tree m root node)
    {l t : Nat} (key : Nat) (hl : l < 3) (ht : node l (shape.pre l key) = some t)
    (hTable : descriptor m t (shape.slot l key) % 4 = 3) :
    node (l + 1) (shape.pre (l + 1) key) = some (ptePa (descriptor m t (shape.slot l key))) := by
  rw [← h.rep.child_slot key hl ht, child_of_table hTable, ptePa_eq]

theorem Tree.node_succ_none {m : Mem} {root : Nat} {node : Nat → Nat → Option Nat} (h : Tree m root node)
    {l t : Nat} (key : Nat) (hl : l < 3) (ht : node l (shape.pre l key) = some t)
    (hTable : descriptor m t (shape.slot l key) % 4 ≠ 3) : node (l + 1) (shape.pre (l + 1) key) = none := by
  rw [← h.rep.child_slot key hl ht, child_of_not_table hTable]

/-- The level 3 entry a read-only walk finds, 0 when a table is missing. -/
def entryAddr (node : Nat → Nat → Option Nat) (key : Nat) : Nat :=
  match node 3 (key / 512) with
  | some t => t + 8 * (key % 512)
  | none => 0

theorem pagewalkLoop_read {h : Host} {root : Nat} {node : Nat → Nat → Option Nat}
    (hTree : Tree h.mem root node) (va n l t : Nat) (hn : l + n = 3)
    (ht : node l (shape.pre l (pageKey va)) = some t) :
    pagewalkLoop va false n l h t = .ok (h, entryAddr node (pageKey va)) := by
  induction n generalizing l t with
  | zero =>
    have hl : l = 3 := by omega
    subst hl
    rw [pagewalkLoop, hTree.pteAddr_eq ht 3 va (by omega), slot_three]
    rw [pre_three] at ht
    rw [entryAddr, ht]
  | succ n ih =>
    rw [pagewalkLoop, hTree.pteAddr_eq ht l va (by omega), ← descriptor]
    simp only [isTable_iff]
    split
    · rename_i hTable
      exact ih (l + 1) _ (by omega) (hTree.node_succ (pageKey va) (by omega) ht hTable)
    · rename_i hTable
      have hNext := hTree.node_succ_none (pageKey va) (by omega) ht hTable
      have hNone := hTree.rep.node_none_below (pageKey va) hNext 3 (by omega) (Nat.le_refl _)
      rw [pre_three] at hNone
      rw [entryAddr, hNone]
      rfl

theorem Tree.pagewalk_read {h : Host} {root : Nat} {node : Nat → Nat → Option Nat}
    (hTree : Tree h.mem root node) (va : Nat) :
    pagewalk h root va false = .ok (h, entryAddr node (pageKey va)) := by
  apply pagewalkLoop_read hTree va 3 0 root rfl
  rw [pre_zero]
  exact hTree.rep.root_node

theorem pagewalkLoop_host {va n l : Nat} {h h' : Host} {pgt pte : Nat}
    (hWalk : pagewalkLoop va false n l h pgt = .ok (h', pte)) : h' = h := by
  induction n generalizing l pgt with
  | zero =>
    cases hWalk
    rfl
  | succ n ih =>
    rw [pagewalkLoop] at hWalk
    dsimp only at hWalk
    split at hWalk
    · exact ih hWalk
    · rw [if_neg (by decide)] at hWalk
      cases hWalk
      rfl

theorem pagewalkLoop_grants {va : Nat} {needAlloc : Bool} {n l : Nat} {h h' : Host} {pgt pte : Nat}
    (hWalk : pagewalkLoop va needAlloc n l h pgt = .ok (h', pte)) :
    ∀ g, g ∈ h.grants → g ∈ h'.grants := by
  induction n generalizing l h pgt with
  | zero =>
    cases hWalk
    exact fun g hg => hg
  | succ n ih =>
    rw [pagewalkLoop] at hWalk
    dsimp only at hWalk
    split at hWalk
    · exact ih hWalk
    · split at hWalk
      · split at hWalk
        · cases hWalk
        · intro g hg
          exact ih hWalk g (List.mem_cons_of_mem _ hg)
      · cases hWalk
        exact fun g hg => hg

/-- `alloc_page` returned a zeroed page that is no table of `root` at that moment. -/
structure BlankPage (root : Nat) (g : Grant) : Prop where
  aligned : g.page % 4096 = 0
  bound : g.page < 2 ^ 48
  zero : Zero g.mem g.page 4096
  unused : ∀ l, ¬Table shape (descriptor g.mem) root l g.page

theorem Tree.blankPage {m : Mem} {root page : Nat} {node : Nat → Nat → Option Nat} (h : Tree m root node)
    (hZero : Zero m page 4096) (hAligned : page % 4096 = 0) (hBound : page < 2 ^ 48)
    (hFresh : ∀ l p, node l p ≠ some page) : BlankPage root ⟨m, page⟩ := by
  refine ⟨hAligned, hBound, hZero, ?_⟩
  intro l hTable
  obtain ⟨p, hNode⟩ := h.rep.node_of_table hTable
  exact hFresh l p hNode

/-- An allocation discipline for the tables of `root`: under `I` a page handed out by an acceptable
grant is blank and no table, and both kinds of table writes keep `I`. -/
structure Supply (root : Nat) (Ok : Grant → Prop) (I : Host → (Nat → Nat → Option Nat) → Prop) : Prop where
  fresh : ∀ h node, Tree h.mem root node → I h node → Ok ⟨h.mem, h.allocPage.2⟩ →
    BlankPage root ⟨h.mem, h.allocPage.2⟩
  keep : ∀ h node l p i t, Tree h.mem root node → I h node → Ok ⟨h.mem, h.allocPage.2⟩ → i < 512 →
    node l p = some t → I (h.allocPage.1.store64 (t + 8 * i) (h.allocPage.2 + 3))
      (hang node (l + 1) (512 * p + i) h.allocPage.2)
  leaf : ∀ h node key t w, Tree h.mem root node → I h node → node 3 (key / 512) = some t →
    I (h.store64 (t + 8 * (key % 512)) w) node

/-- The outcome of a walk with allocation, from the tree `node` in `h` to `node'` in `h'`. -/
structure Walked (root : Nat) (I : Host → (Nat → Nat → Option Nat) → Prop) (va : Nat) (h h' : Host)
    (node node' : Nat → Nat → Option Nat) (pte : Nat) : Prop where
  tree : Tree h'.mem root node'
  inv : I h' node'
  entry : ∃ t, node' 3 (pageKey va / 512) = some t ∧ pte = t + 8 * (pageKey va % 512)
  same : ∀ key, leafDesc h'.mem node' key = leafDesc h.mem node key
  extends_node : ∀ l p t, node l p = some t → node' l p = some t
  blank : ∀ g ∈ h'.grants, g ∈ h.grants ∨ BlankPage root g

section
variable {take : Take} {root : Nat} {Ok : Grant → Prop} {I : Host → (Nat → Nat → Option Nat) → Prop}

/-- The page handed out in `h` is the next table on the way to `key`. -/
structure Hung (root : Nat) (I : Host → (Nat → Nat → Option Nat) → Prop) (key l : Nat) (h h' : Host)
    (node : Nat → Nat → Option Nat) : Prop where
  tree : Tree h'.mem root (hang node (l + 1) (shape.pre (l + 1) key) h.allocPage.2)
  inv : I h' (hang node (l + 1) (shape.pre (l + 1) key) h.allocPage.2)
  named : hang node (l + 1) (shape.pre (l + 1) key) h.allocPage.2 (l + 1) (shape.pre (l + 1) key) = some h.allocPage.2
  same : ∀ key', leafDesc h'.mem (hang node (l + 1) (shape.pre (l + 1) key) h.allocPage.2) key' =
    leafDesc h.mem node key'
  vacant : node (l + 1) (shape.pre (l + 1) key) = none
  blank : BlankPage root ⟨h.mem, h.allocPage.2⟩
  granted : h.allocPage.2 ≠ minusOne

theorem Supply.hung (hSupply : Supply root Ok I) {key l t : Nat} {h : Host} {node : Nat → Nat → Option Nat}
    (hl : l < 3) (hTree : Tree h.mem root node) (hInv : I h node) (ht : node l (shape.pre l key) = some t)
    (hTable : descriptor h.mem t (shape.slot l key) % 4 ≠ 3) (hGrant : Ok ⟨h.mem, h.allocPage.2⟩)
    (hPos : h.allocPage.2 ≠ 0) :
    Hung root I key l h (h.allocPage.1.store64 (t + 8 * shape.slot l key)
      (ptePa h.allocPage.2 ||| pteTable ||| pteValid)) node := by
  have hBlank := hSupply.fresh h node hTree hInv hGrant
  have hAligned : h.allocPage.2 % 4096 = 0 := hBlank.aligned
  have hBound : h.allocPage.2 < 2 ^ 48 := hBlank.bound
  have hFresh : ∀ l p, node l p ≠ some h.allocPage.2 :=
    fun l p hNode => hBlank.unused l (hTree.rep.table_of_node l p _ hNode)
  have hSlot := slot_lt l key
  have hPre := shape.pre_succ l key (by change l ≤ 3; omega)
  change shape.pre (l + 1) key = 512 * shape.pre l key + shape.slot l key at hPre
  obtain ⟨hTree', hSame⟩ := hTree.hang (by omega) hSlot ht hTable hFresh hBlank.zero hAligned
    (Nat.pos_of_ne_zero hPos) hBound
  have hInv' := hSupply.keep h node l _ _ t hTree hInv hGrant hSlot ht
  rw [← hPre] at hTree' hSame hInv'
  rw [tableDesc_eq _ hAligned hBound]
  refine ⟨hTree', hInv', ?_, hSame, hTree.node_succ_none key hl ht hTable, hBlank, ?_⟩
  · rw [hang, if_pos ⟨rfl, rfl⟩]
  · rw [minusOne]
    omega

theorem pagewalkLoopWith_alloc (hSupply : Supply root Ok I) (hTake : take.Gives .table Ok) {va n l t pte : Nat}
    {h h' : Host} {node : Nat → Nat → Option Nat} (hn : l + n = 3) (hTree : Tree h.mem root node) (hInv : I h node)
    (ht : node l (shape.pre l (pageKey va)) = some t)
    (hWalk : pagewalkLoopWith take va true n l h t = .ok (h', pte)) :
    ∃ node', Walked root I va h h' node node' pte ∧
      addTables (pageKey va) n l (h.allocator, node) = some (h'.allocator, node') := by
  induction n generalizing l t h node with
  | zero =>
    have hl : l = 3 := by omega
    subst hl
    rw [pagewalkLoopWith, hTree.pteAddr_eq ht 3 va (by omega), slot_three] at hWalk
    cases hWalk
    rw [pre_three] at ht
    exact ⟨node, ⟨hTree, hInv, ⟨t, ht, rfl⟩, fun _ => rfl, fun _ _ _ h => h, fun _ hg => .inl hg⟩, rfl⟩
  | succ n ih =>
    rw [pagewalkLoopWith, hTree.pteAddr_eq ht l va (by omega), ← descriptor] at hWalk
    simp only [isTable_iff, if_true] at hWalk
    split at hWalk
    · rename_i hTable
      have hNext := hTree.node_succ (pageKey va) (by omega) ht hTable
      obtain ⟨node', hWalked, hTables⟩ := ih (by omega) hTree hInv hNext hWalk
      refine ⟨node', hWalked, ?_⟩
      rw [addTables, addTable_of_some hNext]
      exact hTables
    · rename_i hTable
      -- a missing table: the page handed out is hung under `t`, and the walk goes on in it
      obtain ⟨r, hAlloc, hRest⟩ := bind_eq_ok.mp hWalk
      obtain ⟨rfl, hPage, hGrant⟩ := hTake h r hAlloc
      have hHung := hSupply.hung (by omega) hTree hInv ht hTable hGrant (hPage (by decide))
      obtain ⟨node', hWalked, hTables⟩ := ih (by omega) hHung.tree hHung.inv hHung.named hRest
      refine ⟨node', ⟨hWalked.tree, hWalked.inv, hWalked.entry, ?_, ?_, ?_⟩, ?_⟩
      · intro key
        rw [hWalked.same key]
        exact hHung.same key
      · intro l₀ p₀ s hs
        exact hWalked.extends_node l₀ p₀ s (hang_extends hHung.vacant l₀ p₀ s hs)
      · intro g hg
        rcases hWalked.blank g hg with hOld | hNew
        · cases hOld with
          | head => exact .inr hHung.blank
          | tail _ hTail => exact .inl hTail
        · exact .inr hNew
      · rw [addTables, addTable_of_none (r := (h.allocator, node)) hHung.vacant hHung.granted]
        exact hTables

theorem pagewalkWith_alloc (hSupply : Supply root Ok I) (hTake : take.Gives .table Ok) {va pte : Nat} {h h' : Host}
    {node : Nat → Nat → Option Nat} (hTree : Tree h.mem root node) (hInv : I h node)
    (hWalk : pagewalkWith take h root va true = .ok (h', pte)) :
    ∃ node', Walked root I va h h' node node' pte ∧
      addTables (pageKey va) 3 0 (h.allocator, node) = some (h'.allocator, node') := by
  apply pagewalkLoopWith_alloc hSupply hTake (l := 0) (t := root) rfl hTree hInv _ hWalk
  rw [pre_zero]
  exact hTree.rep.root_node

end

end HyperPoc.Stage2
