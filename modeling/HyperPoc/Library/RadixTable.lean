import Mathlib.Algebra.Group.Nat.Defs
import Mathlib.Data.Nat.Init
import Mathlib.Tactic.Common

/-! # Radix tables stored in cells

A radix table of fixed depth keeps its nodes in an addressed store: each node is a row of
`fanout` cells, a cell of an inner node holds a reference to a child or is empty, and a cell of a
bottom node holds a value. The nodes are named by level and key prefix, so the absence of sharing
is the injectivity of the naming. Two updates are covered: hanging an empty node into an empty
inner cell, and rewriting one bottom cell.
-/
namespace Library.RadixTable
set_option autoImplicit false

/-- The format of a table: `child` reads a reference out of a cell of an inner node. -/
structure Shape (Addr Word : Type) where
  fanout : Nat
  depth : Nat
  child : Word → Option Addr
  empty : Word
  fanout_pos : 0 < fanout
  child_empty : child empty = none

variable {Addr Word V : Type} (S : Shape Addr Word)

def Shape.pre (l key : Nat) : Nat := key / S.fanout ^ (S.depth + 1 - l)

def Shape.slot (l key : Nat) : Nat := key / S.fanout ^ (S.depth - l) % S.fanout

theorem Shape.slot_lt (l key : Nat) : S.slot l key < S.fanout := Nat.mod_lt _ S.fanout_pos

theorem Shape.pre_succ (l key : Nat) (hl : l ≤ S.depth) :
    S.pre (l + 1) key = S.fanout * S.pre l key + S.slot l key := by
  have hExp : S.depth + 1 - l = S.depth - l + 1 := by omega
  have hNext : S.depth + 1 - (l + 1) = S.depth - l := by omega
  rw [Shape.pre, Shape.pre, Shape.slot, hExp, hNext, Nat.pow_succ, ← Nat.div_div_eq_div_mul,
    Nat.div_add_mod]

theorem Shape.pre_depth (key : Nat) : S.pre S.depth key = key / S.fanout := by
  rw [Shape.pre, Nat.add_sub_cancel_left, Nat.pow_one]

theorem Shape.slot_depth (key : Nat) : S.slot S.depth key = key % S.fanout := by
  rw [Shape.slot, Nat.sub_self, Nat.pow_zero, Nat.div_one]

/-- The store holds the table whose node at level `l` for prefix `p` is `node l p`. -/
structure Represents (cells : Addr → Nat → Word) (root : Addr)
    (node : Nat → Nat → Option Addr) : Prop where
  root_node : node 0 0 = some root
  root_only : ∀ p, p ≠ 0 → node 0 p = none
  level_le : ∀ l p t, node l p = some t → l ≤ S.depth
  linked : ∀ l p t i, l < S.depth → i < S.fanout → node l p = some t →
    S.child (cells t i) = node (l + 1) (S.fanout * p + i)
  vacant : ∀ l p t i, l < S.depth → i < S.fanout → node l p = some t →
    S.child (cells t i) = none → cells t i = S.empty
  orphan : ∀ l p i, l < S.depth → i < S.fanout → node l p = none →
    node (l + 1) (S.fanout * p + i) = none
  unique : ∀ l p l' p' t, node l p = some t → node l' p' = some t → l = l' ∧ p = p'

/-- The nodes that references lead to from the root, with their levels. -/
inductive Table (cells : Addr → Nat → Word) (root : Addr) : Nat → Addr → Prop
  | root : Table cells root 0 root
  | child {l : Nat} {t t' : Addr} {i : Nat} : Table cells root l t → l < S.depth → i < S.fanout →
      S.child (cells t i) = some t' → Table cells root (l + 1) t'

/-- The value stored for a key: its bottom cell, read by `leaf`. -/
def value (cells : Addr → Nat → Word) (node : Nat → Nat → Option Addr) (leaf : Word → Option V)
    (key : Nat) : Option V :=
  (node S.depth (key / S.fanout)).bind fun t => leaf (cells t (key % S.fanout))

def descend (cells : Addr → Nat → Word) (key : Nat) : Nat → Nat → Addr → Option Addr
  | 0, _, t => some t
  | n + 1, l, t => (S.child (cells t (S.slot l key))).bind (descend cells key n (l + 1))

section
variable {S} {cells : Addr → Nat → Word} {root : Addr} {node : Nat → Nat → Option Addr}

theorem Represents.child_slot (h : Represents S cells root node) {l : Nat} {t : Addr} (key : Nat)
    (hl : l < S.depth) (ht : node l (S.pre l key) = some t) :
    S.child (cells t (S.slot l key)) = node (l + 1) (S.pre (l + 1) key) := by
  rw [S.pre_succ l key (by omega)]
  exact h.linked l _ t _ hl (S.slot_lt l key) ht

theorem Represents.node_none_below (h : Represents S cells root node) {l : Nat} (key : Nat)
    (hNone : node l (S.pre l key) = none) (l' : Nat) (hle : l ≤ l') (hl' : l' ≤ S.depth) :
    node l' (S.pre l' key) = none := by
  induction l', hle using Nat.le_induction with
  | base => exact hNone
  | succ k hk ih =>
    rw [S.pre_succ k key (by omega)]
    exact h.orphan _ _ _ (by omega) (S.slot_lt _ key) (ih (by omega))

theorem Represents.descend_eq (h : Represents S cells root node) (key : Nat) (n l : Nat) (t : Addr)
    (hn : l + n ≤ S.depth) (ht : node l (S.pre l key) = some t) :
    descend S cells key n l t = node (l + n) (S.pre (l + n) key) := by
  induction n generalizing l t with
  | zero => exact ht.symm
  | succ n ih =>
    have hChild := h.child_slot key (by omega) ht
    rw [descend, hChild]
    cases hNode : node (l + 1) (S.pre (l + 1) key) with
    | some t' =>
      have hRest := ih (l + 1) t' (by omega) hNode
      rw [Nat.add_assoc, Nat.add_comm 1 n] at hRest
      rw [Option.bind_some, hRest]
    | none =>
      rw [Option.bind_none, h.node_none_below key hNode (l + (n + 1)) (by omega) hn]

/-- A node is named exactly when references lead to it. -/
theorem Represents.node_of_table (h : Represents S cells root node) {l : Nat} {t : Addr}
    (ht : Table S cells root l t) : ∃ p, node l p = some t := by
  induction ht with
  | root => exact ⟨0, h.root_node⟩
  | child _ hl hi hChild ih =>
    obtain ⟨p, hp⟩ := ih
    exact ⟨_, (h.linked _ p _ _ hl hi hp).symm.trans hChild⟩

theorem Represents.table_of_node (h : Represents S cells root node) (l p : Nat) (t : Addr)
    (ht : node l p = some t) : Table S cells root l t := by
  induction l generalizing p t with
  | zero =>
    by_cases hp : p = 0
    · rw [hp, h.root_node] at ht
      cases ht
      exact .root
    · rw [h.root_only p hp] at ht
      cases ht
  | succ l ih =>
    have hl : l < S.depth := h.level_le _ _ _ ht
    have hi : p % S.fanout < S.fanout := Nat.mod_lt _ S.fanout_pos
    have hp : S.fanout * (p / S.fanout) + p % S.fanout = p := Nat.div_add_mod p S.fanout
    cases hParent : node l (p / S.fanout) with
    | none =>
      have hNone := h.orphan l (p / S.fanout) (p % S.fanout) hl hi hParent
      rw [hp, ht] at hNone
      cases hNone
    | some s =>
      have hChild := h.linked l (p / S.fanout) s (p % S.fanout) hl hi hParent
      rw [hp, ht] at hChild
      exact .child (ih _ _ hParent) hl hi hChild

theorem Represents.pre_lt (h : Represents S cells root node) {l p : Nat} {t : Addr} (ht : node l p = some t) :
    p < S.fanout ^ l := by
  induction l generalizing p t with
  | zero =>
    by_contra hp
    rw [h.root_only p (by rw [Nat.pow_zero] at hp; omega)] at ht
    cases ht
  | succ l ih =>
    have hi : p % S.fanout < S.fanout := Nat.mod_lt _ S.fanout_pos
    cases hParent : node l (p / S.fanout) with
    | none =>
      have hNone := h.orphan l (p / S.fanout) (p % S.fanout) (h.level_le _ _ _ ht) hi hParent
      rw [Nat.div_add_mod p S.fanout, ht] at hNone
      cases hNone
    | some s =>
      rw [Nat.pow_succ]
      exact Nat.lt_mul_of_div_lt (ih hParent) S.fanout_pos

theorem represents_root [DecidableEq Addr] (hEmpty : ∀ i, i < S.fanout → cells root i = S.empty) :
    Represents S cells root (fun l p => if l = 0 ∧ p = 0 then some root else none) where
  root_node := by simp
  root_only p hp := by simp [hp]
  level_le l p t ht := by
    split at ht
    · omega
    · cases ht
  linked l p t i hl hi ht := by
    split at ht
    · cases ht
      rw [hEmpty i hi, S.child_empty, if_neg (by omega)]
    · cases ht
  vacant l p t i hl hi ht _ := by
    split at ht
    · cases ht
      exact hEmpty i hi
    · cases ht
  orphan l p i hl hi _ := by rw [if_neg (by omega)]
  unique l p l' p' t ht ht' := by
    split at ht
    · split at ht'
      · omega
      · cases ht'
    · cases ht

theorem Represents.of_inner_eq (h : Represents S cells root node) {cells' : Addr → Nat → Word}
    (hSame : ∀ l p t i, l < S.depth → node l p = some t → i < S.fanout → cells' t i = cells t i) :
    Represents S cells' root node where
  root_node := h.root_node
  root_only := h.root_only
  level_le := h.level_le
  linked l p t i hl hi ht := by
    rw [hSame l p t i hl ht hi]
    exact h.linked l p t i hl hi ht
  vacant l p t i hl hi ht hChild := by
    rw [hSame l p t i hl ht hi] at hChild ⊢
    exact h.vacant l p t i hl hi ht hChild
  orphan := h.orphan
  unique := h.unique

end

/-- The naming after a node `t'` has been hung under level `l`, prefix `q`. -/
def hang (node : Nat → Nat → Option Addr) (l q : Nat) (t' : Addr) : Nat → Nat → Option Addr :=
  fun l₀ p₀ => if l₀ = l ∧ p₀ = q then some t' else node l₀ p₀

section
variable {S} {cells cells' : Addr → Nat → Word} {root : Addr} {node : Nat → Nat → Option Addr}
  {l p i : Nat} {t t' : Addr}

structure Hangs (S : Shape Addr Word) (cells cells' : Addr → Nat → Word)
    (node : Nat → Nat → Option Addr) (l p i : Nat) (t t' : Addr) : Prop where
  level : l < S.depth
  index : i < S.fanout
  parent : node l p = some t
  free : S.child (cells t i) = none
  fresh : ∀ l₀ p₀, node l₀ p₀ ≠ some t'
  link : S.child (cells' t i) = some t'
  blank : ∀ j, j < S.fanout → cells' t' j = S.empty
  same : ∀ l₀ p₀ s j, node l₀ p₀ = some s → j < S.fanout → ¬(s = t ∧ j = i) → cells' s j = cells s j

theorem index_eq_of_eq {f p p₀ i j : Nat} (hi : i < f) (hj : j < f) (h : f * p + i = f * p₀ + j) :
    p = p₀ ∧ i = j := by
  have hDiv := congrArg (· / f) h
  have hMod := congrArg (· % f) h
  simp only [Nat.mul_add_div (by omega : f > 0), Nat.mul_add_mod, Nat.div_eq_of_lt hi,
    Nat.div_eq_of_lt hj, Nat.mod_eq_of_lt hi, Nat.mod_eq_of_lt hj, Nat.add_zero] at hDiv hMod
  exact ⟨hDiv, hMod⟩

theorem Hangs.node_none (hh : Hangs S cells cells' node l p i t t')
    (h : Represents S cells root node) : node (l + 1) (S.fanout * p + i) = none := by
  rw [← h.linked l p t i hh.level hh.index hh.parent]
  exact hh.free

theorem Hangs.represents (hh : Hangs S cells cells' node l p i t t')
    (h : Represents S cells root node) :
    Represents S cells' root (hang node (l + 1) (S.fanout * p + i) t') where
  root_node := by rw [hang, if_neg (by omega), h.root_node]
  root_only q hq := by rw [hang, if_neg (by omega), h.root_only q hq]
  level_le l₀ p₀ s hs := by
    rw [hang] at hs
    split at hs
    · have := hh.level
      omega
    · exact h.level_le l₀ p₀ s hs
  linked l₀ p₀ s j hl₀ hj hs := by
    rw [hang] at hs
    split at hs
    · rename_i hNew
      cases hs
      -- the new node is empty, and nothing was named below its prefix before
      have hBelow := h.orphan (l + 1) (S.fanout * p + i) j (by omega) hj (hh.node_none h)
      rw [hh.blank j hj, S.child_empty, hang, if_neg (by omega), hNew.1, hNew.2, hBelow]
    · by_cases hAt : s = t ∧ j = i
      · obtain ⟨rfl, rfl⟩ := hAt
        obtain ⟨rfl, rfl⟩ := h.unique _ _ _ _ _ hs hh.parent
        rw [hh.link, hang, if_pos ⟨rfl, rfl⟩]
      · rw [hh.same l₀ p₀ s j hs hj hAt, h.linked l₀ p₀ s j hl₀ hj hs, hang, if_neg]
        rintro ⟨hLevel, hPrefix⟩
        obtain ⟨rfl, rfl⟩ := index_eq_of_eq hj hh.index hPrefix
        have hLevel : l₀ = l := by omega
        rw [hLevel, hh.parent] at hs
        cases hs
        exact hAt ⟨rfl, rfl⟩
  vacant l₀ p₀ s j hl₀ hj hs hChild := by
    rw [hang] at hs
    split at hs
    · cases hs
      exact hh.blank j hj
    · by_cases hAt : s = t ∧ j = i
      · rw [hAt.1, hAt.2, hh.link] at hChild
        cases hChild
      · rw [hh.same l₀ p₀ s j hs hj hAt] at hChild ⊢
        exact h.vacant l₀ p₀ s j hl₀ hj hs hChild
  orphan l₀ p₀ j hl₀ hj hs := by
    rw [hang] at hs
    split at hs
    · cases hs
    · rw [hang, if_neg, h.orphan l₀ p₀ j hl₀ hj hs]
      rintro ⟨hLevel, hPrefix⟩
      obtain ⟨rfl, rfl⟩ := index_eq_of_eq hj hh.index hPrefix
      have hLevel : l₀ = l := by omega
      rw [hLevel, hh.parent] at hs
      cases hs
  unique l₁ p₁ l₂ p₂ s hs₁ hs₂ := by
    rw [hang] at hs₁ hs₂
    split at hs₁ <;> split at hs₂
    · omega
    · cases hs₁
      exact False.elim (hh.fresh l₂ p₂ hs₂)
    · cases hs₂
      exact False.elim (hh.fresh l₁ p₁ hs₁)
    · exact h.unique l₁ p₁ l₂ p₂ s hs₁ hs₂

theorem Hangs.value_eq (hh : Hangs S cells cells' node l p i t t')
    (h : Represents S cells root node) (leaf : Word → Option V) (hLeaf : leaf S.empty = none)
    (key : Nat) :
    value S cells' (hang node (l + 1) (S.fanout * p + i) t') leaf key = value S cells node leaf key := by
  have hSlot : key % S.fanout < S.fanout := Nat.mod_lt _ S.fanout_pos
  rw [value, value, hang]
  split
  · rename_i hNew
    have hOld := hh.node_none h
    rw [← hNew.1, ← hNew.2] at hOld
    rw [hOld, Option.bind_some, Option.bind_none, hh.blank _ hSlot, hLeaf]
  · cases hNode : node S.depth (key / S.fanout) with
    | none => rfl
    | some s =>
      have hNot : ¬(s = t ∧ key % S.fanout = i) := by
        rintro ⟨rfl, _⟩
        have hLevel := (h.unique _ _ _ _ _ hNode hh.parent).1
        have := hh.level
        omega
      rw [Option.bind_some, Option.bind_some, hh.same _ _ s _ hNode hSlot hNot]

/-- Rewriting the bottom cell of one key changes the value of that key only. -/
theorem Represents.value_write (h : Represents S cells root node) (leaf : Word → Option V)
    (key : Nat) (ht : node S.depth (key / S.fanout) = some t) (w : Word)
    (hAt : cells' t (key % S.fanout) = w)
    (hSame : ∀ p s j, node S.depth p = some s → j < S.fanout → ¬(s = t ∧ j = key % S.fanout) →
      cells' s j = cells s j) (key' : Nat) :
    value S cells' node leaf key' = if key' = key then leaf w else value S cells node leaf key' := by
  split
  · rename_i hKey
    rw [hKey, value, ht, Option.bind_some, hAt]
  · rename_i hKey
    rw [value, value]
    cases hNode : node S.depth (key' / S.fanout) with
    | none => rfl
    | some s =>
      have hNot : ¬(s = t ∧ key' % S.fanout = key % S.fanout) := by
        rintro ⟨rfl, hMod⟩
        have hDiv := (h.unique _ _ _ _ _ hNode ht).2
        apply hKey
        rw [← Nat.div_add_mod key' S.fanout, ← Nat.div_add_mod key S.fanout, hDiv, hMod]
      rw [Option.bind_some, Option.bind_some,
        hSame _ s _ hNode (Nat.mod_lt _ S.fanout_pos) hNot]

end

end Library.RadixTable
