import HyperPoc.PageAlloc
import HyperPoc.Stage2.Architecture

/-! # Which page becomes which table

The tables that a range of page numbers needs are added level by level, page number by page number, each in
the next free page of the pool. This is known from the allocator and the tables alone.
-/
namespace HyperPoc.Stage2
open Library.RadixTable
set_option autoImplicit false

theorem hang_extends {node : Nat → Nat → Option Nat} {l q page : Nat} (hNone : node l q = none)
    (l₀ p₀ t : Nat) (ht : node l₀ p₀ = some t) : hang node l q page l₀ p₀ = some t := by
  rw [hang, if_neg, ht]
  rintro ⟨rfl, rfl⟩
  rw [hNone] at ht
  cases ht

/-- The allocator and the tables, named by level and prefix. -/
abbrev Tables : Type := PageAllocator × (Nat → Nat → Option Nat)

/-- Take a page for the table at level `l` and prefix `q`, if there is none yet. Without a free page there is no
result. -/
def addTable (l q : Nat) (r : Tables) : Option Tables :=
  if (r.2 l q).isSome then some r
  else if r.1.allocPage.2 = minusOne then none
  else some (r.1.allocPage.1, hang r.2 l q r.1.allocPage.2)

/-- The tables for the page number `key` in the `n` levels behind level `l`. -/
def addTables (key : Nat) : Nat → Nat → Tables → Option Tables
  | 0, _, r => some r
  | n + 1, l, r => (addTable (l + 1) (shape.pre (l + 1) key) r).bind (addTables key n (l + 1))

/-- The tables for `n` page numbers from `key` on. -/
def tablesFor : Nat → Nat → Tables → Option Tables
  | _, 0, r => some r
  | key, n + 1, r => (addTables key 3 0 r).bind (tablesFor (key + 1) n)

def Tables.Within (r r' : Tables) : Prop := ∀ l q t, r.2 l q = some t → r'.2 l q = some t

section
variable {r r₁ r' : Tables} {l q key n : Nat}

theorem Tables.Within.trans (h : r.Within r₁) (h' : r₁.Within r') : r.Within r' :=
  fun l q t ht => h' l q t (h l q t ht)

theorem addTable_of_some {t : Nat} (ht : r.2 l q = some t) : addTable l q r = some r := by
  rw [addTable, ht, Option.isSome_some, if_pos rfl]

theorem addTable_of_none (ht : r.2 l q = none) (hNe : r.1.allocPage.2 ≠ minusOne) :
    addTable l q r = some (r.1.allocPage.1, hang r.2 l q r.1.allocPage.2) := by
  rw [addTable, ht, Option.isSome_none, if_neg Bool.false_ne_true, if_neg hNe]

theorem addTable_within (h : addTable l q r = some r') : r.Within r' := by
  intro l₀ q₀ t ht
  rw [addTable] at h
  split at h
  · cases h
    exact ht
  · rename_i hNone
    split at h
    · cases h
    · cases h
      exact hang_extends (Option.not_isSome_iff_eq_none.mp hNone) l₀ q₀ t ht

theorem addTables_within (h : addTables key n l r = some r') : r.Within r' := by
  induction n generalizing l r with
  | zero =>
    cases h
    exact fun _ _ _ ht => ht
  | succ n ih =>
    obtain ⟨r₁, hAdd, hRest⟩ := Option.bind_eq_some_iff.mp h
    exact (addTable_within hAdd).trans (ih hRest)

theorem tablesFor_one (h : tablesFor key 1 r = some r') : addTables key 3 0 r = some r' := by
  obtain ⟨r₁, hAdd, hRest⟩ := Option.bind_eq_some_iff.mp h
  cases hRest
  exact hAdd

theorem tablesFor_within (h : tablesFor key n r = some r') : r.Within r' := by
  induction n generalizing key r with
  | zero =>
    cases h
    exact fun _ _ _ ht => ht
  | succ n ih =>
    obtain ⟨r₁, hAdd, hRest⟩ := Option.bind_eq_some_iff.mp h
    exact (addTables_within hAdd).trans (ih hRest)

end

end HyperPoc.Stage2
