import Mathlib.Data.List.Perm.Subperm
import Mathlib.Logic.Function.Basic

/-! # Linked lists in an array

The successor of an element is found through a function `next`, so two lists share an element exactly
if they share all that follows it. A list that ends in `none` is the list of the elements it visits.
-/
namespace Library.LinkedList
set_option autoImplicit false

section
variable {ι : Type} {next next' : ι → Option ι} {head : Option ι} {l : List ι}

/-- From `head` on, the elements of `l` are visited and then the list ends. -/
inductive Links (next : ι → Option ι) : Option ι → List ι → Prop
  | nil : Links next none []
  | cons {i : ι} {l : List ι} : Links next (next i) l → Links next (some i) (i :: l)

theorem Links.congr (h : Links next head l) (hSame : ∀ i ∈ l, next' i = next i) : Links next' head l := by
  induction h with
  | nil => exact .nil
  | @cons i l _ ih =>
    refine .cons ?_
    rw [hSame i List.mem_cons_self]
    exact ih (fun j hj => hSame j (List.mem_cons_of_mem i hj))

theorem Links.push {i : ι} (h : Links next head l) (hi : next' i = head) (hSame : ∀ j ∈ l, next' j = next j) :
    Links next' (some i) (i :: l) := by
  refine .cons ?_
  rw [hi]
  exact h.congr hSame

theorem Links.unique {l' : List ι} (h : Links next head l) (h' : Links next head l') : l = l' := by
  induction h generalizing l' with
  | nil =>
    cases h'
    rfl
  | cons _ ih =>
    cases h' with
    | cons hRest => rw [ih hRest]

theorem Links.from_mem {i : ι} (h : Links next head l) (hi : i ∈ l) :
    ∃ l', Links next (some i) l' ∧ l'.length ≤ l.length := by
  induction h with
  | nil => cases hi
  | @cons j l hRest ih =>
    obtain rfl | hTail := List.mem_cons.mp hi
    · exact ⟨_, .cons hRest, Nat.le_refl _⟩
    · obtain ⟨l', hLinks, hLe⟩ := ih hTail
      exact ⟨l', hLinks, Nat.le_succ_of_le hLe⟩

/-- A list that ends visits nothing twice: what follows an element is determined by the element. -/
theorem Links.nodup (h : Links next head l) : l.Nodup := by
  induction h with
  | nil => exact List.nodup_nil
  | @cons i l hRest ih =>
    refine List.nodup_cons.mpr ⟨?_, ih⟩
    intro hi
    obtain ⟨l', hLinks, hLe⟩ := hRest.from_mem hi
    rw [hLinks.unique (.cons hRest), List.length_cons] at hLe
    omega

theorem Links.head_mem {i : ι} (h : Links next (some i) l) : i ∈ l := by
  cases h
  exact List.mem_cons_self

theorem Links.next_mem {i j : ι} (h : Links next (some i) l) (hNext : next i = some j) : j ∈ l := by
  cases h with
  | cons hRest =>
    rw [hNext] at hRest
    exact List.mem_cons_of_mem i hRest.head_mem

theorem not_links_of_self {i : ι} (hSelf : next i = some i) : ¬Links next (some i) l := by
  intro h
  have hNodup := h.nodup
  cases h with
  | cons hRest =>
    rw [hSelf] at hRest
    exact (List.nodup_cons.mp hNodup).1 hRest.head_mem

end

/-- In an array of `n` elements a list that ends has at most `n` elements. -/
theorem Links.length_le {next : Nat → Option Nat} {head : Option Nat} {l : List Nat} {n : Nat} (h : Links next head l)
    (hLt : ∀ i ∈ l, i < n) : l.length ≤ n := by
  have hSub := h.nodup.subperm fun i hi => List.mem_range.mpr (hLt i hi)
  have hLe := hSub.length_le
  rwa [List.length_range] at hLe

end Library.LinkedList
