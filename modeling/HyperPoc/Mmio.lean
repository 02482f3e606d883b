import HyperPoc.Basic
import Mathlib.Logic.Function.Basic

/-! # Registered MMIO regions

The regions of a VM are a linked list through one static array of 64 nodes; a node is free while its
size is 0. Links are array indices. The array does not look into the handlers it keeps, so their type is
a parameter; the devices of the repository register the pairs that `Handler` names.
-/
namespace HyperPoc
set_option autoImplicit false

inductive Handler where
  | vgicd
  | vgicr
  | virtio
  deriving DecidableEq

structure MmioInfo (H : Type) where
  next : Option Nat
  ipaBase : Nat
  size : Nat
  read : Option H
  write : Option H
  deriving DecidableEq

def mmioInfoMax : Nat := 64

section
variable {H : Type}

/-- The node taken from the array, already linked to `prev`. -/
def allocMmioInfo (pool : Nat → MmioInfo H) (prev : Option Nat) : Option ((Nat → MmioInfo H) × Nat) :=
  match firstFree (fun i => (pool i).size == 0) mmioInfoMax with
  | some i => some (Function.update pool i { pool i with size := 1, next := prev }, i)
  | none => none

def mmioRegHandler (pool : Nat → MmioInfo H) (mmioList : Option Nat) (ipa size : Nat) (read write : Option H) :
    ((Nat → MmioInfo H) × Option Nat) × Int :=
  if size = 0 then ((pool, mmioList), -1)
  else
    match allocMmioInfo pool mmioList with
    | none => ((pool, mmioList), -1)
    | some (pool, i) =>
      ((Function.update pool i { pool i with ipaBase := ipa, size := size, read := read, write := write }, some i), 0)

/-- A registration fails if no node is free. Otherwise it fills one free node, in front of the list. -/
theorem mmioRegHandler_cases (pool : Nat → MmioInfo H) (list : Option Nat) (ipa : Nat) {size : Nat}
    (read write : Option H) (hSize : size ≠ 0) :
    (∀ i < mmioInfoMax, (pool i).size ≠ 0) ∧ mmioRegHandler pool list ipa size read write = ((pool, list), -1) ∨
      ∃ i < mmioInfoMax, (pool i).size = 0 ∧ mmioRegHandler pool list ipa size read write =
        ((Function.update pool i ⟨list, ipa, size, read, write⟩, some i), 0) := by
  rw [mmioRegHandler, if_neg hSize, allocMmioInfo]
  cases hFree : firstFree (fun i => (pool i).size == 0) mmioInfoMax with
  | none =>
    refine .inl ⟨fun i hi => ?_, rfl⟩
    have hUsed := List.find?_eq_none.mp hFree i (List.mem_range.mpr hi)
    simpa using hUsed
  | some i =>
    refine .inr ⟨i, List.mem_range.mp (List.mem_of_find?_eq_some hFree), by simpa using List.find?_some hFree, ?_⟩
    simp only [Function.update_self, Function.update_idem]

theorem mmioRegHandler_ok {pool pool' : Nat → MmioInfo H} {list list' : Option Nat} {ipa size : Nat}
    {read write : Option H} {ret : Int} (hRet : ¬ret < 0)
    (h : mmioRegHandler pool list ipa size read write = ((pool', list'), ret)) :
    ∃ i, (pool i).size = 0 ∧ list' = some i ∧
      pool' = Function.update pool i ⟨list, ipa, size, read, write⟩ := by
  by_cases hSize : size = 0
  · rw [mmioRegHandler, if_pos hSize] at h
    cases h
    exact False.elim (hRet (by decide))
  · rcases mmioRegHandler_cases pool list ipa read write hSize with ⟨_, hCall⟩ | ⟨i, _, hFree, hCall⟩ <;>
      rw [hCall] at h <;> cases h
    · exact False.elim (hRet (by decide))
    · exact ⟨i, hFree, rfl, rfl⟩

end
end HyperPoc
