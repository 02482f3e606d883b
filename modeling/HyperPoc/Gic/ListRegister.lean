import HyperPoc.Basic
import HyperPoc.Library.BitField
import HyperPoc.Library.Run

/-! # List registers and their software copy

A vcpu has up to sixteen list registers and a bitmap `used_lr` of those the hypervisor takes to be
occupied. The hardware moves a register from pending to active to inactive on its own; the bitmap
follows only when `vgic_used_lr_update` runs.
-/
namespace HyperPoc.Gic
open Library.BitField Library.Run
set_option autoImplicit false

def lrInactive : Nat := 0
def lrPending : Nat := 1
def lrActive : Nat := 2

def ichLrVintid (n : Nat) : Nat := n &&& 0xffffffff
def ichLrPintid (n : Nat) : Nat := (n &&& 0x1fff) <<< 32
def ichLrGroup (n : Nat) : Nat := (n &&& 1) <<< 60
def ichLrHw : Nat := 1 <<< 61
def ichLrState (n : Nat) : Nat := (n &&& 3) <<< 62

def lrIsInactive (lr : Nat) : Bool := (lr >>> 62) &&& 3 == lrInactive

def gicMakeLr (pirq virq group : Nat) : Nat :=
  ichLrState lrPending ||| ichLrHw ||| ichLrGroup group ||| ichLrPintid pirq ||| ichLrVintid virq

structure Lrs where
  lr : Nat → Nat
  usedLr : BitVec 16

def gicReadLr (s : Lrs) (n : Nat) : Nat := if n < 16 then s.lr n else 0

def gicWriteLr (s : Lrs) (n val : Nat) : Outcome Lrs :=
  if n < 16 then .ok { s with lr := Function.update s.lr n val }
  else .error (.panic "[gic_write_lr]: invalid list register number %d\n")

def testLr (used : BitVec 16) (i : Nat) : Bool := used &&& (1#16 <<< i) != 0

/-- The loop of `vgic_lr_alloc` with `n` registers left; `none` is -1. -/
def lrAllocLoop (used : BitVec 16) : Nat → Nat → BitVec 16 × Option Nat
  | 0, _ => (used, none)
  | n + 1, i => if !testLr used i then (used ||| (1#16 <<< i), some i) else lrAllocLoop used n (i + 1)

def vgicLrAlloc (lrMax : Nat) (used : BitVec 16) : BitVec 16 × Option Nat := lrAllocLoop used lrMax 0

def usedLrLoop (lr : Nat → Nat) : Nat → Nat → BitVec 16 → BitVec 16
  | 0, _, used => used
  | n + 1, i, used =>
    if testLr used i && lrIsInactive (lr i) then usedLrLoop lr n (i + 1) (used &&& ~~~(1#16 <<< i))
    else usedLrLoop lr n (i + 1) used

def vgicUsedLrUpdate (lrMax : Nat) (s : Lrs) : Lrs :=
  { s with usedLr := usedLrLoop (gicReadLr s) lrMax 0 s.usedLr }

def vgicInjectVirq (lrMax : Nat) (s : Lrs) (pirq virq group : Nat) : Outcome (Lrs × Int) :=
  let lrVal := gicMakeLr pirq virq group
  match vgicLrAlloc lrMax s.usedLr with
  | (used, none) => .ok ({ s with usedLr := used }, -1)
  | (used, some n) => do
    let s ← gicWriteLr { s with usedLr := used } n lrVal
    return (s, 0)

def stateOf (lr : Nat) : Nat := lr / 2 ^ 62 % 4
def hwOf (lr : Nat) : Nat := lr / 2 ^ 61 % 2
def groupOf (lr : Nat) : Nat := lr / 2 ^ 60 % 2
def pintidOf (lr : Nat) : Nat := lr / 2 ^ 32 % 2 ^ 13
def vintidOf (lr : Nat) : Nat := lr % 2 ^ 32

def withState (lr state : Nat) : Nat := lr % 2 ^ 62 + state * 2 ^ 62

theorem gicMakeLr_eq (pirq virq group : Nat) : gicMakeLr pirq virq group =
    2 ^ 62 + 2 ^ 61 + group % 2 * 2 ^ 60 + pirq % 2 ^ 13 * 2 ^ 32 + virq % 2 ^ 32 := by
  have hVirq : ichLrVintid virq = virq % 2 ^ 32 := Nat.and_two_pow_sub_one_eq_mod virq 32
  have hPirq : ichLrPintid pirq = pirq % 2 ^ 13 * 2 ^ 32 := by
    have hMask : pirq &&& 0x1fff = pirq % 2 ^ 13 := Nat.and_two_pow_sub_one_eq_mod pirq 13
    unfold ichLrPintid
    rw [hMask, Nat.shiftLeft_eq]
  have hGroup : ichLrGroup group = group % 2 * 2 ^ 60 := by
    have hMask : group &&& 1 = group % 2 := Nat.and_two_pow_sub_one_eq_mod group 1
    unfold ichLrGroup
    rw [hMask, Nat.shiftLeft_eq]
  have hState : ichLrState lrPending ||| ichLrHw = 3 * 2 ^ 61 := by decide
  have hTop : 3 * 2 ^ 61 ||| group % 2 * 2 ^ 60 = (6 + group % 2) * 2 ^ 60 := by
    rw [or_eq_add 3 _ 61 (by omega)]
    omega
  have hMid : (6 + group % 2) * 2 ^ 60 ||| pirq % 2 ^ 13 * 2 ^ 32 =
      ((6 + group % 2) * 2 ^ 28 + pirq % 2 ^ 13) * 2 ^ 32 := by
    rw [or_eq_add _ _ 60 (by omega)]
    omega
  rw [gicMakeLr, hState, hGroup, hTop, hPirq, hMid, hVirq, or_eq_add _ _ 32 (by omega)]
  omega

section
variable (pirq virq group : Nat)

@[simp] theorem stateOf_gicMakeLr : stateOf (gicMakeLr pirq virq group) = lrPending := by
  rw [gicMakeLr_eq, stateOf, lrPending]
  omega

@[simp] theorem hwOf_gicMakeLr : hwOf (gicMakeLr pirq virq group) = 1 := by
  rw [gicMakeLr_eq, hwOf]
  omega

@[simp] theorem groupOf_gicMakeLr : groupOf (gicMakeLr pirq virq group) = group % 2 := by
  rw [gicMakeLr_eq, groupOf]
  omega

@[simp] theorem pintidOf_gicMakeLr : pintidOf (gicMakeLr pirq virq group) = pirq % 2 ^ 13 := by
  rw [gicMakeLr_eq, pintidOf]
  omega

@[simp] theorem vintidOf_gicMakeLr : vintidOf (gicMakeLr pirq virq group) = virq % 2 ^ 32 := by
  rw [gicMakeLr_eq, vintidOf]
  omega

end

section
variable (lr state : Nat)

@[simp] theorem stateOf_withState (hState : state < 4) : stateOf (withState lr state) = state := by
  rw [stateOf, withState]
  omega

@[simp] theorem hwOf_withState : hwOf (withState lr state) = hwOf lr := by
  rw [hwOf, hwOf, withState]
  omega

@[simp] theorem groupOf_withState : groupOf (withState lr state) = groupOf lr := by
  rw [groupOf, groupOf, withState]
  omega

@[simp] theorem pintidOf_withState : pintidOf (withState lr state) = pintidOf lr := by
  rw [pintidOf, pintidOf, withState]
  omega

@[simp] theorem vintidOf_withState : vintidOf (withState lr state) = vintidOf lr := by
  rw [vintidOf, vintidOf, withState]
  omega

end

theorem lrIsInactive_iff (lr : Nat) : lrIsInactive lr = true ↔ stateOf lr = lrInactive := by
  rw [lrIsInactive, beq_iff_eq, Nat.shiftRight_eq_div_pow, stateOf]
  have hMask := Nat.and_two_pow_sub_one_eq_mod (lr / 2 ^ 62) 2
  rw [show (2 : Nat) ^ 2 - 1 = 3 from rfl, show (2 : Nat) ^ 2 = 4 from rfl] at hMask
  rw [hMask]

theorem testLr_eq (used : BitVec 16) (i : Nat) : testLr used i = used.getLsbD i := by
  rw [testLr, Bool.eq_iff_iff, bne_iff_ne]
  exact and_oneBit_ne_zero used i

/-- The search finds the lowest clear bit below the end of the range, or none is clear. -/
theorem lrAllocLoop_cases (used : BitVec 16) (n i : Nat) :
    (∃ k, i ≤ k ∧ k < i + n ∧ used.getLsbD k = false ∧
      (∀ j, i ≤ j → j < k → used.getLsbD j = true) ∧
      lrAllocLoop used n i = (used ||| (1#16 <<< k), some k)) ∨
    ((∀ k, i ≤ k → k < i + n → used.getLsbD k = true) ∧ lrAllocLoop used n i = (used, none)) := by
  induction n generalizing i with
  | zero =>
    right
    exact ⟨fun k hLow hHigh => by omega, rfl⟩
  | succ n ih =>
    rw [lrAllocLoop, testLr_eq]
    cases hBit : used.getLsbD i with
    | false =>
      left
      exact ⟨i, Nat.le_refl i, by omega, hBit, fun j hLow hHigh => by omega, rfl⟩
    | true =>
      have hExtend : ∀ k, i ≤ k → (i + 1 ≤ k → used.getLsbD k = true) → used.getLsbD k = true := by
        intro k hLow hRest
        cases Nat.eq_or_lt_of_le hLow with
        | inl hEq => rw [← hEq, hBit]
        | inr hLt => exact hRest hLt
      obtain ⟨k, hLow, hHigh, hClear, hBelow, hLoop⟩ | ⟨hAll, hLoop⟩ := ih (i + 1)
      · left
        refine ⟨k, by omega, by omega, hClear, fun j hj hjk => hExtend j hj fun h => hBelow j h hjk, ?_⟩
        exact hLoop
      · right
        exact ⟨fun k hk hEnd => hExtend k hk fun h => hAll k h (by omega), hLoop⟩

/-- The update clears exactly the bits of inactive registers in its range. -/
theorem usedLrLoop_eq (lr : Nat → Nat) (n i : Nat) (used : BitVec 16) (k : Nat) :
    (usedLrLoop lr n i used).getLsbD k =
      (used.getLsbD k && !(decide (i ≤ k ∧ k < i + n) && lrIsInactive (lr k))) := by
  induction n generalizing i used with
  | zero =>
    have hNot : ¬(i ≤ k ∧ k < i + 0) := by omega
    rw [usedLrLoop, decide_eq_false hNot, Bool.false_and, Bool.not_false, Bool.and_true]
  | succ n ih =>
    have hRange : decide (i ≤ k ∧ k < i + (n + 1)) =
        (decide (k = i) || decide (i + 1 ≤ k ∧ k < i + 1 + n)) := by
      rw [← Bool.decide_or]
      exact decide_eq_decide.mpr (by omega)
    have hOut : k = i → decide (i + 1 ≤ k ∧ k < i + 1 + n) = false := by
      intro h
      exact decide_eq_false (by omega)
    rw [usedLrLoop, testLr_eq, hRange]
    split
    · rename_i hClear
      rw [ih]
      by_cases hk : k < 16
      · rw [getLsbD_clear used k i hk]
        by_cases h : k = i
        · rw [hOut h]
          simp only [Bool.and_eq_true] at hClear
          simp [h, hClear]
        · simp [h]
      · rw [BitVec.getLsbD_of_ge _ _ (by omega), BitVec.getLsbD_of_ge _ _ (by omega)]
        rfl
    · rename_i hKeep
      rw [ih]
      by_cases h : k = i
      · rw [hOut h]
        simp only [Bool.and_eq_true, not_and, Bool.not_eq_true] at hKeep
        cases hBit : used.getLsbD k with
        | false => rfl
        | true =>
          rw [h] at hBit
          simp [h, hKeep hBit]
      · simp [h]

end HyperPoc.Gic
