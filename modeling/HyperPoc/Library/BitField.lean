import Mathlib.Data.Nat.Bitwise
import Mathlib.Tactic.Common

/-! # Bit fields and single bits

Machine words are natural numbers here. Masks and disjoint disjunctions of fields are turned
into quotients, remainders and sums, so that the users of a word format reason by `omega`. Bitmaps
are bit vectors, and setting, clearing and testing one bit are turned into statements about bits.
-/
namespace Library.BitField
set_option autoImplicit false

theorem and_field (n k w : Nat) : n &&& ((2 ^ w - 1) * 2 ^ k) = n / 2 ^ k % 2 ^ w * 2 ^ k := by
  apply Nat.eq_of_testBit_eq
  intro i
  rw [Nat.testBit_and, Nat.testBit_mul_two_pow, Nat.testBit_mul_two_pow, Nat.testBit_two_pow_sub_one,
    Nat.testBit_mod_two_pow, Nat.testBit_div_two_pow]
  by_cases hi : k ≤ i
  · have hEq : i - k + k = i := Nat.sub_add_cancel hi
    rw [hEq]
    simp [hi, Bool.and_comm]
  · simp [hi]

theorem and_bit (n k : Nat) : n &&& 2 ^ k = n / 2 ^ k % 2 * 2 ^ k := by
  have h := and_field n k 1
  simpa using h

theorem and_bit_ne_zero (n k : Nat) : n &&& 2 ^ k ≠ 0 ↔ n / 2 ^ k % 2 = 1 := by
  rw [and_bit]
  have hPos : 0 < 2 ^ k := Nat.pow_pos (by decide)
  have hMod := Nat.mod_two_eq_zero_or_one (n / 2 ^ k)
  constructor
  · intro h
    rcases hMod with hZero | hOne
    · rw [hZero] at h
      simp at h
    · exact hOne
  · intro h
    rw [h]
    omega

/-- Fields that do not overlap are joined by addition. -/
theorem or_eq_add (a b k : Nat) (hb : b < 2 ^ k) : a * 2 ^ k ||| b = a * 2 ^ k + b := by
  rw [Nat.mul_comm a]
  exact (Nat.two_pow_add_eq_or_of_lt hb a).symm

section
variable {w : Nat}

theorem getLsbD_oneBit (i j : Nat) (hi : i < w) : (1#w <<< j).getLsbD i = decide (i = j) := by
  rw [BitVec.getLsbD_shiftLeft, BitVec.getLsbD_one]
  by_cases h : i = j
  · simp [h]
    omega
  · by_cases hLt : i < j
    · simp [h, hLt]
    · simp [h, hLt, hi]
      omega

theorem getLsbD_set (x : BitVec w) (i j : Nat) (hi : i < w) :
    (x ||| (1#w <<< j)).getLsbD i = (decide (i = j) || x.getLsbD i) := by
  rw [BitVec.getLsbD_or, getLsbD_oneBit i j hi, Bool.or_comm]

theorem getLsbD_clear (x : BitVec w) (i j : Nat) (hi : i < w) :
    (x &&& ~~~(1#w <<< j)).getLsbD i = (!decide (i = j) && x.getLsbD i) := by
  rw [BitVec.getLsbD_and, BitVec.getLsbD_not, getLsbD_oneBit i j hi, Bool.and_comm]
  simp [hi]

theorem and_oneBit_ne_zero (x : BitVec w) (i : Nat) :
    (x &&& (1#w <<< i) ≠ 0#w) ↔ x.getLsbD i = true := by
  constructor
  · intro hNe
    by_contra hBit
    rw [Bool.not_eq_true] at hBit
    apply hNe
    apply BitVec.eq_of_getLsbD_eq
    intro j hj
    rw [BitVec.getLsbD_and, getLsbD_oneBit j i hj, BitVec.getLsbD_zero]
    by_cases h : j = i
    · rw [h]
      simp [hBit]
    · simp [h]
  · intro hBit hZero
    have hLt := BitVec.lt_of_getLsbD hBit
    have hAnd : (x &&& (1#w <<< i)).getLsbD i = true := by
      rw [BitVec.getLsbD_and, getLsbD_oneBit i i hLt, hBit]
      simp
    rw [hZero, BitVec.getLsbD_zero] at hAnd
    cases hAnd

end

end Library.BitField
