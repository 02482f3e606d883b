import Mathlib.Data.Nat.Bitwise
import Mathlib.Tactic.Common

/-! # Words packed by a loop

A loop that starts from 0 and joins one term a round by disjunction packs a family of terms into a
word. Bits and bytes of the word are those of the terms, and the word is as narrow as its widest term.
-/
namespace Library.Packing
set_option autoImplicit false

def orUpTo (f : Nat → Nat) : Nat → Nat
  | 0 => 0
  | n + 1 => orUpTo f n ||| f n

theorem testBit_orUpTo (f : Nat → Nat) (n j : Nat) :
    (orUpTo f n).testBit j = true ↔ ∃ i, i < n ∧ (f i).testBit j = true := by
  induction n with
  | zero => simp [orUpTo]
  | succ n ih =>
    rw [orUpTo, Nat.testBit_or, Bool.or_eq_true, ih]
    constructor
    · rintro (⟨i, hi, hBit⟩ | hBit)
      · exact ⟨i, by omega, hBit⟩
      · exact ⟨n, by omega, hBit⟩
    · rintro ⟨i, hi, hBit⟩
      obtain rfl | hNe := eq_or_ne i n
      · exact .inr hBit
      · exact .inl ⟨i, by omega, hBit⟩

theorem foldl_or (f : Nat → Nat) (n : Nat) : (List.range n).foldl (fun v i => v ||| f i) 0 = orUpTo f n := by
  induction n with
  | zero => rfl
  | succ n ih => rw [List.range_succ, List.foldl_append, ih, List.foldl_cons, List.foldl_nil, orUpTo]

theorem orUpTo_congr {f g : Nat → Nat} {n : Nat} (h : ∀ i, i < n → f i = g i) : orUpTo f n = orUpTo g n := by
  induction n with
  | zero => rfl
  | succ n ih => rw [orUpTo, orUpTo, ih (fun i hi => h i (by omega)), h n (by omega)]

/-- Single bits: bit `j` of the word is the flag of term `j`. -/
theorem testBit_orBits (p : Nat → Bool) {n j : Nat} (hj : j < n) :
    (orUpTo (fun i => if p i then 2 ^ i else 0) n).testBit j = p j := by
  rw [Bool.eq_iff_iff, testBit_orUpTo]
  constructor
  · rintro ⟨i, _, hBit⟩
    split at hBit
    · rename_i hp
      rw [Nat.testBit_two_pow] at hBit
      rw [← of_decide_eq_true hBit]
      exact hp
    · rw [Nat.zero_testBit] at hBit
      cases hBit
  · intro hp
    refine ⟨j, hj, ?_⟩
    rw [if_pos hp, Nat.testBit_two_pow_self]

theorem lt_eight_of_testBit {b k : Nat} (hb : b < 256) (hBit : b.testBit k = true) : k < 8 := by
  by_contra hGe
  have hPow : 2 ^ 8 ≤ 2 ^ k := Nat.pow_le_pow_right (by decide) (not_lt.mp hGe)
  rw [Nat.testBit_lt_two_pow (Nat.lt_of_lt_of_le hb hPow)] at hBit
  cases hBit

/-- Bytes: byte `j` of the word is term `j`. -/
theorem byte_orBytes {b : Nat → Nat} (hb : ∀ i, b i < 256) {n j : Nat} (hj : j < n) :
    orUpTo (fun i => b i <<< (8 * i)) n / 256 ^ j % 256 = b j := by
  have hPow : (256 : Nat) ^ j = 2 ^ (8 * j) := by
    rw [Nat.pow_mul]
  apply Nat.eq_of_testBit_eq
  intro k
  rw [hPow, show 256 = 2 ^ 8 from rfl, Nat.testBit_mod_two_pow, Nat.testBit_div_two_pow, Bool.eq_iff_iff,
    Bool.and_eq_true, decide_eq_true_eq, testBit_orUpTo]
  constructor
  · rintro ⟨hk, i, _, hBit⟩
    rw [Nat.testBit_shiftLeft, Bool.and_eq_true, decide_eq_true_eq] at hBit
    obtain ⟨hGe, hBit⟩ := hBit
    have hTop := lt_eight_of_testBit (hb i) hBit
    obtain rfl : i = j := by omega
    rwa [Nat.add_sub_cancel] at hBit
  · intro hBit
    refine ⟨lt_eight_of_testBit (hb j) hBit, j, hj, ?_⟩
    rw [Nat.testBit_shiftLeft, Bool.and_eq_true, decide_eq_true_eq, Nat.add_sub_cancel]
    exact ⟨Nat.le_add_left _ _, hBit⟩

theorem orUpTo_mod (f : Nat → Nat) (n w : Nat) : orUpTo f n % 2 ^ w = orUpTo (fun i => f i % 2 ^ w) n := by
  induction n with
  | zero => simp [orUpTo]
  | succ n ih => rw [orUpTo, orUpTo, Nat.or_mod_two_pow, ih]

theorem shift_byte (v i : Nat) : v >>> (i * 8) &&& 0xff = v / 256 ^ i % 256 := by
  have hPow : (256 : Nat) ^ i = 2 ^ (i * 8) := by
    rw [Nat.mul_comm, Nat.pow_mul]
  rw [Nat.shiftRight_eq_div_pow, hPow]
  exact Nat.and_two_pow_sub_one_eq_mod _ 8

end Library.Packing
