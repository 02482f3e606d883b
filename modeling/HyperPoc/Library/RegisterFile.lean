import HyperPoc.Library.Memory
import Mathlib.Data.Nat.Bitwise

/-! # Registers in memory

A loop writes the same word to a list of registers whose addresses are apart. Each register of the
list then holds the word, and every word apart from all of them is as before. Reading a word, replacing
one of its bytes and writing it back stores that byte alone.
-/
namespace Library.RegisterFile
open Library.Memory
set_option autoImplicit false

def writeAll (m : Mem) (addr : Nat → Nat) (v : Nat) (regs : List Nat) : Mem :=
  regs.foldl (fun m i => store m (addr i) 4 v) m

theorem writeAll_of_apart {addr : Nat → Nat} {a n : Nat} (m : Mem) (v : Nat) {regs : List Nat}
    (h : ∀ i ∈ regs, a + n ≤ addr i ∨ addr i + 4 ≤ a) : load (writeAll m addr v regs) a n = load m a n := by
  induction regs generalizing m with
  | nil => rfl
  | cons i regs ih =>
    have hRest := ih (store m (addr i) 4 v) fun j hj => h j (List.mem_cons_of_mem _ hj)
    exact hRest.trans (load_store_of_disjoint (h i List.mem_cons_self))

theorem writeAll_of_mem {addr : Nat → Nat}
    (hApart : ∀ i j, i ≠ j → addr i + 4 ≤ addr j ∨ addr j + 4 ≤ addr i) (m : Mem) {v : Nat}
    (hv : v < 2 ^ 32) {regs : List Nat} {i : Nat} (hi : i ∈ regs) :
    load (writeAll m addr v regs) (addr i) 4 = v := by
  induction regs generalizing m with
  | nil => cases hi
  | cons j regs ih =>
    by_cases hRest : i ∈ regs
    · exact ih (store m (addr j) 4 v) hRest
    · obtain rfl : i = j := (List.mem_cons.mp hi).resolve_right hRest
      -- no later round writes to this register
      have hLater : ∀ k ∈ regs, addr i + 4 ≤ addr k ∨ addr k + 4 ≤ addr i :=
        fun k hk => hApart i k fun hEq => hRest (hEq ▸ hk)
      exact (writeAll_of_apart (store m (addr i) 4 v) v hLater).trans (load_store hv)

/-- Byte `i` of a word in which byte `j` has been replaced. -/
theorem byte_replace (w : Nat) {t i j : Nat} (ht : t < 256) (hi : i < 4) (hj : j < 4) :
    (w &&& (0xffffffff ^^^ 0xff <<< (j * 8)) ||| t <<< (j * 8)) / 256 ^ i % 256 =
      if i = j then t else w / 256 ^ i % 256 := by
  have hPow : (256 : Nat) ^ i = 2 ^ (i * 8) := by rw [Nat.mul_comm, Nat.pow_mul]
  have hOnes : ∀ k, (0xffffffff : Nat).testBit k = decide (k < 32) := Nat.testBit_two_pow_sub_one (n := 32)
  have hByte : ∀ k, (0xff : Nat).testBit k = decide (k < 8) := Nat.testBit_two_pow_sub_one (n := 8)
  have hHigh : ∀ k, 8 ≤ k → t.testBit k = false := by
    intro k hk
    apply Nat.testBit_lt_two_pow
    exact Nat.lt_of_lt_of_le ht (Nat.pow_le_pow_right (n := 2) (by decide) hk)
  rw [hPow, show 256 = 2 ^ 8 from rfl]
  apply Nat.eq_of_testBit_eq
  intro k
  rw [Nat.testBit_mod_two_pow, Nat.testBit_div_two_pow, Nat.testBit_or, Nat.testBit_and, Nat.testBit_xor, hOnes,
    Nat.testBit_shiftLeft, Nat.testBit_shiftLeft, hByte]
  split
  · rename_i hij
    subst hij
    by_cases hk : k < 8
    · have hIn : k + i * 8 < 32 := by omega
      simp [hk, hIn]
    · simp [hk, hHigh k (by omega)]
  · rename_i hij
    rw [Nat.testBit_mod_two_pow, Nat.testBit_div_two_pow]
    by_cases hk : k < 8
    · have hIn : k + i * 8 < 32 := by omega
      by_cases hLow : j * 8 ≤ k + i * 8
      · -- the byte lies above the one replaced
        have hFar : ¬k + i * 8 - j * 8 < 8 := by omega
        simp [hk, hIn, hFar, hHigh _ (Nat.not_lt.mp hFar)]
      · simp [hk, hIn, hLow]
    · simp [hk]

theorem store_replace (m : Mem) (a : Nat) {t j : Nat} (ht : t < 256) (hj : j < 4) :
    store m a 4 (load m a 4 &&& (0xffffffff ^^^ 0xff <<< (j * 8)) ||| t <<< (j * 8)) = store m (a + j) 1 t := by
  funext b
  rw [store, store]
  by_cases hIn : a ≤ b ∧ b < a + 4
  · obtain ⟨i, rfl⟩ := Nat.exists_eq_add_of_le hIn.1
    have hi : i < 4 := by omega
    have hByte := byte_replace (load m a 4) ht hi hj
    rw [if_pos hIn, Nat.add_sub_cancel_left]
    apply UInt8.toNat_inj.mp
    rw [UInt8.toNat_ofNat', hByte]
    by_cases hij : i = j
    · subst hij
      rw [if_pos rfl, if_pos (by omega), Nat.sub_self, Nat.pow_zero, Nat.div_one, UInt8.toNat_ofNat',
        Nat.mod_eq_of_lt ht]
    · rw [if_neg hij, if_neg (by omega), ← byte_load m hi, UInt8.toNat_ofNat']
  · rw [if_neg hIn, if_neg (by omega)]

theorem store_empty (m : Mem) (a v : Nat) : store m a 0 v = m := by
  funext b
  rw [store, if_neg (by omega)]

theorem store_byte_mod (m : Mem) (a v : Nat) : store m a 1 (v % 256) = store m a 1 v := by
  funext b
  rw [store, store]
  split
  · rename_i hIn
    rw [show b - a = 0 by omega, Nat.pow_zero, Nat.div_one, Nat.div_one]
    apply UInt8.toNat_inj.mp
    rw [UInt8.toNat_ofNat', UInt8.toNat_ofNat', Nat.mod_mod]
  · rfl

/-- A word is stored byte by byte. -/
theorem store_succ (m : Mem) (a n v : Nat) : store m a (n + 1) v = store (store m a n v) (a + n) 1 (v / 256 ^ n) := by
  funext b
  simp only [store]
  by_cases hLast : b = a + n
  · subst hLast
    rw [if_pos (by omega), if_pos (by omega), Nat.add_sub_cancel_left, Nat.sub_self, Nat.pow_zero, Nat.div_one]
  · rw [if_neg (show ¬(a + n ≤ b ∧ b < a + n + 1) by omega)]
    by_cases hIn : a ≤ b ∧ b < a + n
    · rw [if_pos hIn, if_pos (by omega)]
    · rw [if_neg hIn, if_neg (by omega)]

/-- A store changes only bytes in `P` exactly if each of its bytes that differs from the one before is in `P`. -/
theorem store_changes_iff {P : Nat → Prop} (m : Mem) (a n v : Nat) :
    (∀ x, store m a n v x ≠ m x → P x) ↔ ∀ i, i < n → UInt8.ofNat (v / 256 ^ i) ≠ m (a + i) →
      P (a + i) := by
  constructor
  · intro hAll i hi hNe
    apply hAll
    rwa [store, if_pos ⟨by omega, by omega⟩, Nat.add_sub_cancel_left]
  · intro hBytes x hNe
    rw [store] at hNe
    split at hNe
    · rename_i hIn
      have hByte := hBytes (x - a) (by omega)
      rw [Nat.add_sub_cancel' hIn.1] at hByte
      exact hByte hNe
    · exact absurd rfl hNe

end Library.RegisterFile
