import Mathlib.Algebra.Group.Nat.Defs
import Mathlib.Tactic.Common

/-! # Byte-addressed memory

A memory is a total map from addresses to bytes. Words are stored little-endian; a block
operation rewrites one contiguous range. Every operation comes with the value it leaves in its
own range and with the statement that it leaves all other bytes alone.
-/
namespace Library.Memory
set_option autoImplicit false

abbrev Mem := Nat → UInt8

def load (m : Mem) (a : Nat) : Nat → Nat
  | 0 => 0
  | n + 1 => (m a).toNat + 256 * load m (a + 1) n

/-- The low `n` bytes of `v` are written at `a`. -/
def store (m : Mem) (a n v : Nat) : Mem := fun b =>
  if a ≤ b ∧ b < a + n then UInt8.ofNat (v / 256 ^ (b - a)) else m b

/-- The `n` bytes at `src` are placed at `dst`, as they were before. -/
def copy (m : Mem) (dst src n : Nat) : Mem := fun b =>
  if dst ≤ b ∧ b < dst + n then m (src + (b - dst)) else m b

def fill (m : Mem) (dst n : Nat) (v : UInt8) : Mem := fun b =>
  if dst ≤ b ∧ b < dst + n then v else m b

def Zero (m : Mem) (a n : Nat) : Prop := ∀ i, i < n → m (a + i) = 0

def SameOutside (m m' : Mem) (a n : Nat) : Prop := ∀ b, b < a ∨ a + n ≤ b → m' b = m b

theorem load_lt (m : Mem) (a n : Nat) : load m a n < 256 ^ n := by
  induction n generalizing a with
  | zero => simp [load]
  | succ n ih =>
    have hByte := (m a).toNat_lt
    have hRest := ih (a + 1)
    rw [load, Nat.pow_succ]
    omega

theorem load_congr {m m' : Mem} {a b n : Nat} (h : ∀ i, i < n → m' (a + i) = m (b + i)) :
    load m' a n = load m b n := by
  induction n generalizing a b with
  | zero => rfl
  | succ n ih =>
    have hHead := h 0 (by omega)
    have hTail : load m' (a + 1) n = load m (b + 1) n := by
      apply ih
      intro i hi
      have hNext := h (i + 1) (by omega)
      rwa [Nat.add_comm i 1, ← Nat.add_assoc, ← Nat.add_assoc] at hNext
    rw [load, load, hTail]
    rw [Nat.add_zero, Nat.add_zero] at hHead
    rw [hHead]

theorem load_zero {m : Mem} {a n : Nat} (h : Zero m a n) : load m a n = 0 := by
  induction n generalizing a with
  | zero => rfl
  | succ n ih =>
    have hHead := h 0 (by omega)
    have hTail : Zero m (a + 1) n := by
      intro i hi
      have hNext := h (i + 1) (by omega)
      rwa [Nat.add_comm i 1, ← Nat.add_assoc] at hNext
    rw [load, ih hTail]
    rw [Nat.add_zero] at hHead
    rw [hHead]
    rfl

theorem load_of_bytes {m : Mem} {a n v : Nat}
    (h : ∀ i, i < n → m (a + i) = UInt8.ofNat (v / 256 ^ i)) : load m a n = v % 256 ^ n := by
  induction n generalizing a v with
  | zero => simp [load, Nat.mod_one]
  | succ n ih =>
    have hHead := h 0 (by omega)
    have hTail : load m (a + 1) n = v / 256 % 256 ^ n := by
      apply ih
      intro i hi
      have hNext := h (i + 1) (by omega)
      rw [Nat.add_comm i 1, ← Nat.add_assoc, Nat.add_comm 1 i, Nat.pow_succ, Nat.mul_comm,
        ← Nat.div_div_eq_div_mul] at hNext
      exact hNext
    have hByte : (m a).toNat = v % 256 := by
      rw [Nat.add_zero, Nat.pow_zero, Nat.div_one] at hHead
      rw [hHead]
      exact UInt8.toNat_ofNat'
    rw [load, hTail, hByte, Nat.pow_succ, Nat.mul_comm (256 ^ n), Nat.mod_mul]

theorem load_store_mod (m : Mem) (a n v : Nat) : load (store m a n v) a n = v % 256 ^ n := by
  apply load_of_bytes
  intro i hi
  rw [store, if_pos (by omega), Nat.add_sub_cancel_left]

theorem load_store {m : Mem} {a n v : Nat} (hv : v < 256 ^ n) : load (store m a n v) a n = v := by
  rw [load_store_mod, Nat.mod_eq_of_lt hv]

theorem byte_load (m : Mem) {a n i : Nat} (hi : i < n) : UInt8.ofNat (load m a n / 256 ^ i) = m (a + i) := by
  induction n generalizing a i with
  | zero => omega
  | succ n ih =>
    have hByte := (m a).toNat_lt
    rw [load]
    cases i with
    | zero =>
      apply UInt8.toNat_inj.mp
      rw [UInt8.toNat_ofNat', Nat.pow_zero, Nat.div_one, show a + 0 = a from rfl]
      omega
    | succ i =>
      have hTail : ((m a).toNat + 256 * load m (a + 1) n) / 256 = load m (a + 1) n := by omega
      rw [Nat.pow_succ', ← Nat.div_div_eq_div_mul, hTail, ih (by omega), Nat.add_right_comm, Nat.add_assoc]

/-- Bit `j` of a word is bit `j % 8` of its byte `j / 8`. -/
theorem testBit_load (m : Mem) {a n j : Nat} (hj : j < 8 * n) :
    (load m a n).testBit j = (m (a + j / 8)).toNat.testBit (j % 8) := by
  have hByte : (m (a + j / 8)).toNat = load m a n / 2 ^ (8 * (j / 8)) % 2 ^ 8 := by
    rw [← byte_load m (show j / 8 < n by omega), UInt8.toNat_ofNat', Nat.pow_mul]
  have hBit : 8 * (j / 8) + j % 8 = j := by omega
  rw [hByte, Nat.testBit_mod_two_pow, Nat.testBit_div_two_pow, Nat.add_comm, hBit]
  simp [Nat.mod_lt]

theorem store_load (m : Mem) (a n : Nat) : store m a n (load m a n) = m := by
  funext b
  rw [store]
  split
  · rw [byte_load m (by omega), Nat.add_sub_cancel' (by omega)]
  · rfl

theorem store_sameOutside (m : Mem) (a n v : Nat) : SameOutside m (store m a n v) a n := by
  intro b hb
  rw [store, if_neg (by omega)]

theorem copy_sameOutside (m : Mem) (dst src n : Nat) : SameOutside m (copy m dst src n) dst n := by
  intro b hb
  rw [copy, if_neg (by omega)]

theorem fill_sameOutside (m : Mem) (dst n : Nat) (v : UInt8) :
    SameOutside m (fill m dst n v) dst n := by
  intro b hb
  rw [fill, if_neg (by omega)]

theorem SameOutside.load_eq {m m' : Mem} {a n b k : Nat} (h : SameOutside m m' a n)
    (hDisjoint : b + k ≤ a ∨ a + n ≤ b) : load m' b k = load m b k := by
  apply load_congr
  intro i hi
  exact h (b + i) (by omega)

theorem SameOutside.zero {m m' : Mem} {a n b k : Nat} (h : SameOutside m m' a n)
    (hDisjoint : b + k ≤ a ∨ a + n ≤ b) (hZero : Zero m b k) : Zero m' b k := by
  intro i hi
  rw [h (b + i) (by omega)]
  exact hZero i hi

theorem SameOutside.trans {m m' m'' : Mem} {a n : Nat} (h : SameOutside m m' a n)
    (h' : SameOutside m' m'' a n) : SameOutside m m'' a n := by
  intro b hb
  rw [h' b hb, h b hb]

theorem SameOutside.mono {m m' : Mem} {a n k : Nat} (h : SameOutside m m' a n) (hLe : n ≤ k) :
    SameOutside m m' a k := by
  intro b hb
  exact h b (by omega)

theorem load_store_of_disjoint {m : Mem} {a n v b k : Nat} (h : b + k ≤ a ∨ a + n ≤ b) :
    load (store m a n v) b k = load m b k :=
  (store_sameOutside m a n v).load_eq h

/-- Stores to ranges that are apart can be exchanged. -/
theorem store_comm (m : Mem) {a n v b k w : Nat} (h : a + n ≤ b ∨ b + k ≤ a) :
    store (store m a n v) b k w = store (store m b k w) a n v := by
  funext c
  simp only [store]
  by_cases ha : a ≤ c ∧ c < a + n
  · rw [if_pos ha, if_neg (by omega), if_pos ha]
  · rw [if_neg ha, if_neg ha]

end Library.Memory
