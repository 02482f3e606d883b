import HyperPoc.Basic
import HyperPoc.Library.Memory

/-! # Block operations of the C library

The copy loops run over bytes and move their pointers as the source does, upwards when the source
lies above the destination and downwards otherwise.
-/
namespace HyperPoc
open Library.Memory
set_option autoImplicit false

def storeByte (m : Mem) (d : Nat) (c : UInt8) : Mem := fun b => if b = d then c else m b

def copyUp (m : Mem) (d s : Nat) : Nat → Mem
  | 0 => m
  | n + 1 => copyUp (storeByte m d (m s)) (u64 (d + 1)) (u64 (s + 1)) n

/-- `d` and `s` point one past the bytes that are left. -/
def copyDown (m : Mem) (d s : Nat) : Nat → Mem
  | 0 => m
  | n + 1 =>
    let d := u64 (d + minusOne)
    let s := u64 (s + minusOne)
    copyDown (storeByte m d (m s)) d s n

def memmove (m : Mem) (dst src n : Nat) : Mem :=
  if dst < src then copyUp m dst src n else copyDown m (u64 (dst + n)) (u64 (src + n)) n

def memcpy (m : Mem) (dst src n : Nat) : Mem := memmove m dst src n

def memset (m : Mem) (dst : Nat) (c : UInt8) : Nat → Mem
  | 0 => m
  | n + 1 => memset (storeByte m dst c) (u64 (dst + 1)) c n

theorem u64_pred {n : Nat} (h : n + 1 < 2 ^ 64) : u64 (n + 1 + minusOne) = n := by
  rw [u64, minusOne]
  omega

/-- Going up never reads a byte it has written, since the source is ahead. -/
theorem copyUp_eq (m : Mem) (d s n : Nat) (hd : d < s) (hs : s + n ≤ 2 ^ 64) :
    copyUp m d s n = copy m d s n := by
  induction n generalizing m d s with
  | zero =>
    funext b
    rw [copyUp, copy, if_neg (by omega)]
  | succ n ih =>
    cases n with
    | zero =>
      funext b
      rw [copyUp, copyUp, storeByte, copy]
      by_cases hb : b = d
      · rw [if_pos hb, if_pos (by omega), hb, Nat.sub_self, Nat.add_zero]
      · rw [if_neg hb, if_neg (by omega)]
    | succ n =>
      -- the byte stored at `d` lies below all bytes that are still to be read
      rw [copyUp, u64_of_lt (by omega), u64_of_lt (by omega), ih _ _ _ (by omega) (by omega)]
      funext b
      rw [copy, copy]
      by_cases hb : b = d
      · rw [if_neg (by omega), if_pos (by omega), storeByte, if_pos hb, hb, Nat.sub_self, Nat.add_zero]
      · by_cases hIn : d + 1 ≤ b ∧ b < d + 1 + (n + 1)
        · have hAddr : s + 1 + (b - (d + 1)) = s + (b - d) := by omega
          rw [if_pos hIn, if_pos (by omega), storeByte, if_neg (by omega), hAddr]
        · rw [if_neg hIn, if_neg (by omega), storeByte, if_neg hb]

theorem u64_pred_of_end {n : Nat} (h : n < 2 ^ 64) : u64 (u64 (n + 1) + minusOne) = n := by
  rw [u64, u64, minusOne]
  omega

/-- Going down never reads a byte it has written, since the source is not ahead. The range may end with
the address space. -/
theorem copyDown_eq (m : Mem) (d s n : Nat) (hd : s ≤ d) (hs : d + n ≤ 2 ^ 64) :
    copyDown m (u64 (d + n)) (u64 (s + n)) n = copy m d s n := by
  induction n generalizing m with
  | zero =>
    funext b
    rw [copyDown, copy, if_neg (by omega)]
  | succ n ih =>
    have hdPred : u64 (u64 (d + (n + 1)) + minusOne) = u64 (d + n) := by
      rw [u64_of_lt (n := d + n) (by omega)]
      exact u64_pred_of_end (n := d + n) (by omega)
    have hsPred : u64 (u64 (s + (n + 1)) + minusOne) = u64 (s + n) := by
      rw [u64_of_lt (n := s + n) (by omega)]
      exact u64_pred_of_end (n := s + n) (by omega)
    rw [copyDown]
    simp only [hdPred, hsPred]
    rw [ih _ (by omega), u64_of_lt (by omega), u64_of_lt (by omega)]
    funext b
    rw [copy, copy]
    by_cases hb : b = d + n
    · have hAddr : s + (b - d) = s + n := by omega
      rw [if_neg (by omega), if_pos (by omega), storeByte, if_pos hb, hAddr]
    · by_cases hIn : d ≤ b ∧ b < d + n
      · rw [if_pos hIn, if_pos (by omega), storeByte, if_neg (by omega)]
      · rw [if_neg hIn, if_neg (by omega), storeByte, if_neg hb]

theorem memmove_eq (m : Mem) (dst src n : Nat) (hd : dst + n ≤ 2 ^ 64) (hs : src + n ≤ 2 ^ 64) :
    memmove m dst src n = copy m dst src n := by
  rw [memmove]
  split
  · exact copyUp_eq m dst src n (by omega) hs
  · exact copyDown_eq m dst src n (by omega) hd

/-- The copies with what they return: only copies of the pointers have moved. -/
def memmoveCall (m : Mem) (dst src n : Nat) : Mem × Nat := (memmove m dst src n, dst)

def memcpyCall (m : Mem) (dst src n : Nat) : Mem × Nat := memmoveCall m dst src n

structure MovesBytes (m : Mem) (dst src n : Nat) (r : Mem × Nat) : Prop where
  moved : ∀ i < n, r.1 (dst + i) = m (src + i)
  rest : SameOutside m r.1 dst n
  result : r.2 = dst

theorem memmove_moves (m : Mem) (dst src n : Nat) (hDst : dst + n ≤ 2 ^ 64) (hSrc : src + n ≤ 2 ^ 64) :
    MovesBytes m dst src n (memmoveCall m dst src n) ∧ MovesBytes m dst src n (memcpyCall m dst src n) := by
  have hMoves : MovesBytes m dst src n (memmoveCall m dst src n) := by
    rw [memmoveCall, memmove_eq m dst src n hDst hSrc]
    refine ⟨fun i hi => ?_, copy_sameOutside m dst src n, rfl⟩
    change copy m dst src n (dst + i) = m (src + i)
    rw [copy, if_pos (by omega), Nat.add_sub_cancel_left]
  exact ⟨hMoves, hMoves⟩

/-- Four bytes moved up by two, over half of themselves. -/
theorem memmove_moves_overlapping :
    MovesBytes (fun b => UInt8.ofNat b) 0x1002 0x1000 4 (memmoveCall (fun b => UInt8.ofNat b) 0x1002 0x1000 4) :=
  (memmove_moves _ _ _ _ (by decide) (by decide)).1

theorem memset_eq (m : Mem) (dst n : Nat) (c : UInt8) (hd : dst + n < 2 ^ 64) :
    memset m dst c n = fill m dst n c := by
  induction n generalizing m dst with
  | zero =>
    funext b
    rw [memset, fill, if_neg (by omega)]
  | succ n ih =>
    rw [memset, u64_of_lt (by omega), ih _ _ (by omega)]
    funext b
    rw [fill, fill, storeByte]
    by_cases hIn : dst + 1 ≤ b ∧ b < dst + 1 + n
    · rw [if_pos hIn, if_pos (by omega)]
    · by_cases hb : b = dst
      · rw [if_neg hIn, if_pos hb, if_pos (by omega)]
      · rw [if_neg hIn, if_neg hb, if_neg (by omega)]

theorem storeByte_sameOutside {m : Mem} {a n d : Nat} (c : UInt8) (hLow : a ≤ d) (hHigh : d < a + n) :
    SameOutside m (storeByte m d c) a n := by
  intro b hb
  rw [storeByte, if_neg (by omega)]

theorem copyUp_sameOutside {a k : Nat} (m : Mem) (d s n : Nat) (hLow : a ≤ d) (hHigh : d + n ≤ a + k)
    (hBound : a + k < 2 ^ 64) : SameOutside m (copyUp m d s n) a k := by
  induction n generalizing m d s with
  | zero => exact fun _ _ => rfl
  | succ n ih =>
    have hByte : SameOutside m (storeByte m d (m s)) a k := storeByte_sameOutside (m s) hLow (by omega)
    have hRest := ih (storeByte m d (m s)) (u64 (d + 1)) (u64 (s + 1))
    rw [u64_of_lt (by omega)] at hRest
    rw [copyUp, u64_of_lt (n := d + 1) (by omega)]
    exact hByte.trans (hRest (by omega) (by omega))

theorem copyDown_sameOutside {a k : Nat} (m : Mem) (d s n : Nat) (hLow : a ≤ d) (hHigh : d + n ≤ a + k)
    (hBound : a + k < 2 ^ 64) : SameOutside m (copyDown m (d + n) s n) a k := by
  induction n generalizing m s with
  | zero => exact fun _ _ => rfl
  | succ n ih =>
    have hPred : u64 (d + (n + 1) + minusOne) = d + n := u64_pred (n := d + n) (by omega)
    rw [copyDown]
    simp only [hPred]
    exact (storeByte_sameOutside _ (by omega) (by omega)).trans (ih _ _ (by omega))

theorem memcpy_sameOutside (m : Mem) (dst src n : Nat) (hd : dst + n < 2 ^ 64) :
    SameOutside m (memcpy m dst src n) dst n := by
  rw [memcpy, memmove]
  split
  · exact copyUp_sameOutside m dst src n (Nat.le_refl _) (Nat.le_refl _) hd
  · rw [u64_of_lt hd]
    exact copyDown_sameOutside m dst _ n (Nat.le_refl _) (Nat.le_refl _) hd

end HyperPoc
