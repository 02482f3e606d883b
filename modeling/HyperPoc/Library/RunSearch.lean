import Mathlib.Tactic.Common

/-! # Searching for a run of free cells

A scan over cells counts the free cells it has just seen, starts again from 0 at a used one, and stops
when the count reaches what is needed. It finds the first run of that length.
-/
namespace Library.RunSearch
set_option autoImplicit false

/-- The `n` cells from `s` on are free. -/
def FreeRun (free : Nat → Bool) (s n : Nat) : Prop := ∀ k, s ≤ k → k < s + n → free k = true

/-- `n` cells are left from `p` on, and `cnt` free ones have just been seen. The result is the start of
the run, or the count at the end. -/
def scan (free : Nat → Bool) (need : Nat) : Nat → Nat → Nat → Nat ⊕ Nat
  | 0, _, cnt => .inr cnt
  | n + 1, p, cnt =>
    if free p then
      if need ≤ cnt + 1 then .inl (p - cnt) else scan free need n (p + 1) (cnt + 1)
    else scan free need n (p + 1) 0

/-- The first run of length `need` starts at `s`. -/
structure FirstRun (free : Nat → Bool) (need s : Nat) : Prop where
  run : FreeRun free s need
  first : ∀ q, q < s → ¬FreeRun free q need

/-- What the scan knows at cell `p`: it counts the free cells behind the last used one. -/
structure Scanned (free : Nat → Bool) (need p cnt : Nat) : Prop where
  lt : cnt < need
  le : cnt ≤ p
  run : FreeRun free (p - cnt) cnt
  edge : cnt < p → free (p - cnt - 1) = false
  none : ∀ q, q + need ≤ p → ¬FreeRun free q need

section
variable {free : Nat → Bool} {need p cnt : Nat}

theorem FreeRun.mono {s n s' n' : Nat} (h : FreeRun free s n) (hLow : s ≤ s') (hHigh : s' + n' ≤ s + n) :
    FreeRun free s' n' := by
  intro k hk hkn
  exact h k (by omega) (by omega)

theorem freeRun_add {s m n : Nat} : FreeRun free s (m + n) ↔ FreeRun free s m ∧ FreeRun free (s + m) n := by
  constructor
  · intro h
    exact ⟨h.mono (by omega) (by omega), h.mono (by omega) (by omega)⟩
  · rintro ⟨hFirst, hRest⟩ k hk hkn
    obtain hLt | hGe := Nat.lt_or_ge k (s + m)
    · exact hFirst k hk hLt
    · exact hRest k hGe (by omega)

theorem FreeRun.not_mem {s n k : Nat} (h : FreeRun free s n) (hk : free k = false) : k < s ∨ s + n ≤ k := by
  by_contra hIn
  have hFree := h k (by omega) (by omega)
  simp [hk] at hFree

theorem scanned_start (hNeed : 0 < need) : Scanned free need 0 0 where
  lt := hNeed
  le := Nat.le_refl 0
  run := fun k _ hk => by omega
  edge := fun h => by omega
  none := fun q hq => by omega

theorem Scanned.start_le (h : Scanned free need p cnt) {q n : Nat} (hRun : FreeRun free q n) (hEnd : p ≤ q + n) :
    p - cnt ≤ q := by
  obtain hLt | hGe := Nat.lt_or_ge cnt p
  · have hOut := hRun.not_mem (h.edge hLt)
    omega
  · omega

theorem Scanned.used (h : Scanned free need p cnt) (hUsed : free p = false) : Scanned free need (p + 1) 0 where
  lt := Nat.zero_lt_of_lt h.lt
  le := Nat.zero_le _
  run := fun k _ hk => by omega
  edge := fun _ => hUsed
  none := by
    intro q hq hRun
    obtain hLe | hGt := Nat.lt_or_ge p (q + need)
    · have hOut := hRun.not_mem hUsed
      have hNeed := h.lt
      omega
    · exact h.none q hGt hRun

theorem Scanned.longer (h : Scanned free need p cnt) (hFree : free p = true) : FreeRun free (p - cnt) (cnt + 1) := by
  intro k hk hkn
  have hLe := h.le
  obtain hLt | hGe := Nat.lt_or_ge k p
  · exact h.run k hk (by omega)
  · rw [show k = p by omega]
    exact hFree

theorem Scanned.count (h : Scanned free need p cnt) (hFree : free p = true) (hShort : cnt + 1 < need) :
    Scanned free need (p + 1) (cnt + 1) where
  lt := hShort
  le := Nat.succ_le_succ h.le
  run := by
    rw [Nat.add_sub_add_right]
    exact h.longer hFree
  edge := by
    intro hLt
    rw [Nat.add_sub_add_right]
    exact h.edge (by omega)
  none := by
    intro q hq hRun
    obtain hLe | hGt := Nat.lt_or_ge p (q + need)
    · have hStart := h.start_le hRun (by omega)
      omega
    · exact h.none q hGt hRun

theorem Scanned.found (h : Scanned free need p cnt) (hFree : free p = true) (hLong : need ≤ cnt + 1) :
    FirstRun free need (p - cnt) := by
  have hLt := h.lt
  have hLe := h.le
  obtain rfl : need = cnt + 1 := by omega
  refine ⟨h.longer hFree, ?_⟩
  intro q hq hRun
  obtain hEnd | hBefore := Nat.lt_or_ge p (q + (cnt + 1))
  · have hStart := h.start_le hRun (by omega)
    omega
  · exact h.none q hBefore hRun

theorem scan_add (free : Nat → Bool) (need m n p cnt : Nat) : scan free need (m + n) p cnt =
    match scan free need m p cnt with
    | .inl s => .inl s
    | .inr c => scan free need n (p + m) c := by
  induction m generalizing p cnt with
  | zero => simp [scan]
  | succ m ih =>
    have hCount : m + 1 + n = m + n + 1 := by omega
    have hEnd : p + (m + 1) = p + 1 + m := by omega
    rw [hCount, hEnd, scan, scan]
    split
    · split
      · rfl
      · exact ih (p + 1) (cnt + 1)
    · exact ih (p + 1) 0

/-- The scan stops at the first run, or knows at the end that there is none. -/
theorem Scanned.scan (h : Scanned free need p cnt) (n : Nat) :
    (∃ s, RunSearch.scan free need n p cnt = .inl s ∧ FirstRun free need s ∧ s + need ≤ p + n) ∨
    (∃ c, RunSearch.scan free need n p cnt = .inr c ∧ Scanned free need (p + n) c) := by
  induction n generalizing p cnt with
  | zero => exact .inr ⟨cnt, rfl, h⟩
  | succ n ih =>
    have hEnd : p + (n + 1) = p + 1 + n := by omega
    rw [RunSearch.scan, hEnd]
    cases hCell : free p with
    | false =>
      simp only [Bool.false_eq_true, if_false]
      exact ih (h.used hCell)
    | true =>
      simp only [if_true]
      split
      · rename_i hLong
        have hLt := h.lt
        have hLe := h.le
        exact .inl ⟨p - cnt, rfl, h.found hCell hLong, by omega⟩
      · rename_i hShort
        exact ih (h.count hCell (by omega))

end

end Library.RunSearch
