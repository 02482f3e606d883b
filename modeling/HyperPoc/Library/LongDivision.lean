import Mathlib.Algebra.Group.Nat.Defs
import Mathlib.Tactic.Common

/-! # Division in two steps and rescaling

A number of two digits in radix `B` is divided digit by digit: the remainder of the upper digit is
carried into the lower one. Rescaling a count from one rate to another and back loses at most one unit
when the first step goes to the finer rate.
-/
namespace Library.LongDivision
set_option autoImplicit false

theorem div_digits (B h l : Nat) {c : Nat} (hc : 0 < c) : (h * B + l) / c = h / c * B + (h % c * B + l) / c := by
  have hSplit : h * B + l = h % c * B + l + h / c * B * c := by
    calc h * B + l = (c * (h / c) + h % c) * B + l := by rw [Nat.div_add_mod]
      _ = h % c * B + l + h / c * B * c := by
        rw [Nat.add_mul, Nat.mul_comm c, Nat.mul_right_comm (h / c) c B]
        omega
  rw [hSplit, Nat.add_mul_div_right _ _ hc, Nat.add_comm]

theorem carried_lt {B r l c : Nat} (hr : r < c) (hl : l < B) : r * B + l < c * B := by
  calc r * B + l < r * B + B := Nat.add_lt_add_left hl _
    _ = (r + 1) * B := by rw [Nat.add_mul, Nat.one_mul]
    _ ≤ c * B := Nat.mul_le_mul_right B hr

theorem digit_lt {B r l c : Nat} (hr : r < c) (hl : l < B) : (r * B + l) / c < B :=
  Nat.div_lt_of_lt_mul (carried_lt hr hl)

theorem product_lt {B x y : Nat} (hx : x < B) (hy : y < B) : x * y + (x + y) < B * B := by
  have hStep : (x + 1) * (y + 1) ≤ B * B := Nat.mul_le_mul hx hy
  rw [Nat.add_mul, Nat.mul_add, Nat.one_mul, Nat.mul_one] at hStep
  omega

section Rescale
variable {n f c : Nat}

theorem rescale_le (hn : 0 < n) : c * n / f * f / n ≤ c := by
  have hDown : c * n / f * f ≤ c * n := Nat.div_mul_le_self _ _
  have hLe : c * n / f * f / n ≤ c * n / n := Nat.div_le_div_right hDown
  rwa [Nat.mul_div_cancel c hn] at hLe

theorem le_rescale (hf : 0 < f) (hn : f ≤ n) : c ≤ c * n / f * f / n + 1 := by
  have hUp : c * n < c * n / f * f + f := Nat.lt_div_mul_add hf
  have hLt : c < c * n / f * f / n + 2 := by
    by_contra hNot
    have hBound : (c * n / f * f / n + 2) * n ≤ c * n := Nat.mul_le_mul_right n (Nat.not_lt.mp hNot)
    have hFloor : c * n / f * f < c * n / f * f / n * n + n := Nat.lt_div_mul_add (by omega)
    rw [Nat.add_mul] at hBound
    omega
  omega

theorem rescale_of_dvd (hn : 0 < n) (hDvd : f ∣ n) : c * n / f * f / n = c := by
  rw [Nat.div_mul_cancel (Nat.dvd_mul_left_of_dvd hDvd c), Nat.mul_div_cancel c hn]

end Rescale

end Library.LongDivision
