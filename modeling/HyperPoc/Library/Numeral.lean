import Mathlib.Data.Nat.Digits.Lemmas

/-! # Positional numerals

A numeral is written with its most significant digit first. It has at least one digit and starts with 0
only if it is 0.
-/
namespace Library.Numeral
set_option autoImplicit false

structure IsNumeral (b n : Nat) (ds : List Nat) : Prop where
  nonempty : ds ≠ []
  digit_lt : ∀ d ∈ ds, d < b
  noLeadingZero : ds.head? = some 0 → ds = [0]
  value : Nat.ofDigits b ds.reverse = n

def numeral (b n : Nat) : List Nat := if n = 0 then [0] else (Nat.digits b n).reverse

section
variable {b n : Nat}

theorem numeral_of_lt (h : n < b) : numeral b n = [n] := by
  rw [numeral]
  split
  · rename_i hZero
    rw [hZero]
  · rename_i hPos
    rw [Nat.digits_of_lt b n hPos h]
    rfl

/-- The last digit is the remainder and those before it are the numeral of the quotient. -/
theorem numeral_of_le (hb : 1 < b) (h : b ≤ n) : numeral b n = numeral b (n / b) ++ [n % b] := by
  have hQuotient : n / b ≠ 0 := Nat.div_ne_zero_iff.mpr ⟨by omega, h⟩
  rw [numeral, numeral, if_neg (by omega), if_neg hQuotient, Nat.digits_def' hb (by omega), List.reverse_cons]

theorem isNumeral_numeral (hb : 1 < b) : IsNumeral b n (numeral b n) := by
  rw [numeral]
  split
  · rename_i hZero
    refine ⟨List.cons_ne_nil 0 [], ?_, fun _ => rfl, ?_⟩
    · intro d hd
      rw [List.mem_singleton.mp hd]
      omega
    · rw [hZero]
      rfl
  · rename_i hPos
    have hDigits : Nat.digits b n ≠ [] := Nat.digits_ne_nil_iff_ne_zero.mpr hPos
    refine ⟨?_, ?_, ?_, ?_⟩
    · rwa [Ne, List.reverse_eq_nil_iff]
    · intro d hd
      exact Nat.digits_lt_base hb (List.mem_reverse.mp hd)
    · -- the first digit is the last one `Nat.digits` gives
      intro hZero
      rw [List.head?_reverse, List.getLast?_eq_some_getLast hDigits] at hZero
      exact absurd (Option.some.inj hZero) (Nat.getLast_digit_ne_zero b hPos)
    · rw [List.reverse_reverse, Nat.ofDigits_digits]

theorem length_numeral_le {k : Nat} (hb : 1 < b) (hk : 0 < k) (h : n < b ^ k) : (numeral b n).length ≤ k := by
  rw [numeral]
  split
  · exact hk
  · rw [List.length_reverse]
    exact (Nat.digits_length_le_iff hb n).mpr h

end

end Library.Numeral
