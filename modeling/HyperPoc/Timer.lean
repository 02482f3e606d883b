import HyperPoc.Basic
import HyperPoc.Library.LongDivision

/-! # Counts and nanoseconds

`muldiv64` multiplies a 64-bit number by a 32-bit one and divides by another through two 64-bit partial
products. The arithmetic is written once over the rule for results of 64-bit operations: the machine
wraps them, and the checked rule refuses what does not fit. No rule divides by zero.
-/
namespace HyperPoc.Timer
open Library.LongDivision
set_option autoImplicit false

def u32 (n : Nat) : Nat := n % 2 ^ 32

/-- The members `l.low` and `l.high` of the union. -/
def lowHalf (ll : Nat) : Nat := ll % 2 ^ 32

def highHalf (ll : Nat) : Nat := ll / 2 ^ 32 % 2 ^ 32

def joinHalves (low high : Nat) : Nat := high * 2 ^ 32 + low

def quotient (n c : Nat) : Option Nat := if c = 0 then none else some (n / c)

def remainder (n c : Nat) : Option Nat := if c = 0 then none else some (n % c)

section
variable (fit : Nat → Option Nat)

def doMuldiv64With (a b c : Nat) : Option Nat := do
  let rl ← fit (lowHalf a * b)
  let rh ← fit (highHalf a * b)
  let rh ← fit (rh + rl >>> 32)
  let high ← quotient rh c
  let rest ← remainder rh c
  let rh ← fit (rest <<< 32)
  let rl := rl &&& 0xffffffff
  let sum ← fit (rh + rl)
  let low ← quotient sum c
  return joinHalves (u32 low) (u32 high)

def muldiv64With (a b c : Nat) : Option Nat := if c ≠ 0 then doMuldiv64With fit a b c else some 0

end

def wraps (n : Nat) : Option Nat := some (u64 n)

def checks (n : Nat) : Option Nat := if n < 2 ^ 64 then some n else none

def muldiv64 : Nat → Nat → Nat → Option Nat := muldiv64With wraps

def nsPerSecond : Nat := 1000000000

/-- `freq_init`: the frequency is what the counter's register holds in its lower half. -/
def freqInit (cntfrq : Nat) : Nat := cntfrq &&& 0xffffffff

def nstimeToCount (gFreq nstime : Nat) : Option Nat := muldiv64 nstime (u32 gFreq) nsPerSecond

def countToTimeNs (gFreq count : Nat) : Option Nat := muldiv64 count nsPerSecond (u32 gFreq)

theorem joinHalves_mod {low high : Nat} (hLow : low < 2 ^ 32) :
    joinHalves (u32 low) (u32 high) = (high * 2 ^ 32 + low) % 2 ^ 64 := by
  rw [joinHalves, u32, u32]
  omega

section
variable {fit : Nat → Option Nat} {a b c : Nat}

/-- Every result fits, so that the rule for those that do not is never used. -/
theorem doMuldiv64With_eq (hFit : ∀ n < 2 ^ 64, fit n = some n) (ha : a < 2 ^ 64) (hb : b < 2 ^ 32) (hPos : 0 < c)
    (hc : c < 2 ^ 32) : doMuldiv64With fit a b c = some (a * b / c % 2 ^ 64) := by
  have hLow : lowHalf a < 2 ^ 32 := Nat.mod_lt _ (by decide)
  have hHigh : highHalf a < 2 ^ 32 := Nat.mod_lt _ (by decide)
  have hHalves : a = highHalf a * 2 ^ 32 + lowHalf a := by
    rw [highHalf, lowHalf]
    omega
  rw [doMuldiv64With]
  generalize lowHalf a = low at *
  generalize highHalf a = high at *
  have hLowBound := product_lt hLow hb
  have hHighBound := product_lt hHigh hb
  have hCarry : low * b / 2 ^ 32 ≤ b := Nat.div_le_of_le_mul (Nat.mul_le_mul_right b (Nat.le_of_lt hLow))
  have hProduct : a * b = (high * b + low * b / 2 ^ 32) * 2 ^ 32 + low * b % 2 ^ 32 := by
    rw [hHalves, Nat.add_mul, Nat.mul_right_comm]
    omega
  have hRest : (high * b + low * b / 2 ^ 32) % c < c := Nat.mod_lt _ hPos
  have hDigit : low * b % 2 ^ 32 < 2 ^ 32 := Nat.mod_lt _ (by decide)
  have hSum : (high * b + low * b / 2 ^ 32) % c * 2 ^ 32 + low * b % 2 ^ 32 < 2 ^ 64 :=
    Nat.lt_of_lt_of_le (carried_lt hRest hDigit) (Nat.mul_le_mul_right (2 ^ 32) (Nat.le_of_lt hc))
  have hShift : (high * b + low * b / 2 ^ 32) % c * 2 ^ 32 < 2 ^ 64 := Nat.lt_of_le_of_lt (Nat.le_add_right _ _) hSum
  have hMask : low * b &&& 0xffffffff = low * b % 2 ^ 32 := Nat.and_two_pow_sub_one_eq_mod _ 32
  have hQuotient : ∀ n, quotient n c = some (n / c) := fun n => if_neg (by omega)
  have hRemainder : remainder (high * b + low * b / 2 ^ 32) c = some ((high * b + low * b / 2 ^ 32) % c) :=
    if_neg (by omega)
  rw [hProduct, div_digits _ _ _ hPos, ← joinHalves_mod (digit_lt hRest hDigit), hFit (low * b) (by omega),
    hFit (high * b) (by omega)]
  simp only [Option.bind_eq_bind, Option.bind_some, Nat.shiftRight_eq_div_pow, Nat.shiftLeft_eq, hMask]
  rw [hFit (high * b + low * b / 2 ^ 32) (by omega)]
  simp only [Option.bind_some, hQuotient, hRemainder]
  rw [hFit _ hShift, Option.bind_some, hFit _ hSum]
  rfl

theorem muldiv64With_eq (hFit : ∀ n < 2 ^ 64, fit n = some n) (ha : a < 2 ^ 64) (hb : b < 2 ^ 32) (hPos : c ≠ 0)
    (hc : c < 2 ^ 32) : muldiv64With fit a b c = some (a * b / c % 2 ^ 64) := by
  rw [muldiv64With, if_pos hPos]
  exact doMuldiv64With_eq hFit ha hb (Nat.pos_of_ne_zero hPos) hc

end

theorem wraps_of_lt (n : Nat) (h : n < 2 ^ 64) : wraps n = some n := by rw [wraps, u64_of_lt h]

theorem checks_of_lt (n : Nat) (h : n < 2 ^ 64) : checks n = some n := if_pos h

/-- The result is the quotient of the full product, no 64-bit result on the way is too large, and a divisor
of 0 gives 0 without a division. -/
theorem muldiv64_exact (a b c : Nat) (ha : a < 2 ^ 64) (hb : b < 2 ^ 32) (hc : c < 2 ^ 32) :
    (c ≠ 0 → muldiv64 a b c = some (a * b / c % 2 ^ 64) ∧
      muldiv64With checks a b c = some (a * b / c % 2 ^ 64)) ∧
      muldiv64 a b 0 = some 0 ∧ muldiv64With checks a b 0 = some 0 := by
  exact ⟨fun hPos => ⟨muldiv64With_eq wraps_of_lt ha hb hPos hc, muldiv64With_eq checks_of_lt ha hb hPos hc⟩,
    rfl, rfl⟩

/-- The largest operands. -/
theorem muldiv64_exact_largest :
    muldiv64With checks (2 ^ 64 - 1) (2 ^ 32 - 1) (2 ^ 32 - 1) = some
      ((2 ^ 64 - 1) * (2 ^ 32 - 1) / (2 ^ 32 - 1) % 2 ^ 64) :=
  ((muldiv64_exact (2 ^ 64 - 1) (2 ^ 32 - 1) (2 ^ 32 - 1) (by decide) (by decide) (by decide)).1 (by decide)).2

/-- The count's time in nanoseconds is a 64-bit number. -/
def Representable (gFreq count : Nat) : Prop := count < 2 ^ 64 ∧ count * nsPerSecond / gFreq < 2 ^ 64

structure NearlyInverse (gFreq : Nat) : Prop where
  monotone : ∀ c₁ c₂, c₁ ≤ c₂ → Representable gFreq c₁ → Representable gFreq c₂ →
    ∃ t₁ t₂, countToTimeNs gFreq c₁ = some t₁ ∧ countToTimeNs gFreq c₂ = some t₂ ∧ t₁ ≤ t₂
  roundTrip : ∀ c, Representable gFreq c → ∃ t c', countToTimeNs gFreq c = some t ∧
    nstimeToCount gFreq t = some c' ∧
    (c' = c ∨ c' + 1 = c) ∧ (gFreq ∣ nsPerSecond → c' = c)

section
variable {gFreq c t : Nat}

theorem countToTimeNs_eq (hPos : 1 ≤ gFreq) (hMax : gFreq ≤ nsPerSecond) (h : Representable gFreq c) :
    countToTimeNs gFreq c = some (c * nsPerSecond / gFreq) := by
  rw [nsPerSecond] at hMax
  have hFreq : u32 gFreq = gFreq := Nat.mod_eq_of_lt (by omega)
  rw [countToTimeNs, hFreq, muldiv64, muldiv64With_eq wraps_of_lt h.1 (by decide) (by omega) (by omega),
    Nat.mod_eq_of_lt h.2]

theorem nstimeToCount_eq (hMax : gFreq ≤ nsPerSecond) (ht : t < 2 ^ 64) (hFits : t * gFreq / nsPerSecond < 2 ^ 64) :
    nstimeToCount gFreq t = some (t * gFreq / nsPerSecond) := by
  rw [nsPerSecond] at hMax
  have hFreq : u32 gFreq = gFreq := Nat.mod_eq_of_lt (by omega)
  rw [nstimeToCount, hFreq, muldiv64, muldiv64With_eq wraps_of_lt ht (by omega) (by decide) (by decide),
    Nat.mod_eq_of_lt hFits]

end

theorem conversions_nearlyInverse (gFreq : Nat) (hPos : 1 ≤ gFreq) (hMax : gFreq ≤ nsPerSecond) :
    NearlyInverse gFreq := by
  refine ⟨fun c₁ c₂ hLe h₁ h₂ => ?_, fun c h => ?_⟩
  · refine ⟨_, _, countToTimeNs_eq hPos hMax h₁, countToTimeNs_eq hPos hMax h₂, ?_⟩
    exact Nat.div_le_div_right (Nat.mul_le_mul_right nsPerSecond hLe)
  · have hNs : 0 < nsPerSecond := by decide
    have hLe : c * nsPerSecond / gFreq * gFreq / nsPerSecond ≤ c := rescale_le hNs
    have hGe : c ≤ c * nsPerSecond / gFreq * gFreq / nsPerSecond + 1 := le_rescale hPos hMax
    have hBack := nstimeToCount_eq hMax h.2 (Nat.lt_of_le_of_lt hLe h.1)
    exact ⟨_, _, countToTimeNs_eq hPos hMax h, hBack, by omega, rescale_of_dvd hNs⟩

/-- The counter of the emulated board runs at 62.5 MHz. -/
theorem conversions_nearlyInverse_board : NearlyInverse (freqInit 62500000) :=
  conversions_nearlyInverse (freqInit 62500000) (by decide) (by decide)

end HyperPoc.Timer
