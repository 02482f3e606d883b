import HyperPoc.Gic.ListRegister
import HyperPoc.Timer
import HyperPoc.Trap.Sync

/-! # Waiting for an interrupt

A guest that waits traps, and `wfx_emulate_handler` looks at the list registers of the cpu again and again,
until an interrupt is pending in one of them or its time is over. What it sees comes from outside: the list
registers at each look, and the counter, which runs.
-/
namespace HyperPoc.Trap
open Gic Timer Vgic
set_option autoImplicit false

def wfiPollTimeoutNs : Nat := 10000

def lrIsPending (lr : Nat) : Bool := (lr >>> 62) &&& 3 == lrPending

def pendingLrLoop (s : Lrs) : Nat → Nat → Bool
  | 0, _ => false
  | n + 1, i => if lrIsPending (gicReadLr s i) then true else pendingLrLoop s n (i + 1)

def gicHasPendingLr (lrMax : Nat) (s : Lrs) : Bool := pendingLrLoop s lrMax 0

/-- The list registers at each look, and what `get_syscount` gives before the first look and after each. -/
structure Outside where
  lrs : Nat → Lrs
  count : Nat → Nat

section
variable (lrMax gFreq : Nat) (o : Outside)

/-- The loop from look `k` on, with the look at which it ends. -/
def wfxPollLoop (endTime : Nat) : (fuel k : Nat) → Option Nat
  | 0, _ => none
  | n + 1, k =>
    if gicHasPendingLr lrMax (o.lrs k) then some k
    else do
      let curTime ← countToTimeNs gFreq (o.count (k + 1))
      if curTime < endTime then wfxPollLoop endTime n (k + 1) else some k

def wfxEmulateWait (fuel : Nat) (b : Board) (vcpu : Nat) : Option (Nat × Board × Int) := do
  let time ← countToTimeNs gFreq (o.count 0)
  let k ← wfxPollLoop lrMax gFreq o (u64 (time + wfiPollTimeoutNs)) fuel 0
  return (k, advancePc b vcpu, 0)

end

section
variable {lrMax gFreq : Nat} {o : Outside}

theorem lrIsPending_iff (lr : Nat) : lrIsPending lr = true ↔ stateOf lr = lrPending := by
  have hState : (lr >>> 62) &&& 3 = stateOf lr := by
    rw [Nat.shiftRight_eq_div_pow, stateOf]
    exact Nat.and_two_pow_sub_one_eq_mod _ 2
  rw [lrIsPending, hState, beq_iff_eq]

theorem pendingLrLoop_iff (s : Lrs) (n i : Nat) :
    pendingLrLoop s n i = true ↔ ∃ j, i ≤ j ∧ j < i + n ∧ stateOf (gicReadLr s j) = lrPending := by
  induction n generalizing i with
  | zero =>
    refine iff_of_false Bool.false_ne_true ?_
    rintro ⟨j, hLow, hHigh, _⟩
    omega
  | succ n ih =>
    rw [pendingLrLoop]
    split
    · rename_i hPending
      exact iff_of_true rfl ⟨i, Nat.le_refl i, by omega, (lrIsPending_iff _).mp hPending⟩
    · rename_i hNot
      rw [ih]
      constructor
      · rintro ⟨j, hLow, hHigh, hState⟩
        exact ⟨j, by omega, by omega, hState⟩
      · rintro ⟨j, hLow, hHigh, hState⟩
        have hNe : j ≠ i := by
          rintro rfl
          exact hNot ((lrIsPending_iff _).mpr hState)
        exact ⟨j, by omega, by omega, hState⟩

def Pending (lrMax : Nat) (s : Lrs) : Prop := ∃ i < lrMax, stateOf (gicReadLr s i) = lrPending

theorem gicHasPendingLr_iff (s : Lrs) : gicHasPendingLr lrMax s = true ↔ Pending lrMax s := by
  rw [gicHasPendingLr, pendingLrLoop_iff, Pending]
  simp only [Nat.zero_le, Nat.zero_add, true_and]

def nanoseconds (gFreq count : Nat) : Nat := count * nsPerSecond / gFreq

/-- Look `k` was the last: none before it saw an interrupt or the end of the time. -/
structure EndsAt (lrMax gFreq : Nat) (o : Outside) (k : Nat) : Prop where
  none : ∀ i < k, ¬Pending lrMax (o.lrs i)
  early : ∀ i < k, nanoseconds gFreq (o.count (i + 1)) < nanoseconds gFreq (o.count 0) + wfiPollTimeoutNs
  last : Pending lrMax (o.lrs k) ∨
    nanoseconds gFreq (o.count 0) + wfiPollTimeoutNs ≤ nanoseconds gFreq (o.count (k + 1))

/-- The counter runs, from a time at which the 64 bits are not used up. -/
structure Running (gFreq : Nat) (o : Outside) : Prop where
  slow : 1 ≤ gFreq
  fast : gFreq ≤ nsPerSecond
  runs : ∀ i, o.count i < o.count (i + 1)
  fits : ∀ i ≤ gFreq / 100000 + 1, Representable gFreq (o.count i)
  room : nanoseconds gFreq (o.count 0) + wfiPollTimeoutNs < 2 ^ 64

theorem Running.count_ge (h : Running gFreq o) (i : Nat) : o.count 0 + i ≤ o.count i := by
  induction i with
  | zero => exact Nat.le_refl _
  | succ i ih =>
    have hNext := h.runs i
    omega

theorem Running.bounded (h : Running gFreq o) {i : Nat}
    (hEarly : nanoseconds gFreq (o.count i) < nanoseconds gFreq (o.count 0) + wfiPollTimeoutNs) :
    i ≤ gFreq / 100000 := by
  have hSum : nanoseconds gFreq (o.count 0) + i * nsPerSecond / gFreq ≤ nanoseconds gFreq (o.count i) := by
    calc
      _ ≤ (o.count 0 * nsPerSecond + i * nsPerSecond) / gFreq := Nat.div_add_div_le_add_div
      _ = (o.count 0 + i) * nsPerSecond / gFreq := by rw [Nat.add_mul]
      _ ≤ _ := Nat.div_le_div_right (Nat.mul_le_mul_right _ (h.count_ge i))
  have hShort : i * nsPerSecond / gFreq < wfiPollTimeoutNs := by omega
  rw [Nat.div_lt_iff_lt_mul h.slow, nsPerSecond, wfiPollTimeoutNs] at hShort
  omega

theorem wfxPollLoop_look (lrMax : Nat) (h : Running gFreq o) {k : Nat} (hk : k ≤ gFreq / 100000)
    (endTime fuel : Nat) :
    (Pending lrMax (o.lrs k) ∨ endTime ≤ nanoseconds gFreq (o.count (k + 1))) ∧
        wfxPollLoop lrMax gFreq o endTime (fuel + 1) k = some k ∨
      ¬Pending lrMax (o.lrs k) ∧ nanoseconds gFreq (o.count (k + 1)) < endTime ∧
        wfxPollLoop lrMax gFreq o endTime (fuel + 1) k = wfxPollLoop lrMax gFreq o endTime fuel (k + 1) := by
  have hTime : countToTimeNs gFreq (o.count (k + 1)) = some (nanoseconds gFreq (o.count (k + 1))) :=
    countToTimeNs_eq h.slow h.fast (h.fits (k + 1) (by omega))
  rw [wfxPollLoop, hTime, Option.bind_eq_bind, Option.bind_some]
  split
  · rename_i hPending
    exact .inl ⟨.inl ((gicHasPendingLr_iff _).mp hPending), rfl⟩
  · rename_i hNot
    split
    · rename_i hEarly
      exact .inr ⟨fun hPending => hNot ((gicHasPendingLr_iff _).mpr hPending), hEarly, rfl⟩
    · rename_i hOver
      exact .inl ⟨.inr (Nat.not_lt.mp hOver), rfl⟩

/-- The looks before `k` have been in vain, so that at most `n` more will be. -/
theorem wfxPollLoop_ends (lrMax : Nat) (h : Running gFreq o) (fuel n k : Nat) (hLeft : k + n = gFreq / 100000)
    (hNone : ∀ i < k, ¬Pending lrMax (o.lrs i))
    (hEarly : ∀ i < k, nanoseconds gFreq (o.count (i + 1)) < nanoseconds gFreq (o.count 0) + wfiPollTimeoutNs) :
    ∃ m, wfxPollLoop lrMax gFreq o (nanoseconds gFreq (o.count 0) + wfiPollTimeoutNs) (n + fuel + 1) k = some m ∧
      m ≤ gFreq / 100000 ∧ EndsAt lrMax gFreq o m := by
  induction n generalizing k with
  | zero =>
    obtain ⟨hLast, hLoop⟩ | ⟨_, hTime, _⟩ := wfxPollLoop_look lrMax h (k := k) (by omega)
      (nanoseconds gFreq (o.count 0) + wfiPollTimeoutNs) (0 + fuel)
    · exact ⟨k, hLoop, by omega, hNone, hEarly, hLast⟩
    · have hBound := h.bounded hTime
      omega
  | succ n ih =>
    obtain ⟨hLast, hLoop⟩ | ⟨hNot, hTime, hLoop⟩ := wfxPollLoop_look lrMax h (k := k) (by omega)
      (nanoseconds gFreq (o.count 0) + wfiPollTimeoutNs) (n + 1 + fuel)
    · exact ⟨k, hLoop, by omega, hNone, hEarly, hLast⟩
    · rw [hLoop, Nat.add_right_comm n 1 fuel]
      apply ih (k + 1) (by omega)
      · intro i hi
        obtain hLt | rfl := Nat.lt_succ_iff_lt_or_eq.mp hi
        · exact hNone i hLt
        · exact hNot
      · intro i hi
        obtain hLt | rfl := Nat.lt_succ_iff_lt_or_eq.mp hi
        · exact hEarly i hLt
        · exact hTime

/-- The handler returns after few looks, with the guest behind its instruction. It has waited until an interrupt was
pending or for the whole time. -/
theorem wfx_wait_bounded (lrMax : Nat) (h : Running gFreq o) (b : Board) (vcpu fuel : Nat)
    (hFuel : gFreq / 100000 < fuel) :
    ∃ k, wfxEmulateWait lrMax gFreq o fuel b vcpu = some (k, advancePc b vcpu, 0) ∧
      wfxEmulateHandler b vcpu = .ok (advancePc b vcpu, 0) ∧ k ≤ gFreq / 100000 ∧ EndsAt lrMax gFreq o k ∧
      ((∀ i, o.lrs i = o.lrs 0) → k = 0 ∨
        nanoseconds gFreq (o.count 0) + wfiPollTimeoutNs ≤ nanoseconds gFreq (o.count (k + 1))) := by
  have hTime : countToTimeNs gFreq (o.count 0) = some (nanoseconds gFreq (o.count 0)) :=
    countToTimeNs_eq h.slow h.fast (h.fits 0 (by omega))
  obtain ⟨extra, rfl⟩ : ∃ extra, fuel = gFreq / 100000 + extra + 1 := ⟨fuel - (gFreq / 100000 + 1), by omega⟩
  obtain ⟨k, hLoop, hLe, hEnds⟩ := wfxPollLoop_ends lrMax h extra (gFreq / 100000) 0 (by omega)
    (fun i hi => absurd hi (by omega)) (fun i hi => absurd hi (by omega))
  refine ⟨k, ?_, rfl, hLe, hEnds, ?_⟩
  · rw [wfxEmulateWait, hTime, Option.bind_eq_bind, Option.bind_some, u64_of_lt h.room, hLoop]
    rfl
  · -- nothing has changed since the first look, which saw no interrupt
    intro hSame
    obtain hZero | hPos := Nat.eq_zero_or_pos k
    · exact .inl hZero
    · refine .inr (hEnds.last.resolve_left ?_)
      rw [hSame k]
      exact hEnds.none 0 hPos

/-- Before `freq_init` every count is the time 0, and only an interrupt ends the wait. -/
theorem wfxEmulateWait_no_frequency (hNone : ∀ i, ¬Pending lrMax (o.lrs i)) (b : Board) (vcpu fuel : Nat) :
    wfxEmulateWait lrMax 0 o fuel b vcpu = none := by
  have hLoop : ∀ k, wfxPollLoop lrMax 0 o (u64 (0 + wfiPollTimeoutNs)) fuel k = none := by
    induction fuel with
    | zero => exact fun _ => rfl
    | succ n ih =>
      intro k
      rw [wfxPollLoop, if_neg fun hPending => hNone k ((gicHasPendingLr_iff _).mp hPending)]
      exact ih (k + 1)
  rw [wfxEmulateWait, show countToTimeNs 0 (o.count 0) = some 0 from rfl, Option.bind_eq_bind, Option.bind_some, hLoop]
  rfl

end

def quietOutside : Outside := ⟨fun _ => ⟨fun _ => 0, 0⟩, fun i => 100 * i⟩

theorem quietOutside_running : Running 62500000 quietOutside := by
  refine ⟨by decide, by decide, fun i => ?_, fun i hi => ⟨?_, ?_⟩, by decide⟩
  · change 100 * i < 100 * (i + 1)
    omega
  · change 100 * i < 2 ^ 64
    omega
  · change 100 * i * 1000000000 / 62500000 < 2 ^ 64
    omega

theorem wfx_wait_bounded_quiet : ∃ k, wfxEmulateWait 4 62500000 quietOutside 626 smallBoard 0 = some
    (k, advancePc smallBoard 0, 0) ∧
    k ≤ 625 ∧ 10000 ≤ nanoseconds 62500000 (quietOutside.count (k + 1)) := by
  obtain ⟨k, hWait, _, hLe, hEnds, _⟩ := wfx_wait_bounded 4 quietOutside_running smallBoard 0 626 (by decide)
  refine ⟨k, hWait, hLe, hEnds.last.resolve_left ?_⟩
  rintro ⟨i, _, hState⟩
  have hZero : gicReadLr (quietOutside.lrs k) i = 0 := ite_self 0
  rw [hZero] at hState
  exact absurd hState (by decide)

end HyperPoc.Trap
