import HyperPoc.Gic.Injection

/-! # From the physical interrupt controller to the guest

The hypervisor runs with EOImode 1: reading `ICC_IAR1_EL1` makes an interrupt active, the write to
`ICC_EOIR1_EL1` only drops the running priority, and the interrupt stays active until the guest
deactivates the list register that carries it. An active interrupt is not delivered again.
-/
namespace HyperPoc.Gic
open Library.BitField Library.Run
set_option autoImplicit false

/-- The physical controller: interrupts raised and not acknowledged, and active ones. -/
structure Distributor where
  pending : Nat → Bool
  active : Nat → Bool

structure Machine where
  gic : Distributor
  lrs : Lrs

/-- INTIDs from 1020 to 1023 are special and never raised by a device. -/
def Deliverable (g : Distributor) (n : Nat) : Prop := n < 1020 ∧ g.pending n = true ∧ g.active n = false

/-- A read of `ICC_IAR1_EL1`: the value returned and the controller after it. -/
inductive ReadIar (g : Distributor) : Nat → Distributor → Prop where
  | ack (n : Nat) (hDeliverable : Deliverable g n) :
      ReadIar g n ⟨Function.update g.pending n false, Function.update g.active n true⟩
  | spurious (hNone : ∀ n, ¬Deliverable g n) : ReadIar g 1023 g

/-- `group` selects the register; with EOImode 1 neither write touches pending or active state. -/
def gicEoi (_irq group : Nat) : Outcome Unit :=
  if group = 0 then .ok ()
  else if group = 1 then .ok ()
  else .error (.panic "[gic_eoi]: invalid group %d for irq %d\n")

def gicGuestEoi (irq group : Nat) : Outcome Unit := gicEoi irq group

/-- The handler for an interrupt of a running guest; `iar` is what `gic_read_iar` returned. -/
def lowerElIrqHandler (lrMax : Nat) (s : Lrs) (iar : Nat) : Outcome Lrs := do
  let s := vgicUsedLrUpdate lrMax s
  let pirq := iar &&& 0xffffff
  gicGuestEoi pirq 1
  let (s, _) ← vgicInjectVirq lrMax s pirq pirq 1
  return s

/-- Devices, hypervisor and guest; `guard` restricts the entries into the handler. -/
inductive IrqStep (lrMax : Nat) (guard : Machine → Nat → Prop) : Machine → Machine → Prop where
  | device (m : Machine) (n : Nat) (level : Bool) :
      IrqStep lrMax guard m { m with gic := { m.gic with pending := Function.update m.gic.pending n level } }
  | handle (iar : Nat) {m : Machine} {gic : Distributor} {lrs : Lrs} (hGuard : guard m iar)
      (hIar : ReadIar m.gic iar gic) (hHandle : lowerElIrqHandler lrMax m.lrs iar = .ok lrs) :
      IrqStep lrMax guard m ⟨gic, lrs⟩
  | update (m : Machine) : IrqStep lrMax guard m { m with lrs := vgicUsedLrUpdate lrMax m.lrs }
  | acknowledge {m : Machine} {i : Nat} (hState : stateOf (m.lrs.lr i) = lrPending) :
      IrqStep lrMax guard m { m with lrs := m.lrs.setState i lrActive }
  | deactivate {m : Machine} {i : Nat} (hState : stateOf (m.lrs.lr i) = lrActive) :
      IrqStep lrMax guard m
        ⟨if hwOf (m.lrs.lr i) = 1 then
            { m.gic with active := Function.update m.gic.active (pintidOf (m.lrs.lr i)) false }
          else m.gic,
          m.lrs.setState i lrInactive⟩

def Live (m : Machine) (i : Nat) : Prop := stateOf (m.lrs.lr i) ≠ lrInactive

structure Carries (lr n : Nat) : Prop where
  state : stateOf lr = lrPending ∨ stateOf lr = lrActive
  hw : hwOf lr = 1
  group : groupOf lr = 1
  pintid : pintidOf lr = n
  vintid : vintidOf lr = n

/-- Live list registers carry active interrupts, each a different one. -/
structure Consistent (m : Machine) : Prop where
  tracked : Tracked m.lrs
  held : ∀ i, Live m i → ∃ n, n < 1020 ∧ m.gic.active n = true ∧ Carries (m.lrs.lr i) n
  unique : ∀ i j, Live m i → Live m j → vintidOf (m.lrs.lr i) = vintidOf (m.lrs.lr j) → i = j

def Complete (m : Machine) : Prop :=
  ∀ n, n < 1020 → m.gic.active n = true → ∃ i, Live m i ∧ pintidOf (m.lrs.lr i) = n

theorem carries_gicMakeLr {n : Nat} (hn : n < 1020) : Carries (gicMakeLr n n 1) n where
  state := .inl (stateOf_gicMakeLr n n 1)
  hw := hwOf_gicMakeLr n n 1
  group := groupOf_gicMakeLr n n 1
  pintid := by
    rw [pintidOf_gicMakeLr]
    omega
  vintid := by
    rw [vintidOf_gicMakeLr]
    omega

/-- The handler on an acknowledged interrupt: it fills an inactive register, or finds none free. -/
theorem lowerElIrqHandler_cases {lrMax : Nat} (hMax : lrMax ≤ 16) {s s' : Lrs} {iar : Nat} (hIar : iar < 2 ^ 24)
    (hTracked : Tracked s) (hHandle : lowerElIrqHandler lrMax s iar = .ok s') :
    Tracked s' ∧
    ((∃ k, k < lrMax ∧ stateOf (s.lr k) = lrInactive ∧ s'.lr = Function.update s.lr k (gicMakeLr iar iar 1)) ∨
      (s'.lr = s.lr ∧ ∀ k, k < lrMax → stateOf (s.lr k) ≠ lrInactive)) := by
  have hMask : iar &&& 0xffffff = iar := by
    have hMod := Nat.and_two_pow_sub_one_eq_mod iar 24
    rw [Nat.mod_eq_of_lt hIar] at hMod
    exact hMod
  have hUpdated := hTracked.update lrMax
  rw [lowerElIrqHandler, hMask] at hHandle
  obtain ⟨_, _, hRest⟩ := bind_eq_ok.mp hHandle
  obtain ⟨⟨s₁, r⟩, hInject, hLast⟩ := bind_eq_ok.mp hRest
  cases hLast
  obtain ⟨k, hk, hBit, hEq⟩ | ⟨hAll, hEq⟩ := vgicInjectVirq_cases hMax (vgicUsedLrUpdate lrMax s) iar iar 1
  · rw [hEq] at hInject
    cases hInject
    refine ⟨hUpdated.set (by omega) _, .inl ⟨k, hk, hUpdated.inactive hBit, rfl⟩⟩
  · rw [hEq] at hInject
    cases hInject
    refine ⟨hUpdated, .inr ⟨rfl, ?_⟩⟩
    intro k hk hInactive
    have hBit := hAll k hk
    have hRead : lrIsInactive (gicReadLr s k) = true := by
      rw [gicReadLr, if_pos (by omega), lrIsInactive_iff]
      exact hInactive
    rw [vgicUsedLrUpdate_bit, hRead, decide_eq_true hk] at hBit
    simp at hBit

section
variable {m : Machine} {lrs : Lrs}

theorem Consistent.keep (h : Consistent m) {gic : Distributor} (hTracked : Tracked lrs) (hLr : lrs.lr = m.lrs.lr)
    (hActive : ∀ n, m.gic.active n = true → gic.active n = true) : Consistent ⟨gic, lrs⟩ := by
  refine ⟨hTracked, ?_, ?_⟩
  · intro i hLive
    rw [Live, hLr] at hLive
    obtain ⟨n, hn, hOn, hCarries⟩ := h.held i hLive
    refine ⟨n, hn, hActive n hOn, ?_⟩
    rw [hLr]
    exact hCarries
  · intro i j hi hj hEq
    rw [Live, hLr] at hi hj
    rw [hLr] at hEq
    exact h.unique i j hi hj hEq

theorem Consistent.not_held (h : Consistent m) {n : Nat} (hOff : m.gic.active n = false) {i : Nat}
    (hLive : Live m i) : vintidOf (m.lrs.lr i) ≠ n := by
  obtain ⟨n', _, hOn, hCarries⟩ := h.held i hLive
  rw [hCarries.vintid]
  rintro rfl
  rw [hOn] at hOff
  cases hOff

theorem Consistent.install (h : Consistent m) {pending : Nat → Bool} {n k : Nat} (hn : n < 1020)
    (hOff : m.gic.active n = false) (hTracked : Tracked lrs)
    (hLr : lrs.lr = Function.update m.lrs.lr k (gicMakeLr n n 1)) :
    Consistent ⟨⟨pending, Function.update m.gic.active n true⟩, lrs⟩ := by
  have hNew := carries_gicMakeLr hn
  have hSelf : lrs.lr k = gicMakeLr n n 1 := by
    rw [hLr]
    exact Function.update_self ..
  have hOther : ∀ i, i ≠ k → lrs.lr i = m.lrs.lr i := by
    intro i hi
    rw [hLr]
    exact Function.update_of_ne hi ..
  have hOld : ∀ i, i ≠ k → stateOf (lrs.lr i) ≠ lrInactive → Live m i := by
    intro i hi hLive
    rwa [hOther i hi] at hLive
  refine ⟨hTracked, ?_, ?_⟩
  · intro i hLive
    obtain rfl | hi := eq_or_ne i k
    · refine ⟨n, hn, Function.update_self .., ?_⟩
      rw [hSelf]
      exact hNew
    · obtain ⟨n', hn', hOn, hCarries⟩ := h.held i (hOld i hi hLive)
      have hNe : n' ≠ n := by
        rintro rfl
        rw [hOn] at hOff
        cases hOff
      refine ⟨n', hn', ?_, ?_⟩
      · exact (Function.update_of_ne hNe ..).trans hOn
      · rw [hOther i hi]
        exact hCarries
  · intro i j hi hj hEq
    obtain rfl | hik := eq_or_ne i k
    · obtain rfl | hjk := eq_or_ne j i
      · rfl
      · rw [hSelf, hOther j hjk, hNew.vintid] at hEq
        exact False.elim (h.not_held hOff (hOld j hjk hj) hEq.symm)
    · obtain rfl | hjk := eq_or_ne j k
      · rw [hSelf, hOther i hik, hNew.vintid] at hEq
        exact False.elim (h.not_held hOff (hOld i hik hi) hEq)
      · rw [hOther i hik, hOther j hjk] at hEq
        exact h.unique i j (hOld i hik hi) (hOld j hjk hj) hEq

theorem Consistent.acknowledge (h : Consistent m) {k : Nat} (hState : stateOf (m.lrs.lr k) = lrPending) :
    Consistent { m with lrs := m.lrs.setState k lrActive } := by
  have hPending : Live m k := by
    rw [Live, hState]
    decide
  have hOld : ∀ i, Live { m with lrs := m.lrs.setState k lrActive } i → Live m i := by
    intro i hLive
    obtain rfl | hi := eq_or_ne i k
    · exact hPending
    · rwa [Live, setState_of_ne _ _ hi] at hLive
  have hVintid : ∀ i, vintidOf ((m.lrs.setState k lrActive).lr i) = vintidOf (m.lrs.lr i) := by
    intro i
    obtain rfl | hi := eq_or_ne i k
    · rw [setState_self, vintidOf_withState]
    · rw [setState_of_ne _ _ hi]
  refine ⟨h.tracked.setState hPending, ?_, ?_⟩
  · intro i hLive
    obtain ⟨n, hn, hOn, hCarries⟩ := h.held i (hOld i hLive)
    refine ⟨n, hn, hOn, ?_⟩
    obtain rfl | hi := eq_or_ne i k
    · rw [setState_self]
      obtain ⟨_, hHw, hGroup, hPintid, hVint⟩ := hCarries
      refine ⟨.inr (stateOf_withState _ _ (by decide)), ?_, ?_, ?_, ?_⟩
      · rw [hwOf_withState, hHw]
      · rw [groupOf_withState, hGroup]
      · rw [pintidOf_withState, hPintid]
      · rw [vintidOf_withState, hVint]
    · rw [setState_of_ne _ _ hi]
      exact hCarries
  · intro i j hi hj hEq
    rw [hVintid, hVintid] at hEq
    exact h.unique i j (hOld i hi) (hOld j hj) hEq

theorem Consistent.deactivate (h : Consistent m) {k : Nat} (hState : stateOf (m.lrs.lr k) = lrActive) :
    Consistent ⟨{ m.gic with active := Function.update m.gic.active (pintidOf (m.lrs.lr k)) false },
      m.lrs.setState k lrInactive⟩ := by
  have hActive : Live m k := by
    rw [Live, hState]
    decide
  have hOld : ∀ i, stateOf ((m.lrs.setState k lrInactive).lr i) ≠ lrInactive → i ≠ k ∧ Live m i := by
    intro i hLive
    obtain rfl | hi := eq_or_ne i k
    · rw [setState_self, stateOf_withState _ _ (by decide)] at hLive
      exact False.elim (hLive rfl)
    · rw [setState_of_ne _ _ hi] at hLive
      exact ⟨hi, hLive⟩
  refine ⟨h.tracked.setState hActive, ?_, ?_⟩
  · intro i hLive
    obtain ⟨hi, hBefore⟩ := hOld i hLive
    obtain ⟨n, hn, hOn, hCarries⟩ := h.held i hBefore
    obtain ⟨n', _, _, hGone⟩ := h.held k hActive
    have hNe : n ≠ pintidOf (m.lrs.lr k) := by
      rw [hGone.pintid]
      rintro rfl
      exact hi (h.unique i k hBefore hActive (hCarries.vintid.trans hGone.vintid.symm))
    refine ⟨n, hn, (Function.update_of_ne hNe ..).trans hOn, ?_⟩
    dsimp only
    rw [setState_of_ne _ _ hi]
    exact hCarries
  · intro i j hi hj hEq
    obtain ⟨hik, hiLive⟩ := hOld i hi
    obtain ⟨hjk, hjLive⟩ := hOld j hj
    dsimp only at hEq
    rw [setState_of_ne _ _ hik, setState_of_ne _ _ hjk] at hEq
    exact h.unique i j hiLive hjLive hEq

end

end HyperPoc.Gic
