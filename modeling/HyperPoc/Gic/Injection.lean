import HyperPoc.Gic.ListRegister

/-! # Injection never overwrites a live list register

The bitmap lags behind the hardware on one side only: a register leaves the inactive state by an
injection alone, and that sets its bit. So a clear bit always belongs to an inactive register.
-/
namespace HyperPoc.Gic
open Library.BitField Library.Run
set_option autoImplicit false

def Lrs.init : Lrs := ⟨fun _ => 0, 0⟩

def Lrs.setState (s : Lrs) (n state : Nat) : Lrs :=
  { s with lr := Function.update s.lr n (withState (s.lr n) state) }

theorem setState_of_ne (s : Lrs) {n k : Nat} (state : Nat) (hNe : k ≠ n) : (s.setState n state).lr k = s.lr k :=
  Function.update_of_ne hNe ..

theorem setState_self (s : Lrs) (n state : Nat) : (s.setState n state).lr n = withState (s.lr n) state :=
  Function.update_self ..

/-- What the hypervisor and the hardware do to the list registers of a vcpu. -/
inductive Step (lrMax : Nat) : Lrs → Lrs → Prop where
  | update (s : Lrs) : Step lrMax s (vgicUsedLrUpdate lrMax s)
  | inject (pirq virq group : Nat) {s s' : Lrs} {r : Int}
      (hInject : vgicInjectVirq lrMax s pirq virq group = .ok (s', r)) : Step lrMax s s'
  | activate {s : Lrs} {n : Nat} (hState : stateOf (s.lr n) = lrPending) : Step lrMax s (s.setState n lrActive)
  | deactivate {s : Lrs} {n : Nat} (hState : stateOf (s.lr n) = lrActive) : Step lrMax s (s.setState n lrInactive)
  | withdraw {s : Lrs} {n : Nat} (hState : stateOf (s.lr n) = lrPending) : Step lrMax s (s.setState n lrInactive)

def Tracked (s : Lrs) : Prop := ∀ n, stateOf (s.lr n) ≠ lrInactive → s.usedLr.getLsbD n = true

theorem vgicInjectVirq_cases {lrMax : Nat} (hMax : lrMax ≤ 16) (s : Lrs) (pirq virq group : Nat) :
    (∃ n, n < lrMax ∧ s.usedLr.getLsbD n = false ∧ vgicInjectVirq lrMax s pirq virq group =
      .ok (⟨Function.update s.lr n (gicMakeLr pirq virq group), s.usedLr ||| (1#16 <<< n)⟩, 0)) ∨
    ((∀ n, n < lrMax → s.usedLr.getLsbD n = true) ∧ vgicInjectVirq lrMax s pirq virq group = .ok (s, -1)) := by
  obtain ⟨n, _, hLt, hClear, _, hLoop⟩ | ⟨hAll, hLoop⟩ := lrAllocLoop_cases s.usedLr lrMax 0
  · left
    refine ⟨n, by omega, hClear, ?_⟩
    rw [vgicInjectVirq, vgicLrAlloc, hLoop]
    dsimp only
    rw [gicWriteLr, if_pos (by omega)]
    rfl
  · right
    refine ⟨fun n hn => hAll n (by omega) (by omega), ?_⟩
    rw [vgicInjectVirq, vgicLrAlloc, hLoop]

theorem vgicUsedLrUpdate_bit (lrMax : Nat) (s : Lrs) (n : Nat) :
    (vgicUsedLrUpdate lrMax s).usedLr.getLsbD n =
      (s.usedLr.getLsbD n && !(decide (n < lrMax) && lrIsInactive (gicReadLr s n))) := by
  rw [vgicUsedLrUpdate, usedLrLoop_eq]
  simp

theorem Tracked.update {s : Lrs} (h : Tracked s) (lrMax : Nat) : Tracked (vgicUsedLrUpdate lrMax s) := by
  intro n hLive
  have hBit := h n hLive
  have hLt := BitVec.lt_of_getLsbD hBit
  have hActive : lrIsInactive (gicReadLr s n) = false := by
    rw [gicReadLr, if_pos hLt, ← Bool.not_eq_true, lrIsInactive_iff]
    exact hLive
  rw [vgicUsedLrUpdate_bit, hBit, hActive]
  simp

theorem Tracked.set {s : Lrs} (h : Tracked s) {n : Nat} (hn : n < 16) (v : Nat) :
    Tracked ⟨Function.update s.lr n v, s.usedLr ||| (1#16 <<< n)⟩ := by
  intro k hLive
  dsimp only at hLive ⊢
  by_cases hk : k = n
  · rw [getLsbD_set _ _ _ (by omega), decide_eq_true hk, Bool.true_or]
  · rw [Function.update_of_ne hk] at hLive
    have hBit := h k hLive
    rw [getLsbD_set _ _ _ (BitVec.lt_of_getLsbD hBit), hBit, Bool.or_true]

theorem Tracked.setState {s : Lrs} (h : Tracked s) {n state : Nat} (hLive : stateOf (s.lr n) ≠ lrInactive) :
    Tracked (s.setState n state) := by
  intro k hk
  by_cases hEq : k = n
  · rw [hEq]
    exact h n hLive
  · apply h k
    rwa [setState_of_ne s state hEq] at hk

theorem Tracked.step {lrMax : Nat} (hMax : lrMax ≤ 16) {s s' : Lrs} (h : Tracked s) (hStep : Step lrMax s s') :
    Tracked s' := by
  cases hStep with
  | update => exact h.update lrMax
  | inject pirq virq group hInject =>
    obtain ⟨n, hn, _, hEq⟩ | ⟨_, hEq⟩ := vgicInjectVirq_cases hMax s pirq virq group
    · rw [hEq] at hInject
      cases hInject
      exact h.set (by omega) _
    · rw [hEq] at hInject
      cases hInject
      exact h
  | activate hState => exact h.setState (by rw [hState]; decide)
  | deactivate hState => exact h.setState (by rw [hState]; decide)
  | withdraw hState => exact h.setState (by rw [hState]; decide)

theorem tracked_init : Tracked Lrs.init := by
  intro n hLive
  exact False.elim (hLive (by decide : stateOf 0 = lrInactive))

theorem Tracked.inactive {s : Lrs} (h : Tracked s) {n : Nat} (hBit : s.usedLr.getLsbD n = false) :
    stateOf (s.lr n) = lrInactive := by
  by_contra hLive
  rw [h n hLive] at hBit
  cases hBit

/-- In every run of a vcpu's list registers the live ones are marked, so that an injection writes one
inactive register and no other, or refuses and changes nothing when all of them are marked. -/
theorem inject_keeps_live (lrMax : Nat) (hMax : lrMax ≤ 16) (s : Lrs)
    (hRun : Relation.ReflTransGen (Step lrMax) Lrs.init s) :
    (∀ n, stateOf (s.lr n) ≠ lrInactive → s.usedLr.getLsbD n = true) ∧
    ∀ pirq virq group, ∃ s' r, vgicInjectVirq lrMax s pirq virq group = .ok (s', r) ∧
      ((∃ n, n < lrMax ∧ stateOf (s.lr n) = lrInactive ∧ r = 0 ∧
          s'.lr n = gicMakeLr pirq virq group ∧ ∀ j, j ≠ n → s'.lr j = s.lr j) ∨
        (r = -1 ∧ s' = s)) ∧
      (r = -1 ↔ ∀ n, n < lrMax → s.usedLr.getLsbD n = true) := by
  have hTracked : Tracked s := invariant (fun _ _ h hStep => h.step hMax hStep) tracked_init hRun
  refine ⟨hTracked, ?_⟩
  intro pirq virq group
  obtain ⟨n, hn, hBit, hEq⟩ | ⟨hAll, hEq⟩ := vgicInjectVirq_cases hMax s pirq virq group
  · refine ⟨_, _, hEq, .inl ⟨n, hn, hTracked.inactive hBit, rfl, ?_, ?_⟩, ?_⟩
    · exact Function.update_self ..
    · intro j hj
      exact Function.update_of_ne hj ..
    · constructor
      · intro h
        cases h
      · intro hAll
        rw [hAll n hn] at hBit
        cases hBit
  · exact ⟨_, _, hEq, .inr ⟨rfl, rfl⟩, fun _ => hAll, fun _ => rfl⟩

/-- The first injection into a vcpu, already acknowledged by the guest. -/
def oneLive : Lrs :=
  Lrs.setState ⟨Function.update Lrs.init.lr 0 (gicMakeLr 33 33 1), Lrs.init.usedLr ||| (1#16 <<< 0)⟩ 0 lrActive

theorem inject_keeps_oneLive : stateOf (oneLive.lr 0) = lrActive ∧ oneLive.usedLr.getLsbD 0 = true ∧
    ∃ s' r, vgicInjectVirq 4 oneLive 34 34 1 = .ok (s', r) ∧ r = 0 ∧ s'.lr 0 = oneLive.lr 0 := by
  have hInject : Step 4 Lrs.init ⟨Function.update Lrs.init.lr 0 (gicMakeLr 33 33 1),
      Lrs.init.usedLr ||| (1#16 <<< 0)⟩ := .inject 33 33 1 rfl
  have hRun : Relation.ReflTransGen (Step 4) Lrs.init oneLive :=
    (Relation.ReflTransGen.single hInject).tail (.activate (by decide))
  obtain ⟨hLive, hInjects⟩ := inject_keeps_live 4 (by decide) oneLive hRun
  obtain ⟨s', r, hEq, hCases, hFull⟩ := hInjects 34 34 1
  have hFree : r ≠ -1 := by
    intro hr
    exact absurd (hFull.mp hr 1 (by decide)) (by decide)
  obtain ⟨n, _, hInactive, hr, _, hOthers⟩ | ⟨hr, _⟩ := hCases
  · have hNe : (0 : Nat) ≠ n := by
      rintro rfl
      exact absurd hInactive (by decide)
    exact ⟨by decide, hLive 0 (by decide), s', r, hEq, hr, hOthers 0 hNe⟩
  · exact False.elim (hFree hr)

end HyperPoc.Gic
