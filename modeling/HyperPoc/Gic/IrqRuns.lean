import HyperPoc.Gic.Delivery

/-! # Runs of the interrupt path

The handler drops the priority before it injects and ignores the result of the injection. While it
is entered with an interrupt to acknowledge exactly when a list register is free, nothing is lost and
nothing is invented. An interrupt acknowledged without a free register disappears, and a spurious
entry with a free register gives the guest the special INTID 1023.
-/
namespace HyperPoc.Gic
open Library.BitField Library.Run
set_option autoImplicit false

/-- A vcpu that has taken no interrupt yet; devices may have raised any. -/
structure Machine.Initial (m : Machine) : Prop where
  lrs : m.lrs = Lrs.init
  active : ∀ n, m.gic.active n = false

def NotSpecial (_ : Machine) (iar : Nat) : Prop := iar < 1020

/-- When the handler is entered, an interrupt is deliverable exactly if a list register is free. -/
def Ready (lrMax : Nat) (m : Machine) (_ : Nat) : Prop :=
  (∃ n, Deliverable m.gic n) ↔ ∃ k, k < lrMax ∧ stateOf (m.lrs.lr k) = lrInactive

def AnyEntry (_ : Machine) (_ : Nat) : Prop := True

theorem Machine.Initial.consistent {m : Machine} (h : m.Initial) : Consistent m := by
  have hDead : ∀ i, ¬Live m i := by
    intro i hLive
    rw [Live, h.lrs] at hLive
    exact hLive (by decide : stateOf 0 = lrInactive)
  refine ⟨?_, ?_, ?_⟩
  · rw [h.lrs]
    exact tracked_init
  · intro i hLive
    exact False.elim (hDead i hLive)
  · intro i j hi _ _
    exact False.elim (hDead i hi)

theorem Consistent.step {lrMax : Nat} (hMax : lrMax ≤ 16) {guard : Machine → Nat → Prop}
    (hAck : ∀ m iar gic, guard m iar → ReadIar m.gic iar gic →
      iar < 1020 ∨ ∀ k, k < lrMax → stateOf (m.lrs.lr k) ≠ lrInactive)
    {m m' : Machine} (h : Consistent m) (hStep : IrqStep lrMax guard m m') : Consistent m' := by
  cases hStep with
  | device n level => exact h.keep h.tracked rfl fun _ hOn => hOn
  | update => exact h.keep (h.tracked.update lrMax) rfl fun _ hOn => hOn
  | acknowledge hState => exact h.acknowledge hState
  | deactivate hState =>
    have hLive : Live m _ := fun hDead => absurd (hState.symm.trans hDead) (by decide)
    obtain ⟨n, _, _, hCarries⟩ := h.held _ hLive
    rw [if_pos hCarries.hw]
    exact h.deactivate hState
  | handle iar hGuard hIar hHandle =>
    have hEntry := hAck _ _ _ hGuard hIar
    cases hIar with
    | spurious =>
      obtain ⟨hTracked, ⟨k, hk, hFree, hLr⟩ | ⟨hLr, _⟩⟩ :=
        lowerElIrqHandler_cases hMax (by decide) h.tracked hHandle
      · obtain hLt | hFull := hEntry
        · exact False.elim (absurd hLt (by decide))
        · exact False.elim (hFull k hk hFree)
      · exact h.keep hTracked hLr fun _ hOn => hOn
    | ack _ hDeliverable =>
      obtain ⟨hLt, _, hOff⟩ := hDeliverable
      obtain ⟨hTracked, ⟨k, _, _, hLr⟩ | ⟨hLr, _⟩⟩ :=
        lowerElIrqHandler_cases hMax (by omega) h.tracked hHandle
      · exact h.install hLt hOff hTracked hLr
      · refine h.keep hTracked hLr ?_
        intro n hOn
        obtain rfl | hNe := eq_or_ne n iar
        · exact Function.update_self ..
        · exact (Function.update_of_ne hNe ..).trans hOn

/-- In every run whose acknowledges return no special INTID, live list registers carry different
virtual INTIDs, decode to what was injected, and belong to active physical interrupts. -/
theorem vintid_unique (lrMax : Nat) (hMax : lrMax ≤ 16) (m₀ m : Machine) (hInit : m₀.Initial)
    (hRun : Relation.ReflTransGen (IrqStep lrMax NotSpecial) m₀ m) :
    (∀ i j, Live m i → Live m j → vintidOf (m.lrs.lr i) = vintidOf (m.lrs.lr j) → i = j) ∧
    ∀ i, Live m i → ∃ n, n < 1020 ∧ m.gic.active n = true ∧ Carries (m.lrs.lr i) n := by
  have hConsistent : Consistent m :=
    invariant (fun _ _ h hStep => h.step hMax (fun _ _ _ hGuard _ => .inl hGuard) hStep) hInit.consistent hRun
  exact ⟨hConsistent.unique, hConsistent.held⟩

theorem Ready.entry {lrMax : Nat} (m : Machine) (iar : Nat) (gic : Distributor) (h : Ready lrMax m iar)
    (hIar : ReadIar m.gic iar gic) : iar < 1020 ∨ ∀ k, k < lrMax → stateOf (m.lrs.lr k) ≠ lrInactive := by
  cases hIar with
  | ack _ hAcked => exact .inl hAcked.1
  | spurious hNone =>
    right
    intro k hk hFree
    obtain ⟨n, hDeliverable⟩ := h.mpr ⟨k, hk, hFree⟩
    exact hNone n hDeliverable

theorem Complete.step {lrMax : Nat} (hMax : lrMax ≤ 16) {m m' : Machine} (h : Consistent m) (hComplete : Complete m)
    (hStep : IrqStep lrMax (Ready lrMax) m m') : Complete m' := by
  cases hStep with
  | device n level => exact hComplete
  | update => exact hComplete
  | acknowledge hState =>
    rename_i k
    intro n hn hOn
    obtain ⟨i, hLive, hPintid⟩ := hComplete n hn hOn
    refine ⟨i, ?_, ?_⟩
    · obtain rfl | hi := eq_or_ne i k
      · rw [Live, setState_self, stateOf_withState _ _ (by decide)]
        decide
      · rwa [Live, setState_of_ne _ _ hi]
    · obtain rfl | hi := eq_or_ne i k
      · rw [setState_self, pintidOf_withState, hPintid]
      · rw [setState_of_ne _ _ hi, hPintid]
  | deactivate hState =>
    rename_i k
    have hLive : Live m k := fun hDead => absurd (hState.symm.trans hDead) (by decide)
    obtain ⟨_, _, _, hCarries⟩ := h.held k hLive
    rw [if_pos hCarries.hw]
    intro n hn hOn
    dsimp only at hOn
    have hNe : n ≠ pintidOf (m.lrs.lr k) := by
      rintro rfl
      rw [Function.update_self] at hOn
      cases hOn
    rw [Function.update_of_ne hNe] at hOn
    obtain ⟨i, hiLive, hPintid⟩ := hComplete n hn hOn
    have hi : i ≠ k := by
      rintro rfl
      exact hNe hPintid.symm
    refine ⟨i, ?_, ?_⟩
    · rwa [Live, setState_of_ne _ _ hi]
    · rw [setState_of_ne _ _ hi, hPintid]
  | handle iar hGuard hIar hHandle =>
    cases hIar with
    | spurious hNone =>
      obtain ⟨_, ⟨k, hk, hFree, _⟩ | ⟨hLr, _⟩⟩ := lowerElIrqHandler_cases hMax (by decide) h.tracked hHandle
      · obtain ⟨n, hDeliverable⟩ := hGuard.mpr ⟨k, hk, hFree⟩
        exact False.elim (hNone n hDeliverable)
      · intro n hn hOn
        obtain ⟨i, hiLive, hPintid⟩ := hComplete n hn hOn
        refine ⟨i, ?_, ?_⟩
        · rwa [Live, hLr]
        · rw [hLr, hPintid]
    | ack _ hDeliverable =>
      have hLt := hDeliverable.1
      obtain ⟨k₀, hk₀, hFree⟩ := hGuard.mp ⟨iar, hDeliverable⟩
      obtain ⟨_, ⟨k, _, hInactive, hLr⟩ | ⟨_, hFull⟩⟩ :=
        lowerElIrqHandler_cases hMax (by omega) h.tracked hHandle
      · intro n hn hOn
        dsimp only at hOn
        obtain rfl | hNe := eq_or_ne n iar
        · refine ⟨k, ?_, ?_⟩
          · rw [Live, hLr, Function.update_self, stateOf_gicMakeLr]
            decide
          · rw [hLr, Function.update_self]
            exact (carries_gicMakeLr hn).pintid
        · rw [Function.update_of_ne hNe] at hOn
          obtain ⟨i, hiLive, hPintid⟩ := hComplete n hn hOn
          have hi : i ≠ k := by
            rintro rfl
            exact hiLive hInactive
          refine ⟨i, ?_, ?_⟩
          · rwa [Live, hLr, Function.update_of_ne hi]
          · rw [hLr, Function.update_of_ne hi, hPintid]
      · exact False.elim (hFull k₀ hk₀ hFree)

/-- Every acknowledged interrupt is carried by a live list register, and every live list register
carries an acknowledged interrupt. -/
def Delivered (m : Machine) : Prop :=
  (∀ n, n < 1020 → m.gic.active n = true → ∃ i, Live m i ∧ pintidOf (m.lrs.lr i) = n) ∧
  ∀ i, Live m i → pintidOf (m.lrs.lr i) < 1020 ∧ m.gic.active (pintidOf (m.lrs.lr i)) = true

/-- No interrupt is lost or invented in a run whose entries into the handler all find an interrupt to
acknowledge exactly if a list register is free. -/
theorem irqs_delivered (lrMax : Nat) (hMax : lrMax ≤ 16) (m₀ m : Machine) (hInit : m₀.Initial)
    (hRun : Relation.ReflTransGen (IrqStep lrMax (Ready lrMax)) m₀ m) : Delivered m := by
  have hStart : Complete m₀ := by
    intro n _ hOn
    rw [hInit.active] at hOn
    cases hOn
  have hStep : ∀ s s', Consistent s ∧ Complete s → IrqStep lrMax (Ready lrMax) s s' →
      Consistent s' ∧ Complete s' := by
    intro s s' h hStep
    exact ⟨h.1.step hMax Ready.entry hStep, Complete.step hMax h.1 h.2 hStep⟩
  have hInv := invariant hStep ⟨hInit.consistent, hStart⟩ hRun
  refine ⟨hInv.2, ?_⟩
  intro i hLive
  obtain ⟨n, hn, hOn, hCarries⟩ := hInv.1.held i hLive
  rw [hCarries.pintid]
  exact ⟨hn, hOn⟩

def onePending : Machine := ⟨⟨fun n => n == 33, fun _ => false⟩, Lrs.init⟩

def oneInjected : Machine :=
  ⟨⟨Function.update onePending.gic.pending 33 false, Function.update onePending.gic.active 33 true⟩,
    ⟨Function.update Lrs.init.lr 0 (gicMakeLr 33 33 1), Lrs.init.usedLr ||| (1#16 <<< 0)⟩⟩

def oneTaken : Machine := { oneInjected with lrs := oneInjected.lrs.setState 0 lrActive }

theorem onePending_deliverable : Deliverable onePending.gic 33 := ⟨by decide, rfl, rfl⟩

theorem onePending_initial : onePending.Initial := ⟨rfl, fun _ => rfl⟩

theorem oneTaken_run {guard : Machine → Nat → Prop} (hGuard : guard onePending 33) :
    Relation.ReflTransGen (IrqStep 1 guard) onePending oneTaken := by
  have hHandle : IrqStep 1 guard onePending oneInjected := .handle 33 hGuard (.ack 33 onePending_deliverable) rfl
  exact (Relation.ReflTransGen.single hHandle).tail (.acknowledge (by decide))

def twoPending : Machine := ⟨⟨fun n => n == 33 || n == 34, fun _ => false⟩, Lrs.init⟩

/-- Two list registers: 33 is in the first, 34 in the second. -/
def twoInjected : Machine :=
  ⟨⟨Function.update (Function.update twoPending.gic.pending 33 false) 34 false,
      Function.update (Function.update twoPending.gic.active 33 true) 34 true⟩,
    ⟨Function.update (Function.update Lrs.init.lr 0 (gicMakeLr 33 33 1)) 1 (gicMakeLr 34 34 1),
      Lrs.init.usedLr ||| (1#16 <<< 0) ||| (1#16 <<< 1)⟩⟩

theorem twoInjected_run : Relation.ReflTransGen (IrqStep 2 NotSpecial) twoPending twoInjected := by
  have hFirst : IrqStep 2 NotSpecial twoPending
      ⟨⟨Function.update twoPending.gic.pending 33 false, Function.update twoPending.gic.active 33 true⟩,
        ⟨Function.update Lrs.init.lr 0 (gicMakeLr 33 33 1), Lrs.init.usedLr ||| (1#16 <<< 0)⟩⟩ :=
    .handle 33 (by unfold NotSpecial; decide) (.ack 33 ⟨by decide, rfl, rfl⟩) rfl
  exact (Relation.ReflTransGen.single hFirst).tail
    (.handle 34 (by unfold NotSpecial; decide) (.ack 34 ⟨by decide, rfl, rfl⟩) rfl)

theorem vintid_unique_twoInjected : Live twoInjected 0 ∧ Live twoInjected 1 ∧
    (∀ i j, Live twoInjected i → Live twoInjected j →
      vintidOf (twoInjected.lrs.lr i) = vintidOf (twoInjected.lrs.lr j) → i = j) ∧
    ∀ i, Live twoInjected i → ∃ n, n < 1020 ∧ twoInjected.gic.active n = true ∧
      Carries (twoInjected.lrs.lr i) n :=
  ⟨by unfold Live; decide, by unfold Live; decide,
    vintid_unique 2 (by decide) twoPending twoInjected ⟨rfl, fun _ => rfl⟩ twoInjected_run⟩

theorem irqs_delivered_oneTaken : Live oneTaken 0 ∧ oneTaken.gic.active 33 = true ∧ Delivered oneTaken := by
  have hReady : Ready 1 onePending 33 :=
    ⟨fun _ => ⟨0, by decide, by decide⟩, fun _ => ⟨33, onePending_deliverable⟩⟩
  exact ⟨by unfold Live; decide, by decide,
    irqs_delivered 1 (by decide) onePending oneTaken onePending_initial (oneTaken_run hReady)⟩

/-- One list register: the second entry acknowledges 34 and finds no register for it. -/
def twoHandled : Machine :=
  ⟨⟨Function.update (Function.update twoPending.gic.pending 33 false) 34 false,
      Function.update (Function.update twoPending.gic.active 33 true) 34 true⟩,
    ⟨Function.update Lrs.init.lr 0 (gicMakeLr 33 33 1), Lrs.init.usedLr ||| (1#16 <<< 0)⟩⟩

theorem twoHandled_run : Relation.ReflTransGen (IrqStep 1 AnyEntry) twoPending twoHandled := by
  have hFirst : IrqStep 1 AnyEntry twoPending
      ⟨⟨Function.update twoPending.gic.pending 33 false, Function.update twoPending.gic.active 33 true⟩,
        twoHandled.lrs⟩ := .handle 33 trivial (.ack 33 ⟨by decide, rfl, rfl⟩) rfl
  exact (Relation.ReflTransGen.single hFirst).tail (.handle 34 trivial (.ack 34 ⟨by decide, rfl, rfl⟩) rfl)

def nonePending : Machine := ⟨⟨fun _ => false, fun _ => false⟩, Lrs.init⟩

def noneHandled : Machine :=
  ⟨nonePending.gic, ⟨Function.update Lrs.init.lr 0 (gicMakeLr 1023 1023 1), Lrs.init.usedLr ||| (1#16 <<< 0)⟩⟩

theorem noneHandled_run : Relation.ReflTransGen (IrqStep 4 AnyEntry) nonePending noneHandled := by
  have hNone : ∀ n, ¬Deliverable nonePending.gic n := by
    rintro n ⟨_, hPending, _⟩
    cases hPending
  exact Relation.ReflTransGen.single (.handle 1023 trivial (.spurious hNone) rfl)

/-- Interrupt 34 is active, neither pending nor carried by any register; and a special INTID reaches
the guest. -/
theorem irq_lost_and_invented :
    (twoPending.Initial ∧ Relation.ReflTransGen (IrqStep 1 AnyEntry) twoPending twoHandled ∧
      twoHandled.gic.active 34 = true ∧ twoHandled.gic.pending 34 = false ∧
      ∀ i, Live twoHandled i → pintidOf (twoHandled.lrs.lr i) ≠ 34) ∧
    nonePending.Initial ∧ Relation.ReflTransGen (IrqStep 4 AnyEntry) nonePending noneHandled ∧
      Live noneHandled 0 ∧ pintidOf (noneHandled.lrs.lr 0) = 1023 := by
  refine ⟨⟨⟨rfl, fun _ => rfl⟩, twoHandled_run, by decide, by decide, ?_⟩,
    ⟨rfl, fun _ => rfl⟩, noneHandled_run, by unfold Live; decide, by decide⟩
  intro i hLive
  obtain rfl | hi := eq_or_ne i 0
  · decide
  · have hZero : twoHandled.lrs.lr i = 0 := Function.update_of_ne hi ..
    rw [Live, hZero] at hLive
    exact False.elim (hLive (by decide))

end HyperPoc.Gic
