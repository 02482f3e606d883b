import HyperPoc.Trap.Sync

/-! # The life cycle of vcpus

CPU_ON takes no lock. A call writes the pc of its target, makes it ready and then asks firmware; the
physical cpus enter vcpus that are ready, in two accesses. The accesses of all of them interleave.
-/
namespace HyperPoc.Trap
open Library.Run Vgic
set_option autoImplicit false

def editVcpu (s : Hypervisor) (i : Nat) (f : Vcpu → Vcpu) : Hypervisor :=
  { s with vcpus := Function.update s.vcpus i (f (s.vcpus i)) }

def switchToVcpu (s : Hypervisor) (cpu i : Nat) : Outcome Hypervisor :=
  if cpu ≠ (s.vcpus i).cpuid then .error (.panic "vcpu cpuid mismatch")
  else .ok (editVcpu s i fun v => { v with state := .running })

def enterVcpu (s : Hypervisor) (cpu : Nat) : Outcome Hypervisor :=
  if vcpuMax ≤ cpu then .error .outOfBounds
  else if (s.vcpus cpu).state ≠ .ready then .error (.panic "vcpu not ready")
  else switchToVcpu s cpu cpu

/-- A call of CPU_ON. `on` says that its target was ready or running when it began, and `touched` that
one of its own writes has changed the state or the pc of the target. -/
structure CpuOnCall where
  target : Nat
  entry : Nat
  on : Bool
  touched : Bool

inductive CpuOnPc
  | idle
  | elr (c : CpuOnCall)
  | ready (c : CpuOnCall)
  | firmware (c : CpuOnCall)

def CpuOnPc.call : CpuOnPc → Option CpuOnCall
  | .idle => none
  | .elr c | .ready c | .firmware c => some c

/-- `entering` are the cpus that have found their vcpu ready; `log` has the calls that are over with
the answers of firmware. -/
structure LifeSystem where
  hv : Hypervisor
  calls : Nat → CpuOnPc
  entering : Nat → Bool
  log : List (CpuOnCall × Nat)

def LifeSystem.go (x : LifeSystem) (j : Nat) (s : Hypervisor) (pc : CpuOnPc) : LifeSystem :=
  { x with hv := s, calls := Function.update x.calls j pc }

inductive LifeAction
  | call (j k entry : Nat)
  | writeElr (j : Nat)
  | writeReady (j : Nat)
  | firmware (j fw : Nat)
  | check (i : Nat)
  | enter (i : Nat)
  | trap (j pc : Nat)

section
variable (w : Wiring) (x : LifeSystem)

def newCall (k entry : Nat) : CpuOnCall := ⟨k, entry, decide ((x.hv.vcpus (w.vcpu k)).state ≠ .created), false⟩

def wroteElr (c : CpuOnCall) : CpuOnCall :=
  { c with touched := c.touched || decide ((x.hv.vcpus (w.vcpu c.target)).elrEl2 ≠ c.entry) }

def wroteReady (c : CpuOnCall) : CpuOnCall :=
  { c with touched := c.touched || decide ((x.hv.vcpus (w.vcpu c.target)).state ≠ .ready) }

end

/-- One access. A running vcpu that is not in a call may also trap, which saves its pc. -/
inductive LifeStep (w : Wiring) : LifeAction → LifeSystem → LifeSystem → Prop
  | call {x : LifeSystem} {j k entry : Nat} (hj : j < w.nvcpu) (hk : k < w.nvcpu)
      (hRunning : (x.hv.vcpus (w.vcpu j)).state = .running) (hPc : x.calls j = .idle) :
      LifeStep w (.call j k entry) x (x.go j x.hv (.elr (newCall w x k entry)))
  | writeElr {x : LifeSystem} {j : Nat} {c : CpuOnCall} (hPc : x.calls j = .elr c) :
      LifeStep w (.writeElr j) x
        (x.go j (editVcpu x.hv (w.vcpu c.target) fun v => { v with elrEl2 := c.entry }) (.ready (wroteElr w x c)))
  | writeReady {x : LifeSystem} {j : Nat} {c : CpuOnCall} (hPc : x.calls j = .ready c) :
      LifeStep w (.writeReady j) x
        (x.go j (editVcpu x.hv (w.vcpu c.target) fun v => { v with state := .ready }) (.firmware (wroteReady w x c)))
  | firmware {x : LifeSystem} {j : Nat} {c : CpuOnCall} (fw : Nat) (hPc : x.calls j = .firmware c) :
      LifeStep w (.firmware j fw) x { x.go j x.hv .idle with log := (c, fw) :: x.log }
  | check {x : LifeSystem} {i : Nat} (hi : i < vcpuMax) (hReady : (x.hv.vcpus i).state = .ready)
      (hOut : x.entering i = false) : LifeStep w (.check i) x { x with entering := Function.update x.entering i true }
  | enter {x : LifeSystem} {i : Nat} (hIn : x.entering i = true) (hCpuid : i = (x.hv.vcpus i).cpuid) :
      LifeStep w (.enter i) x
        { x with
          hv := editVcpu x.hv i fun v => { v with state := .running }
          entering := Function.update x.entering i false }
  | trap {x : LifeSystem} {j : Nat} (pc : Nat) (hj : j < w.nvcpu)
      (hRunning : (x.hv.vcpus (w.vcpu j)).state = .running) (hPc : x.calls j = .idle) :
      LifeStep w (.trap j pc) x { x with hv := editVcpu x.hv (w.vcpu j) fun v => { v with elrEl2 := pc } }

/-- Runs in which each action is one that `P` lets happen. -/
def LifeRun (w : Wiring) (P : LifeSystem → LifeAction → Prop) : LifeSystem → LifeSystem → Prop :=
  Relation.ReflTransGen fun x x' => ∃ a, P x a ∧ LifeStep w a x x'

/-- CREATED to READY to RUNNING. -/
def Moves (s s' : VcpuState) : Prop := s' = s ∨ s = .created ∧ s' = .ready ∨ s = .ready ∧ s' = .running

/-- A call for a vcpu that is on, and a call that firmware refuses, have left the target alone; the
former is refused. -/
def Respects (c : CpuOnCall) (fw : Nat) : Prop :=
  (c.on = true → c.touched = false ∧ fw ≠ 0) ∧ (fw ≠ 0 → c.touched = false)

/-- A call for a vcpu that is on names the pc it has, and its target has not been entered when it is
made ready; firmware refuses these calls and no others. -/
def Careful (w : Wiring) (x : LifeSystem) : LifeAction → Prop
  | .writeElr j => ∀ c, x.calls j = .elr c → c.on = true → (x.hv.vcpus (w.vcpu c.target)).elrEl2 = c.entry
  | .writeReady j => ∀ c, x.calls j = .ready c → (x.hv.vcpus (w.vcpu c.target)).state ≠ .running
  | .firmware j fw => ∀ c, x.calls j = .firmware c → (fw = 0 ↔ c.on = false)
  | _ => True

structure LifeInv (w : Wiring) (x : LifeSystem) : Prop where
  used : ∀ k, k < w.nvcpu → (x.hv.vcpus (w.vcpu k)).state ≠ .unused
  entering : ∀ i, x.entering i = true → (x.hv.vcpus i).state = .ready
  calls : ∀ j c, (x.calls j).call = some c → c.target < w.nvcpu ∧
    (c.on = true → (x.hv.vcpus (w.vcpu c.target)).state ≠ .created ∧ c.touched = false)
  log : ∀ r ∈ x.log, Respects r.1 r.2

section
variable {w : Wiring} {x x' : LifeSystem} {j : Nat}

theorem vcpus_editVcpu (s : Hypervisor) (i : Nat) (f : Vcpu → Vcpu) (i' : Nat) :
    (editVcpu s i f).vcpus i' = if i' = i then f (s.vcpus i') else s.vcpus i' := by
  rw [editVcpu]
  dsimp only
  obtain rfl | hNe := eq_or_ne i' i
  · rw [Function.update_self, if_pos rfl]
  · rw [Function.update_of_ne hNe, if_neg hNe]

theorem state_of_elr (s : Hypervisor) (i pc i' : Nat) :
    ((editVcpu s i fun v => { v with elrEl2 := pc }).vcpus i').state = (s.vcpus i').state := by
  rw [vcpus_editVcpu]
  split
  · rfl
  · rfl

theorem state_of_state (s : Hypervisor) (i : Nat) (st : VcpuState) (i' : Nat) :
    ((editVcpu s i fun v => { v with state := st }).vcpus i').state = if i' = i then st else (s.vcpus i').state := by
  rw [vcpus_editVcpu]
  split
  · rfl
  · rfl

theorem Moves.ne_unused {s s' : VcpuState} (h : Moves s s') (hs : s ≠ .unused) : s' ≠ .unused := by
  obtain rfl | ⟨_, rfl⟩ | ⟨_, rfl⟩ := h
  · exact hs
  · decide
  · decide

theorem Moves.ne_created {s s' : VcpuState} (h : Moves s s') (hs : s ≠ .created) : s' ≠ .created := by
  obtain rfl | ⟨rfl, _⟩ | ⟨_, rfl⟩ := h
  · exact hs
  · exact absurd rfl hs
  · decide

theorem LifeInv.created_or_ready (h : LifeInv w x) {k : Nat} (hk : k < w.nvcpu)
    (hRunning : (x.hv.vcpus (w.vcpu k)).state ≠ .running) :
    (x.hv.vcpus (w.vcpu k)).state = .created ∨ (x.hv.vcpus (w.vcpu k)).state = .ready := by
  have hUsed := h.used k hk
  cases hState : (x.hv.vcpus (w.vcpu k)).state with
  | unused => exact absurd hState hUsed
  | created => exact .inl rfl
  | ready => exact .inr rfl
  | running => exact absurd hState hRunning

theorem moves_of_step (h : LifeInv w x) {a : LifeAction} (hCareful : Careful w x a) (hStep : LifeStep w a x x')
    (i : Nat) :
    Moves (x.hv.vcpus i).state (x'.hv.vcpus i).state := by
  cases hStep with
  | call | firmware | check => exact .inl rfl
  | writeElr => exact .inl (state_of_elr _ _ _ i)
  | trap => exact .inl (state_of_elr _ _ _ i)
  | @writeReady _ j c hPc =>
    have hState := state_of_state x.hv (w.vcpu c.target) .ready i
    have hTarget := (h.calls j c (by rw [hPc]; rfl)).1
    rw [LifeSystem.go]
    dsimp only
    rw [hState]
    split
    · rename_i hEq
      rw [hEq]
      obtain hOld | hOld := h.created_or_ready hTarget (hCareful c hPc)
      · exact .inr (.inl ⟨hOld, rfl⟩)
      · exact .inl hOld.symm
    · exact .inl rfl
  | @enter _ i' hIn hCpuid =>
    dsimp only
    rw [state_of_state]
    split
    · rename_i hEq
      rw [hEq]
      exact .inr (.inr ⟨h.entering i' hIn, rfl⟩)
    · exact .inl rfl

theorem LifeInv.calls_of_moves (h : LifeInv w x) {s : Hypervisor}
    (hMoves : ∀ i, Moves (x.hv.vcpus i).state (s.vcpus i).state) {c : CpuOnCall} (hc : (x.calls j).call = some c) :
    c.target < w.nvcpu ∧ (c.on = true → (s.vcpus (w.vcpu c.target)).state ≠ .created ∧ c.touched = false) := by
  obtain ⟨hTarget, hOn⟩ := h.calls j c hc
  refine ⟨hTarget, ?_⟩
  intro hc
  exact ⟨(hMoves _).ne_created (hOn hc).1, (hOn hc).2⟩

theorem LifeInv.go (h : LifeInv w x) {s : Hypervisor} (hMoves : ∀ i, Moves (x.hv.vcpus i).state (s.vcpus i).state)
    (hReady : ∀ i, (x.hv.vcpus i).state = .ready → (s.vcpus i).state = .ready) {pc : CpuOnPc}
    (hPc : ∀ c, pc.call = some c → c.target < w.nvcpu ∧
      (c.on = true → (s.vcpus (w.vcpu c.target)).state ≠ .created ∧ c.touched = false)) : LifeInv w
        (x.go j s pc) where
  used k hk := (hMoves _).ne_unused (h.used k hk)
  entering i hIn := hReady i (h.entering i hIn)
  calls j' c hc := by
    rw [LifeSystem.go] at hc
    dsimp only at hc
    obtain rfl | hNe := eq_or_ne j' j
    · rw [Function.update_self] at hc
      exact hPc c hc
    · rw [Function.update_of_ne hNe] at hc
      exact h.calls_of_moves hMoves hc
  log := h.log

theorem lifeInv_step (h : LifeInv w x) {a : LifeAction} (hCareful : Careful w x a) (hStep : LifeStep w a x x') :
    LifeInv w x' := by
  have hMoves := moves_of_step h hCareful hStep
  cases hStep with
  | @call _ j k entry hj hk hRunning hPc =>
    refine h.go hMoves (fun _ hReady => hReady) ?_
    rintro c ⟨⟩
    refine ⟨hk, ?_⟩
    intro hOn
    exact ⟨of_decide_eq_true hOn, rfl⟩
  | @writeElr _ j c hPc =>
    obtain ⟨hTarget, hOn⟩ := h.calls j c (by rw [hPc]; rfl)
    refine h.go hMoves (fun i hReady => (state_of_elr _ _ _ i).trans hReady) ?_
    rintro c' ⟨⟩
    refine ⟨hTarget, ?_⟩
    intro hc
    refine ⟨(hMoves _).ne_created (hOn hc).1, ?_⟩
    rw [wroteElr, (hOn hc).2, hCareful c hPc hc]
    simp
  | @writeReady _ j c hPc =>
    obtain ⟨hTarget, hOn⟩ := h.calls j c (by rw [hPc]; rfl)
    refine h.go hMoves ?_ ?_
    · intro i hReady
      refine (state_of_state _ _ _ i).trans ?_
      split
      · rfl
      · exact hReady
    · rintro c' ⟨⟩
      refine ⟨hTarget, ?_⟩
      intro hc
      refine ⟨(hMoves _).ne_created (hOn hc).1, ?_⟩
      -- it was on, so it cannot be CREATED again
      have hOld := (h.created_or_ready hTarget (hCareful c hPc)).resolve_left (hOn hc).1
      rw [wroteReady, (hOn hc).2, hOld]
      simp
  | @firmware _ j c fw hPc =>
    obtain ⟨hTarget, hOn⟩ := h.calls j c (by rw [hPc]; rfl)
    have hIdle : LifeInv w (x.go j x.hv .idle) := h.go hMoves (fun _ hReady => hReady) (by rintro c ⟨⟩)
    refine ⟨hIdle.used, hIdle.entering, hIdle.calls, ?_⟩
    have hFw := hCareful c hPc
    intro r hr
    obtain rfl | hOld := List.mem_cons.mp hr
    · constructor
      · intro hc
        refine ⟨(hOn hc).2, ?_⟩
        intro hZero
        rw [hFw.mp hZero] at hc
        cases hc
      · intro hRefused
        apply And.right
        apply hOn
        exact Bool.eq_true_of_not_eq_false (fun hOff => hRefused (hFw.mpr hOff))
    · exact h.log r hOld
  | @check _ i hi hReady hOut =>
    refine ⟨h.used, ?_, h.calls, h.log⟩
    intro i' hIn
    dsimp only at hIn ⊢
    obtain rfl | hNe := eq_or_ne i' i
    · exact hReady
    · rw [Function.update_of_ne hNe] at hIn
      exact h.entering i' hIn
  | @enter _ i hIn hCpuid =>
    refine ⟨?_, ?_, ?_, h.log⟩
    · intro k hk
      exact (hMoves _).ne_unused (h.used k hk)
    · intro i' hIn'
      dsimp only at hIn' ⊢
      obtain rfl | hNe := eq_or_ne i' i
      · rw [Function.update_self] at hIn'
        cases hIn'
      · rw [Function.update_of_ne hNe] at hIn'
        rw [state_of_state, if_neg hNe]
        exact h.entering i' hIn'
    · intro j c hc
      exact h.calls_of_moves hMoves hc
  | @trap _ j pc hj hRunning hPc =>
    refine ⟨?_, ?_, ?_, h.log⟩
    · intro k hk
      exact (hMoves _).ne_unused (h.used k hk)
    · intro i hIn
      exact (state_of_elr _ _ _ i).trans (h.entering i hIn)
    · intro j' c hc
      exact h.calls_of_moves hMoves hc

/-- Nobody is in a call or on the way into a vcpu. -/
structure Idle (x : LifeSystem) : Prop where
  calls : ∀ j, x.calls j = .idle
  entering : ∀ i, x.entering i = false
  log : x.log = []

/-- In any interleaving of careful calls the states only move on, and a vcpu that is on is left alone by
every call, as is any vcpu by a call that firmware refuses. -/
theorem cpu_on_life_cycle {x₀ : LifeSystem}
    (hUsed : ∀ k, k < w.nvcpu → (x₀.hv.vcpus (w.vcpu k)).state ≠ .unused) (hIdle : Idle x₀)
    (hRun : LifeRun w (Careful w) x₀ x) :
    (∀ r ∈ x.log, Respects r.1 r.2) ∧
      ∀ a x', Careful w x a → LifeStep w a x x' → ∀ i, Moves (x.hv.vcpus i).state (x'.hv.vcpus i).state := by
  have hInit : LifeInv w x₀ := by
    refine ⟨hUsed, ?_, ?_, ?_⟩
    · intro i hIn
      rw [hIdle.entering i] at hIn
      cases hIn
    · intro j c hc
      rw [hIdle.calls j] at hc
      cases hc
    · rw [hIdle.log]
      intro r hr
      cases hr
  have hInv : LifeInv w x := invariant (fun _ _ hInv ⟨_, hCareful, hStep⟩ => lifeInv_step hInv hCareful hStep) hInit
    hRun
  exact ⟨hInv.log, fun a x' hCareful hStep => moves_of_step hInv hCareful hStep⟩

end

/-! ## The handlers as runs

A handler that nobody interrupts is one of the interleavings.
-/

section
variable (w : Wiring) (x : LifeSystem) (j k entry fw : Nat)

def called : LifeSystem := x.go j x.hv (.elr (newCall w x k entry))

def pcWritten : LifeSystem :=
  (called w x j k entry).go j (editVcpu x.hv (w.vcpu k) fun v => { v with elrEl2 := entry })
    (.ready (wroteElr w x (newCall w x k entry)))

def madeReady : LifeSystem :=
  (pcWritten w x j k entry).go j
    (editVcpu (editVcpu x.hv (w.vcpu k) fun v => { v with elrEl2 := entry }) (w.vcpu k) fun v =>
      { v with state := .ready })
    (.firmware (wroteReady w (pcWritten w x j k entry) (wroteElr w x (newCall w x k entry))))

def wholeCall : CpuOnCall := wroteReady w (pcWritten w x j k entry) (wroteElr w x (newCall w x k entry))

def answered : LifeSystem :=
  { x with
    hv := editVcpu (editVcpu x.hv (w.vcpu k) fun v => { v with elrEl2 := entry }) (w.vcpu k) fun v =>
      { v with state := .ready }
    log := (wholeCall w x j k entry, fw) :: x.log }

variable {w x j k}

theorem calls_called : (called w x j k entry).calls j = .elr (newCall w x k entry) := Function.update_self _ _ _

theorem calls_pcWritten : (pcWritten w x j k entry).calls j = .ready (wroteElr w x (newCall w x k entry)) :=
  Function.update_self _ _ _

theorem calls_madeReady : (madeReady w x j k entry).calls j = .firmware (wholeCall w x j k entry) :=
  Function.update_self _ _ _

theorem touched_of_created (hCreated : (x.hv.vcpus (w.vcpu k)).state = .created) :
    (wholeCall w x j k entry).touched = true := by
  have hState : ((pcWritten w x j k entry).hv.vcpus (w.vcpu k)).state = .created :=
    (state_of_elr x.hv (w.vcpu k) entry (w.vcpu k)).trans hCreated
  have hNotReady : ((pcWritten w x j k entry).hv.vcpus (w.vcpu (newCall w x k entry).target)).state ≠ .ready := by
    rw [newCall, hState]
    decide
  rw [wholeCall, wroteReady, wroteElr]
  exact Bool.or_eq_true_iff.mpr (.inr (decide_eq_true hNotReady))

theorem cpuOn_runs {P : LifeSystem → LifeAction → Prop} (hj : j < w.nvcpu) (hk : k < w.nvcpu)
    (hRunning : (x.hv.vcpus (w.vcpu j)).state = .running) (hPc : x.calls j = .idle) (hCall : P x (.call j k entry))
    (hElr : P (called w x j k entry) (.writeElr j)) (hReady : P (pcWritten w x j k entry) (.writeReady j))
    (hFw : P (madeReady w x j k entry) (.firmware j fw)) : LifeRun w P x (answered w x j k entry fw) := by
  have hStep₁ : LifeStep w (.call j k entry) x (called w x j k entry) := .call hj hk hRunning hPc
  have hStep₂ : LifeStep w (.writeElr j) (called w x j k entry) (pcWritten w x j k entry) :=
    .writeElr (calls_called entry)
  have hStep₃ : LifeStep w (.writeReady j) (pcWritten w x j k entry) (madeReady w x j k entry) :=
    .writeReady (calls_pcWritten entry)
  have hStep₄ : LifeStep w (.firmware j fw) (madeReady w x j k entry) _ := .firmware fw (calls_madeReady entry)
  have hEnd : { (madeReady w x j k entry).go j (madeReady w x j k entry).hv .idle with
      log := (wholeCall w x j k entry, fw) :: (madeReady w x j k entry).log } = answered w x j k entry fw := by
    simp only [madeReady, pcWritten, called, LifeSystem.go, answered, Function.update_idem, ← hPc,
      Function.update_eq_self]
  rw [hEnd] at hStep₄
  exact (((Relation.ReflTransGen.single ⟨_, hCall, hStep₁⟩).tail ⟨_, hElr, hStep₂⟩).tail
    ⟨_, hReady, hStep₃⟩).tail ⟨_, hFw, hStep₄⟩

/-- A first CPU_ON that firmware grants is careful. -/
theorem cpuOn_runs_created (hj : j < w.nvcpu) (hk : k < w.nvcpu) (hRunning : (x.hv.vcpus (w.vcpu j)).state = .running)
    (hPc : x.calls j = .idle) (hCreated : (x.hv.vcpus (w.vcpu k)).state = .created) :
    LifeRun w (Careful w) x (answered w x j k entry 0) := by
  have hOn : (newCall w x k entry).on = false := decide_eq_false (not_not.mpr hCreated)
  apply cpuOn_runs entry 0 hj hk hRunning hPc
  · trivial
  · intro c hc hTrue
    rw [calls_called] at hc
    cases hc
    rw [hOn] at hTrue
    cases hTrue
  · intro c hc hState
    rw [calls_pcWritten] at hc
    cases hc
    have hOld := (state_of_elr x.hv (w.vcpu k) entry (w.vcpu k)).trans hCreated
    exact absurd (hOld.symm.trans hState) (by decide)
  · intro c hc
    rw [calls_madeReady] at hc
    cases hc
    exact iff_of_true rfl hOn

theorem on_of_ready (hReady : (x.hv.vcpus (w.vcpu k)).state = .ready) : (newCall w x k entry).on = true := by
  rw [newCall, hReady]
  rfl

/-- So is a second one that names the pc of its target, and that firmware refuses. -/
theorem cpuOn_runs_ready (hj : j < w.nvcpu) (hk : k < w.nvcpu) (hRunning : (x.hv.vcpus (w.vcpu j)).state = .running)
    (hPc : x.calls j = .idle) (hReady : (x.hv.vcpus (w.vcpu k)).state = .ready)
    (hEntry : (x.hv.vcpus (w.vcpu k)).elrEl2 = entry) (hFw : fw ≠ 0) :
    LifeRun w (Careful w) x (answered w x j k entry fw) := by
  have hOn := on_of_ready entry hReady
  apply cpuOn_runs entry fw hj hk hRunning hPc
  · trivial
  · intro c hc _
    rw [calls_called] at hc
    cases hc
    exact hEntry
  · intro c hc hState
    rw [calls_pcWritten] at hc
    cases hc
    have hOld := (state_of_elr x.hv (w.vcpu k) entry (w.vcpu k)).trans hReady
    exact absurd (hOld.symm.trans hState) (by decide)
  · intro c hc
    rw [calls_madeReady] at hc
    cases hc
    refine iff_of_false hFw ?_
    rw [show (wholeCall w x j k entry).on = true from hOn]
    exact Bool.noConfusion

end

section
variable {w : Wiring} {P : LifeSystem → LifeAction → Prop} {calls : Nat → CpuOnPc} {entering : Nat → Bool}
variable {log : List (CpuOnCall × Nat)}

theorem psciCpuOn_runs {b : Board} {j k : Nat} (h : Wired w b.hv) (hj : j < w.nvcpu) (hk : k < w.nvcpu)
    (hRunning : (b.hv.vcpus (w.vcpu j)).state = .running) (hPc : calls j = .idle) (hP : ∀ x a, P x a)
    (entry fw : Nat) :
    ∃ b' c, psciCpuOn fw b (w.vcpu j) k entry = .ok (b', fw) ∧
      LifeRun w P ⟨b.hv, calls, entering, log⟩ ⟨b'.hv, calls, entering, (c, fw) :: log⟩ := by
  have hRun := cpuOn_runs (x := ⟨b.hv, calls, entering, log⟩) entry fw hj hk hRunning hPc (hP _ _) (hP _ _) (hP _ _)
    (hP _ _)
  refine ⟨_, wholeCall w ⟨b.hv, calls, entering, log⟩ j k entry, psciCpuOn_eq h hj hk fw entry, ?_⟩
  have hEdit : (cpuOnBoard b (w.vcpu k) entry).hv = (answered w ⟨b.hv, calls, entering, log⟩ j k entry fw).hv := by
    simp [cpuOnBoard, answered, editVcpu]
  rw [hEdit]
  exact hRun

theorem enterVcpu_runs {s s' : Hypervisor} {cpu : Nat} (hRun : enterVcpu s cpu = .ok s') (hOut : entering cpu = false)
    (hP : ∀ x, P x (.check cpu) ∧ P x (.enter cpu)) :
    LifeRun w P ⟨s, calls, entering, log⟩ ⟨s', calls, entering, log⟩ := by
  rw [enterVcpu] at hRun
  split at hRun
  · cases hRun
  · rename_i hLt
    split at hRun
    · cases hRun
    · rename_i hReady
      rw [switchToVcpu] at hRun
      split at hRun
      · cases hRun
      · rename_i hCpuid
        cases hRun
        have hCheck : LifeStep w (.check cpu) ⟨s, calls, entering, log⟩ _ :=
          .check (Nat.lt_of_not_le hLt) (not_not.mp hReady) hOut
        have hEnter : LifeStep w (.enter cpu) ⟨s, calls, Function.update entering cpu true, log⟩ _ :=
          .enter (Function.update_self _ _ _) (not_not.mp hCpuid)
        rw [Function.update_idem, ← hOut, Function.update_eq_self] at hEnter
        exact (Relation.ReflTransGen.single ⟨_, (hP _).1, hCheck⟩).tail ⟨_, (hP _).2, hEnter⟩

end

def bootSystem : LifeSystem := ⟨smallVm, fun _ => .idle, fun _ => false, []⟩

def enteredSystem : LifeSystem := { bootSystem with hv := editVcpu smallVm 0 fun v => { v with state := .running } }

theorem enterVcpu_small : enterVcpu smallVm 0 = .ok enteredSystem.hv := by
  have hReady : (smallVm.vcpus 0).state = .ready := by decide +kernel
  have hCpuid : 0 = (smallVm.vcpus 0).cpuid := by decide +kernel
  rw [enterVcpu, if_neg (by decide), if_neg (not_not.mpr hReady), switchToVcpu, if_neg (not_not.mpr hCpuid)]
  rfl

theorem enteredSystem_runs {P : LifeSystem → LifeAction → Prop} (hP : ∀ x, P x (.check 0) ∧ P x (.enter 0)) :
    LifeRun smallWiring P bootSystem enteredSystem :=
  enterVcpu_runs enterVcpu_small rfl hP

theorem enteredSystem_running : (enteredSystem.hv.vcpus (smallWiring.vcpu 0)).state = .running :=
  state_of_state smallVm 0 .running 0

theorem enteredSystem_created : (enteredSystem.hv.vcpus (smallWiring.vcpu 1)).state = .created := by
  decide +kernel

def turnedOn : LifeSystem := answered smallWiring enteredSystem 0 1 0x80001000 0

theorem turnedOn_running : (turnedOn.hv.vcpus (smallWiring.vcpu 0)).state = .running :=
  ((state_of_state _ 1 .ready 0).trans (state_of_elr _ 1 _ 0)).trans enteredSystem_running

theorem turnedOn_ready : (turnedOn.hv.vcpus (smallWiring.vcpu 1)).state = .ready := state_of_state _ 1 .ready 1

theorem turnedOn_elr : (turnedOn.hv.vcpus (smallWiring.vcpu 1)).elrEl2 = 0x80001000 := by
  decide +kernel

/-- Cpu 0 enters vcpu 0, which turns on vcpu 1, and once more, with the same entry point: firmware answers ON_PENDING
and vcpu 1 is left alone. -/
theorem cpu_on_life_cycle_twice : ∃ x c c', LifeRun smallWiring (Careful smallWiring) bootSystem x ∧
    x.log = [(c', 2 ^ 64 - 5), (c, 0)] ∧ c.on = false ∧ c.touched = true ∧ c'.on = true ∧ c'.touched = false ∧
    Respects c 0 ∧ Respects c' (2 ^ 64 - 5) := by
  have hFirst := (enteredSystem_runs (P := Careful smallWiring) fun _ => ⟨trivial, trivial⟩).trans
    (cpuOn_runs_created 0x80001000 (j := 0) (k := 1) (by decide) (by decide) enteredSystem_running rfl
      enteredSystem_created)
  have hRun := hFirst.trans (cpuOn_runs_ready (x := turnedOn) 0x80001000 (2 ^ 64 - 5) (j := 0) (k := 1) (by decide)
    (by decide) turnedOn_running rfl turnedOn_ready turnedOn_elr (by decide))
  have hUsed : ∀ k, k < smallWiring.nvcpu → (bootSystem.hv.vcpus (smallWiring.vcpu k)).state ≠ .unused := by
    decide +kernel
  have hRespects := (cpu_on_life_cycle hUsed ⟨fun _ => rfl, fun _ => rfl, rfl⟩ hRun).1
  have hSecond := hRespects _ List.mem_cons_self
  have hOn := on_of_ready 0x80001000 turnedOn_ready
  exact ⟨_, _, _, hRun, rfl, decide_eq_false (not_not.mpr enteredSystem_created),
    touched_of_created 0x80001000 enteredSystem_created, hOn, (hSecond.1 hOn).1,
    hRespects _ (List.mem_cons_of_mem _ List.mem_cons_self), hSecond⟩

/-- Firmware refuses to turn on vcpu 1, which is READY by then; and vcpu 0 names itself in a CPU_ON and
goes back from RUNNING to READY. -/
theorem cpu_on_turns_back :
    (∃ x c, LifeRun smallWiring (fun _ _ => True) bootSystem x ∧ x.log = [(c, 2 ^ 64 - 3)] ∧
      (x.hv.vcpus 1).state = .ready ∧ ¬Respects c (2 ^ 64 - 3)) ∧
    ∃ x x', LifeRun smallWiring (fun _ _ => True) bootSystem x ∧ LifeStep smallWiring (.writeReady 0) x x' ∧
      (x.hv.vcpus 0).state = .running ∧ (x'.hv.vcpus 0).state = .ready := by
  have hEntered := enteredSystem_runs (P := fun _ _ => True) fun _ => ⟨trivial, trivial⟩
  constructor
  · have hRun := cpuOn_runs (P := fun _ _ => True) 0x80001000 (2 ^ 64 - 3) (j := 0) (k := 1) (by decide) (by decide)
      enteredSystem_running rfl trivial trivial trivial trivial
    have hTouched := touched_of_created (j := 0) 0x80001000 enteredSystem_created
    refine ⟨_, _, hEntered.trans hRun, rfl, state_of_state _ 1 .ready 1, ?_⟩
    intro hRespects
    rw [hRespects.2 (by decide)] at hTouched
    cases hTouched
  · have hCall : LifeStep smallWiring (.call 0 0 0x80001000) enteredSystem
        (called smallWiring enteredSystem 0 0 0x80001000) :=
      .call (by decide) (by decide) enteredSystem_running rfl
    have hElr : LifeStep smallWiring (.writeElr 0) (called smallWiring enteredSystem 0 0 0x80001000)
        (pcWritten smallWiring enteredSystem 0 0 0x80001000) := .writeElr (calls_called _)
    refine ⟨_, madeReady smallWiring enteredSystem 0 0 0x80001000,
      (hEntered.tail ⟨_, trivial, hCall⟩).tail ⟨_, trivial, hElr⟩, .writeReady (calls_pcWritten _), ?_, ?_⟩
    · exact (state_of_elr _ 0 _ 0).trans enteredSystem_running
    · exact state_of_state _ 0 .ready 0

end HyperPoc.Trap
