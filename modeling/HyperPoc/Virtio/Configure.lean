import HyperPoc.Virtio.Confinement

/-! # Setting the queue up

The guest writes the size and the page of the queue in any order, and the backend keeps both without a
look. The pointers into the rings are computed from the size that is current when the page is written;
a size written later changes the indices only.
-/
namespace HyperPoc.Virtio
open Library.Memory Library.Run Stage2
set_option autoImplicit false

section
variable {s s' : Backend}

theorem ramdiskRw_vq (s : Backend) (blk buf : Nat) (isWrite : Bool) : (ramdiskRw s blk buf isWrite).2.vq = s.vq := by
  unfold ramdiskRw
  split
  · rfl
  · cases isWrite <;> rfl

theorem processBlkReq_vq {d₀ d₁ d₂ : VirtqDesc} (h : processBlkReq s d₀ d₁ d₂ = .ok s') : s'.vq = s.vq := by
  obtain ⟨req, _, h⟩ := bind_eq_ok.mp h
  obtain ⟨buf, _, h⟩ := bind_eq_ok.mp h
  obtain ⟨status, _, h⟩ := bind_eq_ok.mp h
  cases h
  exact ramdiskRw_vq _ _ _ _

theorem processDesc_vq {head len : Nat} (h : virtioBlkProcessDesc s head = .ok (len, s')) : s'.vq = s.vq := by
  unfold virtioBlkProcessDesc at h
  obtain ⟨⟨desc, n, s₁⟩, hChain, hRest⟩ := bind_eq_ok.mp h
  obtain ⟨_, l, rfl, _⟩ := chainLoop_spec hChain
  dsimp only at hRest
  split at hRest
  · cases hRest
    rfl
  · obtain ⟨s₂, hReq, hEq⟩ := bind_eq_ok.mp hRest
    cases hEq
    have hVq := processBlkReq_vq hReq
    exact hVq

/-- The queue after a handler step: only the lock and the index of the next request move. -/
def VirtQueue.stepped (q : VirtQueue) : Pc → VirtQueue
  | .lock => { q with virtqLock := q.virtqLock.takeTicket.2 }
  | .next => { q with availIdx := (q.availIdx + 1) % 2 ^ 16 }
  | .unlock => { q with virtqLock := q.virtqLock.unlock }
  | _ => q

theorem handlerStep_vq {pc pc' : Pc} (h : handlerStep s pc = .ok (pc', s')) : s'.vq = s.vq.stepped pc := by
  cases pc with
  | process head =>
    obtain ⟨⟨len, s₁⟩, hProcess, hEq⟩ := bind_eq_ok.mp h
    cases hEq
    exact processDesc_vq hProcess
  | _ =>
    cases h
    rfl

end

/-- The steps from `x₀` to a system, each with the system it was taken in, latest first. -/
inductive Run (x₀ : System) : List (System × Event) → System → Prop
  | start : Run x₀ [] x₀
  | step {steps : List (System × Event)} {x y : System} {e : Event} : Run x₀ steps x → Step x e y →
      Run x₀ ((x, e) :: steps) y

def sizeWritten : List (System × Event) → Nat
  | [] => 0
  | (_, .write offset val) :: steps => if offset = 0x38 then val else sizeWritten steps
  | _ :: steps => sizeWritten steps

/-- The size that was current when a page was written last. -/
def sizeAtPfn : List (System × Event) → Option Nat
  | [] => none
  | (_, .write offset _) :: steps => if offset = 0x40 then some (sizeWritten steps) else sizeAtPfn steps
  | _ :: steps => sizeAtPfn steps

/-- The layout that both sides have to agree on. -/
structure Consistent (q : VirtQueue) : Prop where
  size_pos : 0 < q.vringNum
  size_le : q.vringNum ≤ 64
  desc : q.desc = q.vringPa
  avail : q.avail = q.vringPa + 16 * q.vringNum
  used : q.used = q.vringPa + 4096
  desc_avail : q.desc + 16 * q.vringNum ≤ q.avail ∨ q.avail + (6 + 2 * q.vringNum) ≤ q.desc
  desc_used : q.desc + 16 * q.vringNum ≤ q.used ∨ q.used + (6 + 8 * q.vringNum) ≤ q.desc
  avail_used : q.avail + (6 + 2 * q.vringNum) ≤ q.used ∨ q.used + (6 + 8 * q.vringNum) ≤ q.avail
  slot : ∀ i, q.avail ≤ q.availAddr i ∧ q.availAddr i + 2 ≤ q.avail + (6 + 2 * q.vringNum)
  elem : ∀ i, q.used ≤ q.usedAddr i ∧ q.usedAddr i + 8 ≤ q.used + (6 + 8 * q.vringNum)

/-- The pointers as the last write of a page left them, for the size `num?` of that time. -/
def PointersFor (num? : Option Nat) (q : VirtQueue) : Prop :=
  match num? with
  | none => q.vringPa = 0 ∧ q.avail = 0
  | some num => q.vringPa < 2 ^ 49 ∧ q.desc = q.vringPa ∧ q.avail = u64 (q.vringPa + num * 16) ∧
      q.used = u64 (q.vringPa + pageSize)

section
variable {x₀ x y : System} {steps : List (System × Event)} {q : VirtQueue}

theorem pointersFor_stepped {num? : Option Nat} (h : PointersFor num? q) (pc : Pc) :
    PointersFor num? (q.stepped pc) := by
  cases num? <;> cases pc <;> exact h

theorem stepped_vringNum (q : VirtQueue) (pc : Pc) : (q.stepped pc).vringNum = q.vringNum := by
  cases pc <;> rfl

theorem virtioMmioWrite_cases {s s' : Backend} {n offset val : Nat} (hNotify : offset ≠ 0x50)
    (h : virtioMmioWrite n s offset val = .ok s') :
    (offset = 0x38 ∧ s'.vq = { s.vq with vringNum := val }) ∨
    (offset = 0x40 ∧ ∃ pa < 2 ^ 49, s'.vq = s.vq.ringAt (u64 (val <<< 12)) pa) ∨
    (offset ≠ 0x38 ∧ offset ≠ 0x40 ∧ s'.vq = s.vq) := by
  unfold virtioMmioWrite at h
  split at h
  case h_2 =>
    split at h
    · cases h
    · cases h
      exact .inr (.inr ⟨by decide, by decide, rfl⟩)
  case h_4 =>
    cases h
    exact .inl ⟨rfl, rfl⟩
  case h_6 =>
    obtain ⟨pa, hPa, hEq⟩ := bind_eq_ok.mp h
    cases hEq
    exact .inr (.inl ⟨rfl, pa, ipa2pa_lt hPa, rfl⟩)
  case h_8 => exact (hNotify rfl).elim
  all_goals
    cases h <;> exact .inr (.inr ⟨by decide, by decide, rfl⟩)

structure Written (steps : List (System × Event)) (q : VirtQueue) : Prop where
  size : q.vringNum = sizeWritten steps
  pointers : PointersFor (sizeAtPfn steps) q

theorem Run.written (hBoot : x₀.dev.vq = bootQueue) (hRun : Run x₀ steps x) : Written steps x.dev.vq := by
  induction hRun with
  | start =>
    rw [hBoot]
    exact ⟨rfl, rfl, rfl⟩
  | @step steps x y e _ hStep ih =>
    cases hStep with
    | guest hSame => exact ⟨ih.size, ih.pointers⟩
    | read hRead => exact ⟨ih.size, ih.pointers⟩
    | notify hIdle => exact ⟨ih.size, ih.pointers⟩
    | handler hStep =>
      rw [handlerStep_vq hStep]
      exact ⟨(stepped_vringNum _ _).trans ih.size, pointersFor_stepped ih.pointers _⟩
    | write hOffset hWrite =>
      rcases virtioMmioWrite_cases hOffset hWrite with ⟨rfl, hVq⟩ | ⟨rfl, pa, hPa, hVq⟩ | ⟨hNum, hPfn, hVq⟩
      · dsimp only
        rw [hVq]
        exact ⟨rfl, ih.pointers⟩
      · dsimp only
        rw [hVq]
        refine ⟨ih.size, hPa, rfl, ?_, rfl⟩
        rw [VirtQueue.ringAt, ih.size]
      · dsimp only
        rw [hVq]
        refine ⟨?_, ?_⟩
        · rw [sizeWritten, if_neg hNum]
          exact ih.size
        · rw [sizeAtPfn, if_neg hPfn]
          exact ih.pointers

theorem consistent_iff (h : Written steps q) :
    Consistent q ↔ 0 < sizeWritten steps ∧ sizeWritten steps ≤ 64 ∧
      ∃ num, sizeAtPfn steps = some num ∧ num % 2 ^ 60 = sizeWritten steps := by
  obtain ⟨hSize, hPointers⟩ := h
  rw [← hSize]
  constructor
  · intro hConsistent
    have hPos := hConsistent.size_pos
    have hLe := hConsistent.size_le
    have hAvail := hConsistent.avail
    refine ⟨hPos, hLe, ?_⟩
    cases hNum : sizeAtPfn steps with
    | none =>
      rw [hNum] at hPointers
      obtain ⟨hPa, hZero⟩ := hPointers
      omega
    | some num =>
      rw [hNum] at hPointers
      obtain ⟨hPa, _, hAt, _⟩ := hPointers
      refine ⟨num, rfl, ?_⟩
      rw [hAt, u64] at hAvail
      omega
  · rintro ⟨hPos, hLe, num, hNum, hSame⟩
    rw [hNum] at hPointers
    obtain ⟨hPa, hDesc, hAvail, hUsed⟩ := hPointers
    have hAvail : q.avail = q.vringPa + 16 * q.vringNum := by
      rw [hAvail, u64]
      omega
    have hUsed : q.used = q.vringPa + 4096 := by
      rw [hUsed, pageSize, u64]
      omega
    have hMod : ∀ i, i % q.vringNum < q.vringNum := fun i => Nat.mod_lt i hPos
    refine ⟨hPos, hLe, hDesc, hAvail, hUsed, .inl (by omega), .inl (by omega), .inl (by omega),
      fun i => ?_, fun i => ?_⟩
    · have hLt := hMod i
      rw [VirtQueue.availAddr, u64_of_lt (by omega)]
      omega
    · have hLt := hMod i
      rw [VirtQueue.usedAddr, u64_of_lt (by omega)]
      omega

/-- After any steps, the rings are consistent exactly if the size is between 1 and 64 and the page was
written last with that size; the pointers do not tell sizes apart that differ by a multiple of `2 ^ 60`. -/
theorem queue_consistent_iff (hBoot : x₀.dev.vq = bootQueue) (hRun : Run x₀ steps x) :
    Consistent x.dev.vq ↔ 0 < sizeWritten steps ∧ sizeWritten steps ≤ 64 ∧
      ∃ num, sizeAtPfn steps = some num ∧ num % 2 ^ 60 = sizeWritten steps :=
  consistent_iff (hRun.written hBoot)

end

section
variable {m : Mem} {node : Nat → Nat → Option Nat}

theorem Run.write {x₀ : System} {steps : List (System × Event)} {pcs : Nat → Pc} {s : Backend}
    (hRun : Run x₀ steps ⟨pcs, s⟩) (offset val : Nat) (t : Backend) (hOffset : offset ≠ 0x50)
    (hWrite : virtioMmioWrite 0 s offset val = .ok t) :
    Run x₀ ((⟨pcs, s⟩, .write offset val) :: steps) ⟨pcs, t⟩ :=
  hRun.step (.write hOffset hWrite)

theorem Run.notify {x₀ : System} {steps : List (System × Event)} {pcs : Nat → Pc} {s : Backend}
    (hRun : Run x₀ steps ⟨pcs, s⟩) (cpu : Nat) (hIdle : pcs cpu = .idle) :
    Run x₀ ((⟨pcs, s⟩, .notify cpu) :: steps) ⟨Function.update pcs cpu .entry, s⟩ :=
  hRun.step (.notify hIdle)

def configureSteps (pcs : Nat → Pc) (m page : Mem) : List (System × Event) :=
  [(⟨pcs, pageBackend m page sizedQueue []⟩, .write 0x40 0x80000),
    (⟨pcs, pageBackend m page bootQueue []⟩, .write 0x38 8)]

theorem run_configured (pcs : Nat → Pc) (page : Mem) (hSpace : Space m 0x40000000 0x10000000 node)
    (hWalk : archWalk m 0x40000000 0x80000000 = some ⟨0x400014c7, 0x40001000⟩) :
    Run ⟨pcs, pageBackend m page bootQueue []⟩ (configureSteps pcs m page)
      ⟨pcs, pageBackend m page smallQueue []⟩ := by
  have hStart : Run ⟨pcs, pageBackend m page bootQueue []⟩ [] _ := .start
  have hSized := hStart.write 0x38 8 (pageBackend m page sizedQueue []) (by decide) rfl
  exact hSized.write 0x40 0x80000 _ (by decide) (pageBackend_init hSpace hWalk sizedQueue [])

end

theorem queue_consistent_eight : ∃ (s' : Hypervisor) (x : System),
    createVm bootHypervisor (some smallCfg) = .ok s' ∧
    x.pcs 0 = .entry ∧ x.dev = pageBackend s'.host.mem ringPage smallQueue [] ∧ Consistent x.dev.vq := by
  obtain ⟨s', node, hCreate, hSpace, hWalk, _⟩ := smallSpace
  have hRun := (run_configured (fun _ => .idle) ringPage hSpace hWalk).notify 0 rfl
  have hIff := queue_consistent_iff rfl hRun
  refine ⟨s', ⟨_, _⟩, hCreate, rfl, rfl, hIff.mpr ?_⟩
  change 0 < 8 ∧ 8 ≤ 64 ∧ ∃ num, some 8 = some num ∧ num % 2 ^ 60 = 8
  exact ⟨by decide, by decide, 8, rfl, rfl⟩

def staleQueue : VirtQueue := { smallQueue with vringNum := 16 }

/-- A size of 16 that is written after the page: the rings of 8 stay where they were, and the slots of
the available ring are taken modulo 16. -/
theorem queue_stale_size : ∃ s' x steps, createVm bootHypervisor (some smallCfg) = .ok s' ∧
    Run ⟨fun _ => .idle, pageBackend s'.host.mem ringPage bootQueue []⟩ steps x ∧ x.pcs 0 = .entry ∧
    x.dev.vq.vringNum = 16 ∧ x.dev.vq.vringPa = 0x40001000 ∧ x.dev.vq.avail = 0x40001080 ∧
    ¬Consistent x.dev.vq := by
  obtain ⟨s', node, hCreate, hSpace, hWalk, _⟩ := smallSpace
  have hStale := (run_configured (fun _ => .idle) ringPage hSpace hWalk).write 0x38 16
    (pageBackend s'.host.mem ringPage staleQueue []) (by decide) rfl
  refine ⟨s', ⟨_, _⟩, _, hCreate, hStale.notify 0 rfl, rfl, rfl, rfl, rfl, fun hConsistent => ?_⟩
  exact absurd hConsistent.avail (show ¬0x40001080 = 0x40001000 + 16 * 16 by decide)

end HyperPoc.Virtio
