import HyperPoc.Virtio.Configure
import HyperPoc.Virtio.Turns

/-! # Exclusion under reconfiguration

Writing the page of the queue sets both counters of `virtq_lock` to 0, whoever holds it or waits for it.
As long as nobody stands in the line at that moment, the lock does its work: one vcpu at a time is in
the request loop, locks and unlocks come in pairs, and each entry of the available ring is fetched once.
-/
namespace HyperPoc.Virtio
open Library.Memory Library.Run Library.TicketLock Stage2
set_option autoImplicit false

/-- A granted `spin_lock` with its ticket, or a `spin_unlock` with the ticket that it has served. -/
inductive LockOp
  | grant (cpu ticket : Nat)
  | release (cpu ticket : Nat)
  deriving DecidableEq

/-- The vcpu that takes the step, and where it stands. -/
def actor : System × Event → Option (Nat × Pc)
  | (x, .handler cpu) => some (cpu, x.pcs cpu)
  | _ => none

/-- The lock operation of a vcpu at `pc`. -/
def opAt (l : Spinlock) (cpu : Nat) : Pc → Option LockOp
  | .wait ticket => if l.granted ticket then some (.grant cpu ticket) else none
  | .unlock => some (.release cpu l.next)
  | _ => none

def lockOp (p : System × Event) : Option LockOp :=
  (actor p).bind (fun a => opAt p.1.dev.vq.virtqLock a.1 a.2)

def lockOps (steps : List (System × Event)) : List LockOp := steps.filterMap lockOp

/-- Locks and unlocks alternate, each unlock by the vcpu and with the ticket of the lock before. -/
inductive Paired : List LockOp → Option (Nat × Nat) → Prop
  | nil : Paired [] none
  | grant {ops : List LockOp} {cpu ticket : Nat} : Paired ops none →
    Paired (.grant cpu ticket :: ops) (some (cpu, ticket))
  | release {ops : List LockOp} {cpu ticket : Nat} : Paired ops (some (cpu, ticket)) →
      Paired (.release cpu ticket :: ops) none

/-- How often `avail_idx` was advanced. -/
def entriesDone (steps : List (System × Event)) : Nat :=
  steps.countP (fun p => decide ((actor p).map Prod.snd = some .next))

/-- The vcpus that fetched an entry of the available ring, with the number of the entry. -/
def fetched : List (System × Event) → List (Nat × Nat)
  | [] => []
  | p :: steps =>
    match actor p with
    | some (cpu, .fetch) => (cpu, entriesDone steps) :: fetched steps
    | _ => fetched steps

/-- The page is written while nobody stands in the line, and there are at most `cpus` vcpus. -/
structure Calm (cpus : Nat) (steps : List (System × Event)) : Prop where
  pfn : ∀ x val, (x, .write 0x40 val) ∈ steps → ∀ cpu, (x.pcs cpu).inLine = false
  few : ∀ x cpu, (x, .notify cpu) ∈ steps → cpu < cpus

structure Exclusive (steps : List (System × Event)) (x : System) : Prop where
  one : ∀ a b, (x.pcs a).holds = true → (x.pcs b).holds = true → a = b
  paired : ∃ holder, Paired (lockOps steps) holder ∧
    ∀ cpu, (x.pcs cpu).holds = true ↔ ∃ ticket, holder = some (cpu, ticket)
  index : x.dev.vq.availIdx = entriesDone steps % 2 ^ 16
  once : ((fetched steps).map Prod.snd).Nodup

/-- What a handler step does to the lock. -/
inductive LockMove (l : Spinlock) : Pc → Pc → Spinlock → Prop
  | draw : LockMove l .lock (.wait l.takeTicket.1) l.takeTicket.2
  | grant : LockMove l (.wait l.next) .test l
  | release : LockMove l .unlock .signal l.unlock
  | stay {pc pc' : Pc} (hIn : pc'.inLine = pc.inLine) (hHolds : pc'.holds = pc.holds)
    (hTicket : ∀ t, pc'.ticket = some t → pc.ticket = some t) (hUnlock : pc ≠ .unlock)
    (hWait : ∀ t, pc = .wait t → l.granted t = false) : LockMove l pc pc' l

theorem LockMove.pass {l : Spinlock} {pc pc' : Pc} (hIn : pc'.inLine = pc.inLine) (hHolds : pc'.holds = pc.holds)
    (hOld : pc.ticket = none) (hNew : pc'.ticket = none) (hUnlock : pc ≠ .unlock) : LockMove l pc pc' l := by
  refine .stay hIn hHolds (fun t ht => ?_) hUnlock (fun t hWait => ?_)
  · rw [hNew] at ht
    cases ht
  · rw [hWait] at hOld
    cases hOld

theorem handlerStep_lockMove {s s' : Backend} {pc pc' : Pc} (h : handlerStep s pc = .ok (pc', s')) :
    LockMove s.vq.virtqLock pc pc' s'.vq.virtqLock := by
  rw [handlerStep_vq h]
  cases pc with
  | lock =>
    cases h
    exact .draw
  | unlock =>
    cases h
    exact .release
  | wait t =>
    cases hGranted : s.vq.virtqLock.granted t with
    | true =>
      simp only [handlerStep, hGranted, if_true] at h
      cases h
      rw [beq_iff_eq.mp hGranted]
      exact .grant
    | false =>
      simp only [handlerStep, hGranted, Bool.false_eq_true, if_false] at h
      cases h
      refine .stay rfl rfl (fun _ ht => ht) Pc.noConfusion ?_
      rintro t ⟨⟩
      exact hGranted
  | test =>
    cases h
    cases (virtqAvailable s).1 <;> exact .pass rfl rfl rfl rfl Pc.noConfusion
  | process head =>
    obtain ⟨_, _, hEq⟩ := bind_eq_ok.mp h
    cases hEq
    exact .pass rfl rfl rfl rfl Pc.noConfusion
  | _ =>
    cases h
    exact .pass rfl rfl rfl rfl Pc.noConfusion

section
variable {cpus : Nat} {pcs : Nat → Pc} {l l' : Spinlock} {queue : List Nat} {cpu : Nat} {pc : Pc}

theorem Turns.move (h : Turns cpus pcs l queue) (hCpus : cpus < 2 ^ 32) (hBusy : cpu < cpus)
    (hMove : LockMove l (pcs cpu) pc l') : ∃ queue', Turns cpus (Function.update pcs cpu pc) l' queue' := by
  generalize hPc : pcs cpu = old at hMove
  cases hMove with
  | draw => exact ⟨_, h.draw hBusy hPc⟩
  | grant => exact ⟨_, h.grant hCpus hBusy hPc⟩
  | release => exact h.leave hBusy hPc
  | stay hIn hHolds hTicket _ _ =>
    rw [← hPc] at hIn hHolds hTicket
    exact ⟨_, h.keep hBusy hIn (fun hNew => hHolds.symm.trans hNew) hTicket⟩

/-- The vcpu in the request loop is the one whose lock was granted last, and its ticket is being served. -/
structure HeldBy (holder : Option (Nat × Nat)) (pcs : Nat → Pc) (l : Spinlock) : Prop where
  holds_iff : ∀ cpu, (pcs cpu).holds = true ↔ ∃ ticket, holder = some (cpu, ticket)
  served : ∀ cpu ticket, holder = some (cpu, ticket) → ticket = l.next

theorem HeldBy.none_of_not_holds {holder : Option (Nat × Nat)} (h : HeldBy holder pcs l)
    (hNone : ∀ cpu, (pcs cpu).holds = false) : holder = none := by
  cases holder with
  | none => rfl
  | some e =>
    have hHolds := (h.holds_iff e.1).mpr ⟨e.2, rfl⟩
    rw [hNone] at hHolds
    cases hHolds

theorem HeldBy.update {holder : Option (Nat × Nat)} (h : HeldBy holder pcs l) (hHolds : pc.holds = (pcs cpu).holds)
    (hNext : l'.next = l.next) : HeldBy holder (Function.update pcs cpu pc) l' := by
  refine ⟨fun b => ?_, fun b t hb => ?_⟩
  · rw [pc_update Pc.holds b hHolds]
    exact h.holds_iff b
  · rw [hNext]
    exact h.served b t hb

theorem HeldBy.move {holder : Option (Nat × Nat)} {ops : List LockOp} (h : HeldBy holder pcs l)
    (hPaired : Paired ops holder) (hTurns : Turns cpus pcs l queue) (hCpus : cpus < 2 ^ 32)
    (hMove : LockMove l (pcs cpu) pc l') :
    ∃ holder', Paired ((opAt l cpu (pcs cpu)).toList ++ ops) holder' ∧
      HeldBy holder' (Function.update pcs cpu pc) l' := by
  generalize hPc : pcs cpu = old at hMove
  cases hMove with
  | draw => exact ⟨holder, hPaired, h.update (by rw [hPc]; rfl) rfl⟩
  | grant =>
    have hNone := hTurns.none_holds hCpus hPc
    cases h.none_of_not_holds hNone
    have hGranted : l.granted l.next = true := beq_iff_eq.mpr rfl
    refine ⟨some (cpu, l.next), ?_, fun b => ?_, ?_⟩
    · rw [opAt, if_pos hGranted]
      exact .grant hPaired
    · obtain rfl | hNe := eq_or_ne b cpu
      · simp [Pc.holds]
      · rw [Function.update_of_ne hNe, hNone b]
        simp [hNe.symm]
    · rintro _ _ ⟨⟩
      rfl
  | release =>
    have hHolds : (pcs cpu).holds = true := by
      rw [hPc]
      rfl
    obtain ⟨ticket, rfl⟩ := (h.holds_iff cpu).mp hHolds
    cases h.served cpu ticket rfl
    refine ⟨none, .release hPaired, fun b => ?_, by simp⟩
    obtain rfl | hNe := eq_or_ne b cpu
    · simp [Pc.holds]
    · rw [Function.update_of_ne hNe]
      have hOther : ¬(pcs b).holds = true := fun hb => hNe (hTurns.holder_unique hb hHolds)
      simp [hOther]
  | stay _ hHolds _ hUnlock hWait =>
    refine ⟨holder, ?_, h.update (by rw [hPc]; exact hHolds) rfl⟩
    have hNone : opAt l cpu old = none := by
      cases old with
      | wait t =>
        rw [opAt, hWait t rfl]
        rfl
      | unlock => exact (hUnlock rfl).elim
      | _ => rfl
    rw [hNone]
    exact hPaired

end

/-- The vcpu has fetched an entry and not yet advanced `avail_idx`. -/
def Pc.hasEntry : Pc → Bool
  | .process _ | .setId _ _ | .setLen _ | .setIdx | .next => true
  | _ => false

theorem Pc.holds_of_hasEntry {pc : Pc} (h : pc.hasEntry = true) : pc.holds = true := by
  cases pc <;> first | rfl | cases h

theorem handlerStep_hasEntry {s s' : Backend} {pc pc' : Pc} (h : handlerStep s pc = .ok (pc', s'))
    (hFetch : pc ≠ .fetch) (hNext : pc ≠ .next) : pc'.hasEntry = pc.hasEntry := by
  cases pc with
  | fetch => exact (hFetch rfl).elim
  | next => exact (hNext rfl).elim
  | wait t =>
    cases h
    cases s.vq.virtqLock.granted t <;> rfl
  | test =>
    cases h
    cases (virtqAvailable s).1 <;> rfl
  | process head =>
    obtain ⟨_, _, hEq⟩ := bind_eq_ok.mp h
    cases hEq
    rfl
  | _ =>
    cases h
    rfl

/-- Entries are fetched in order, and the last one is not passed before the vcpu is done with it. -/
structure Entries (steps : List (System × Event)) (pcs : Nat → Pc) : Prop where
  nodup : ((fetched steps).map Prod.snd).Nodup
  le : ∀ e ∈ fetched steps, e.2 < entriesDone steps ∨ e.2 = entriesDone steps ∧ (pcs e.1).hasEntry = true

section
variable {steps : List (System × Event)} {x : System} {cpu : Nat} {p : System × Event} {pcs : Nat → Pc}

theorem fetched_cons_ne (h : (actor p).map Prod.snd ≠ some .fetch) : fetched (p :: steps) = fetched steps := by
  rw [fetched]
  split
  · rename_i hActor
    rw [hActor] at h
    exact (h rfl).elim
  · rfl

theorem entriesDone_cons_ne (h : (actor p).map Prod.snd ≠ some .next) :
    entriesDone (p :: steps) = entriesDone steps := by
  rw [entriesDone, List.countP_cons_of_neg (by simpa using h), entriesDone]

theorem stepped_availIdx {q : VirtQueue} {pc : Pc} (h : pc ≠ .next) : (q.stepped pc).availIdx = q.availIdx := by
  cases pc with
  | next => exact (h rfl).elim
  | _ => rfl

/-- The index of the backend counts the entries, whatever else happens to the queue. -/
theorem Run.availIdx {x₀ : System} (hBoot : x₀.dev.vq = bootQueue) (hRun : Run x₀ steps x) :
    x.dev.vq.availIdx = entriesDone steps % 2 ^ 16 := by
  induction hRun with
  | start =>
    rw [hBoot]
    rfl
  | @step steps x y e _ hStep ih =>
    cases hStep with
    | guest hSame => exact ih
    | read hRead => exact ih
    | notify hIdle => exact ih
    | write hOffset hWrite =>
      rcases virtioMmioWrite_cases hOffset hWrite with ⟨_, hVq⟩ | ⟨_, pa, _, hVq⟩ | ⟨_, _, hVq⟩
      all_goals
        dsimp only
        rw [hVq]
        exact ih
    | @handler cpu pc s hStep =>
      dsimp only
      rw [handlerStep_vq hStep]
      by_cases hNext : x.pcs cpu = .next
      · have hDone : entriesDone ((x, .handler cpu) :: steps) = entriesDone steps + 1 :=
          List.countP_cons_of_pos (by simp [actor, hNext])
        rw [hDone, hNext, VirtQueue.stepped, ih, Nat.mod_add_mod]
      · have hDone : entriesDone ((x, .handler cpu) :: steps) = entriesDone steps :=
          entriesDone_cons_ne (by simpa [actor] using hNext)
        rw [hDone, stepped_availIdx hNext]
        exact ih

theorem Entries.same (h : Entries steps x.pcs) (hFetch : (actor p).map Prod.snd ≠ some .fetch)
    (hNext : (actor p).map Prod.snd ≠ some .next) (hPcs : ∀ cpu, (pcs cpu).hasEntry = (x.pcs cpu).hasEntry) :
    Entries (p :: steps) pcs := by
  refine ⟨?_, ?_⟩
  · rw [fetched_cons_ne hFetch]
    exact h.nodup
  · intro e he
    rw [fetched_cons_ne hFetch] at he
    rw [entriesDone_cons_ne hNext, hPcs]
    exact h.le e he

theorem Entries.handler {cpus : Nat} {queue : List Nat} {pc : Pc} {s : Backend} (h : Entries steps x.pcs)
    (hTurns : Turns cpus x.pcs x.dev.vq.virtqLock queue) (hStep : handlerStep x.dev (x.pcs cpu) = .ok (pc, s)) :
    Entries ((x, .handler cpu) :: steps) (Function.update x.pcs cpu pc) := by
  have hActor : (actor (x, .handler cpu)).map Prod.snd = some (x.pcs cpu) := rfl
  by_cases hFetch : x.pcs cpu = .fetch
  · -- nobody else is past the lock, so all entries before are done with
    have hPast : ∀ e ∈ fetched steps, e.2 < entriesDone steps := by
      intro e he
      rcases h.le e he with hLt | ⟨_, hHas⟩
      · exact hLt
      · have hEq := hTurns.holder_unique (Pc.holds_of_hasEntry hHas)
          (show (x.pcs cpu).holds = true by rw [hFetch]; rfl)
        rw [hEq, hFetch] at hHas
        cases hHas
    have hDone : entriesDone ((x, .handler cpu) :: steps) = entriesDone steps := by
      apply entriesDone_cons_ne
      rw [hActor, hFetch]
      simp
    have hNew : fetched ((x, .handler cpu) :: steps) = (cpu, entriesDone steps) :: fetched steps := by
      simp only [fetched, actor, hFetch]
    rw [hFetch] at hStep
    cases hStep
    refine ⟨?_, ?_⟩
    · rw [hNew, List.map_cons, List.nodup_cons]
      refine ⟨fun hMem => ?_, h.nodup⟩
      obtain ⟨e, he, hEq⟩ := List.mem_map.mp hMem
      have hLt := hPast e he
      omega
    · rw [hNew, hDone]
      refine List.forall_mem_cons.mpr ⟨.inr ⟨rfl, by rw [Function.update_self]; rfl⟩, fun e he =>
        .inl (hPast e he)⟩
  · by_cases hNext : x.pcs cpu = .next
    · have hSame : fetched ((x, .handler cpu) :: steps) = fetched steps :=
        fetched_cons_ne (by rw [hActor, hNext]; simp)
      have hDone : entriesDone ((x, .handler cpu) :: steps) = entriesDone steps + 1 :=
        List.countP_cons_of_pos (by rw [hActor, hNext]; rfl)
      refine ⟨by rw [hSame]; exact h.nodup, fun e he => ?_⟩
      rw [hSame] at he
      rw [hDone]
      rcases h.le e he with hLt | ⟨hEq, _⟩
      · exact .inl (by omega)
      · exact .inl (by omega)
    · refine h.same (by rw [hActor]; simpa using hFetch) (by rw [hActor]; simpa using hNext) (fun b => ?_)
      exact pc_update Pc.hasEntry b (handlerStep_hasEntry hStep hFetch hNext)

end

theorem Calm.tail {cpus : Nat} {p : System × Event} {steps : List (System × Event)} (h : Calm cpus (p :: steps)) :
    Calm cpus steps :=
  ⟨fun x val hMem => h.pfn x val (List.mem_cons_of_mem p hMem), fun x cpu hMem =>
    h.few x cpu (List.mem_cons_of_mem p hMem)⟩

theorem Calm.cons {cpus : Nat} {x : System} {e : Event} {steps : List (System × Event)} (h : Calm cpus steps)
    (hPfn : ∀ val, e = .write 0x40 val → ∀ cpu, (x.pcs cpu).inLine = false)
    (hFew : ∀ cpu, e = .notify cpu → cpu < cpus) :
    Calm cpus ((x, e) :: steps) := by
  constructor
  · intro y val hMem
    rcases List.mem_cons.mp hMem with hEq | hMem
    · cases hEq
      exact hPfn val rfl
    · exact h.pfn y val hMem
  · intro y cpu hMem
    rcases List.mem_cons.mp hMem with hEq | hMem
    · cases hEq
      exact hFew cpu rfl
    · exact h.few y cpu hMem

theorem Calm.handler {cpus cpu : Nat} {x : System} {steps : List (System × Event)} (h : Calm cpus steps) :
    Calm cpus ((x, .handler cpu) :: steps) := h.cons nofun nofun

structure Orderly (cpus : Nat) (steps : List (System × Event)) (x : System) : Prop where
  turns : ∃ queue, Turns cpus x.pcs x.dev.vq.virtqLock queue
  held : ∃ holder, Paired (lockOps steps) holder ∧ HeldBy holder x.pcs x.dev.vq.virtqLock
  entries : Entries steps x.pcs

section
variable {cpus : Nat} {steps : List (System × Event)} {x y x₀ : System}

theorem Orderly.outside {e : Event} (h : Orderly cpus steps x) (hActor : actor (x, e) = none)
    (hTurns : ∃ queue, Turns cpus y.pcs y.dev.vq.virtqLock queue)
    (hHeld : ∀ holder, HeldBy holder x.pcs x.dev.vq.virtqLock → HeldBy holder y.pcs y.dev.vq.virtqLock)
    (hPcs : ∀ cpu, (y.pcs cpu).hasEntry = (x.pcs cpu).hasEntry) :
    Orderly cpus ((x, e) :: steps) y := by
  obtain ⟨holder, hPaired, hBy⟩ := h.held
  have hOp : lockOp (x, e) = none := by rw [lockOp, hActor, Option.bind_none]
  have hSnd : ∀ pc, (actor (x, e)).map Prod.snd ≠ some pc := by simp [hActor]
  refine ⟨hTurns, ⟨holder, ?_, hHeld holder hBy⟩, h.entries.same (hSnd _) (hSnd _) hPcs⟩
  rw [lockOps, List.filterMap_cons_none hOp]
  exact hPaired

theorem Orderly.write {offset val n : Nat} {s : Backend} (h : Orderly cpus steps x)
    (hCalm : Calm cpus ((x, .write offset val) :: steps)) (hOffset : offset ≠ 0x50)
    (hWrite : virtioMmioWrite n x.dev offset val = .ok s) :
    Orderly cpus ((x, .write offset val) :: steps) { x with dev := s } := by
  obtain ⟨queue, hTurns⟩ := h.turns
  rcases virtioMmioWrite_cases hOffset hWrite with ⟨_, hVq⟩ | ⟨rfl, pa, _, hVq⟩ | ⟨_, _, hVq⟩
  · have hLock : s.vq.virtqLock = x.dev.vq.virtqLock := by rw [hVq]
    refine h.outside rfl ⟨queue, ?_⟩ (fun holder hBy => ?_) (fun _ => rfl)
    · rw [hLock]
      exact hTurns
    · rw [hLock]
      exact hBy
  · have hNone := hCalm.pfn x val List.mem_cons_self
    have hLock : s.vq.virtqLock = .init := by rw [hVq, VirtQueue.ringAt]
    refine h.outside rfl ⟨[], ?_⟩ (fun holder hBy => ?_) (fun _ => rfl)
    · rw [hLock]
      exact turns_nil hNone hTurns.lt rfl (by decide)
    · rw [hLock]
      have hFree : ∀ cpu, (x.pcs cpu).holds = false := by
        intro cpu
        cases hb : (x.pcs cpu).holds with
        | false => rfl
        | true => exact absurd (Pc.inLine_of_holds hb) (by rw [hNone]; decide)
      cases hBy.none_of_not_holds hFree
      exact ⟨hBy.holds_iff, by simp⟩
  · refine h.outside rfl ⟨queue, ?_⟩ (fun holder hBy => ?_) (fun _ => rfl)
    · rw [hVq]
      exact hTurns
    · rw [hVq]
      exact hBy

theorem Orderly.handler {cpu : Nat} {pc : Pc} {s : Backend} (h : Orderly cpus steps x) (hCpus : cpus < 2 ^ 32)
    (hStep : handlerStep x.dev (x.pcs cpu) = .ok (pc, s)) :
    Orderly cpus ((x, .handler cpu) :: steps) ⟨Function.update x.pcs cpu pc, s⟩ := by
  obtain ⟨queue, hTurns⟩ := h.turns
  obtain ⟨holder, hPaired, hBy⟩ := h.held
  have hMove := handlerStep_lockMove hStep
  have hOps : lockOps ((x, .handler cpu) :: steps) =
      (opAt x.dev.vq.virtqLock cpu (x.pcs cpu)).toList ++ lockOps steps := by
    have hOp : lockOp (x, .handler cpu) = opAt x.dev.vq.virtqLock cpu (x.pcs cpu) := rfl
    rw [← hOp]
    cases hCase : lockOp (x, .handler cpu) with
    | none => exact List.filterMap_cons_none hCase
    | some op => exact List.filterMap_cons_some hCase
  refine ⟨?_, ?_, h.entries.handler hTurns hStep⟩
  · by_cases hIdle : x.pcs cpu = .idle
    · have hSame : Function.update x.pcs cpu .idle = x.pcs := by rw [← hIdle, Function.update_eq_self]
      rw [hIdle] at hStep
      cases hStep
      rw [hSame]
      exact ⟨queue, hTurns⟩
    · exact hTurns.move hCpus (hTurns.lt cpu hIdle) hMove
  · rw [hOps]
    exact hBy.move hPaired hTurns hCpus hMove

theorem Run.orderly (hCpus : cpus < 2 ^ 32) (hIdle : ∀ cpu, x₀.pcs cpu = .idle) (hBoot : x₀.dev.vq = bootQueue)
    (hRun : Run x₀ steps x) (hCalm : Calm cpus steps) : Orderly cpus steps x := by
  induction hRun with
  | start =>
    have hNot : ∀ cpu, (x₀.pcs cpu).holds = false := fun cpu => by rw [hIdle cpu]; rfl
    refine ⟨⟨[], ?_⟩, ⟨none, .nil, fun cpu => by simp [hNot], nofun⟩, ⟨List.nodup_nil, nofun⟩⟩
    rw [hBoot]
    exact turns_nil (fun cpu => by rw [hIdle cpu]; rfl) (fun cpu hBusy => (hBusy (hIdle cpu)).elim) rfl (by decide)
  | @step steps x y e _ hStep ih =>
    have hPast := ih hCalm.tail
    cases hStep with
    | guest hSame => exact hPast.outside rfl hPast.turns (fun _ hBy => hBy) (fun _ => rfl)
    | read hRead => exact hPast.outside rfl hPast.turns (fun _ hBy => hBy) (fun _ => rfl)
    | write hOffset hWrite => exact hPast.write hCalm hOffset hWrite
    | handler hStep => exact hPast.handler hCpus hStep
    | notify hIdle =>
      obtain ⟨queue, hTurns⟩ := hPast.turns
      have hFew := hCalm.few _ _ List.mem_cons_self
      refine hPast.outside rfl ⟨queue, hTurns.keep hFew ?_ ?_ nofun⟩ (fun holder hBy => hBy.update ?_ rfl)
        (fun b => ?_)
      · rw [hIdle]
        rfl
      · exact nofun
      · rw [hIdle]
        rfl
      · exact pc_update Pc.hasEntry b (by rw [hIdle]; rfl)

theorem queue_exclusive (hCpus : cpus < 2 ^ 32) (hIdle : ∀ cpu, x₀.pcs cpu = .idle)
    (hBoot : x₀.dev.vq = bootQueue) (hRun : Run x₀ steps x) (hCalm : Calm cpus steps) : Exclusive steps x := by
  have h := hRun.orderly hCpus hIdle hBoot hCalm
  obtain ⟨queue, hTurns⟩ := h.turns
  obtain ⟨holder, hPaired, hBy⟩ := h.held
  exact ⟨fun a b => hTurns.holder_unique, ⟨holder, hPaired, hBy.holds_iff⟩, hRun.availIdx hBoot,
    h.entries.nodup⟩

end

theorem Run.handler {x₀ : System} {steps : List (System × Event)} {pcs : Nat → Pc} {cpu : Nat} {pc : Pc}
    {s : Backend} (hRun : Run x₀ steps ⟨Function.update pcs cpu pc, s⟩) (pc' : Pc) (t : Backend)
    (hStep : handlerStep s pc = .ok (pc', t)) :
    Run x₀ ((⟨Function.update pcs cpu pc, s⟩, .handler cpu) :: steps) ⟨Function.update pcs cpu pc', t⟩ := by
  have hAt : handlerStep s (Function.update pcs cpu pc cpu) = .ok (pc', t) := by
    rw [Function.update_self]
    exact hStep
  have hRun' := hRun.step (.handler hAt)
  rwa [Function.update_idem] at hRun'

theorem calm_configured (cpus : Nat) (m page : Mem) : Calm cpus (configureSteps (fun _ => .idle) m page) := by
  have hNil : Calm cpus [] := ⟨nofun, nofun⟩
  have hSized : Calm cpus [(⟨fun _ => .idle, pageBackend m page bootQueue []⟩, .write 0x38 8)] :=
    hNil.cons nofun nofun
  exact hSized.cons (fun _ _ _ => rfl) nofun

/-- The vcpu 0 configures the queue and its lock is granted. -/
theorem queue_exclusive_granted : ∃ s' steps x, createVm bootHypervisor (some smallCfg) = .ok s' ∧
    Run ⟨fun _ => .idle, pageBackend s'.host.mem ringPage bootQueue []⟩ steps x ∧ Exclusive steps x ∧
    lockOps steps = [.grant 0 0] := by
  obtain ⟨s', node, hCreate, hSpace, hWalk, _⟩ := smallSpace
  have hRun := (run_configured (fun _ => .idle) ringPage hSpace hWalk).notify 0 rfl
  have hTest := ((hRun.handler .lock _ rfl).handler (.wait 0) _ rfl).handler .test _ rfl
  refine ⟨s', _, _, hCreate, hTest, queue_exclusive (show 2 < 2 ^ 32 by decide) (fun _ => rfl) rfl hTest ?_, rfl⟩
  apply Calm.handler
  apply Calm.handler
  apply Calm.handler
  apply (calm_configured 2 _ _).cons
  · exact nofun
  · rintro _ ⟨⟩
    decide

/-- Some run leads to a system in which `avail_idx` was never advanced. -/
def Leads (x₀ : System) (log : List (Nat × Nat)) (pcs : Nat → Pc) (s : Backend) : Prop :=
  ∃ steps, Run x₀ steps ⟨pcs, s⟩ ∧ fetched steps = log ∧ entriesDone steps = 0

section
variable {x₀ : System} {log : List (Nat × Nat)} {pcs : Nat → Pc} {cpu : Nat} {s : Backend} {m page : Mem}

theorem Leads.handler {pc : Pc} (h : Leads x₀ log (Function.update pcs cpu pc) s) (pc' : Pc) (t : Backend)
    (hStep : handlerStep s pc = .ok (pc', t)) (hFetch : pc ≠ .fetch) (hNext : pc ≠ .next) :
    Leads x₀ log (Function.update pcs cpu pc') t := by
  obtain ⟨steps, hRun, hLog, hDone⟩ := h
  refine ⟨_, hRun.handler pc' t hStep, ?_, ?_⟩
  · rw [fetched_cons_ne (by simpa [actor] using hFetch), hLog]
  · rw [entriesDone_cons_ne (by simpa [actor] using hNext), hDone]

theorem Leads.fetch (h : Leads x₀ log (Function.update pcs cpu .fetch) s) :
    Leads x₀ ((cpu, 0) :: log) (Function.update pcs cpu (.process (nextHead s).1)) (nextHead s).2 := by
  obtain ⟨steps, hRun, hLog, hDone⟩ := h
  refine ⟨_, hRun.handler _ _ rfl, ?_, ?_⟩
  · simp only [fetched, actor, Function.update_self, hLog, hDone]
  · rw [entriesDone_cons_ne (by simp [actor]), hDone]

theorem Leads.notify (h : Leads x₀ log pcs s) (hIdle : pcs cpu = .idle) :
    Leads x₀ log (Function.update pcs cpu .entry) s := by
  obtain ⟨steps, hRun, hLog, hDone⟩ := h
  exact ⟨_, hRun.notify cpu hIdle, hLog, hDone⟩

theorem Leads.process (hIdx : load page 130 2 = 1) (hHead : load page 132 2 = 0) {l : List Access}
    (h : Leads x₀ log pcs (pageBackend m page smallQueue l)) (hIdle : pcs cpu = .idle) :
    ∃ l', Leads x₀ ((cpu, 0) :: log) (Function.update pcs cpu (.process 0)) (pageBackend m page heldQueue l') := by
  have hLoad := load_withPage m page 0x40001000
  have hMore : ∀ l, (virtqAvailable (pageBackend m page heldQueue l)).1 = true := by
    intro l
    change (0 != load (withPage m page 0x40001000) (0x40001000 + 130) 2) = true
    rw [hLoad 130 2 (by decide), hIdx]
    rfl
  have hFirst : ∀ l, (nextHead (pageBackend m page heldQueue l)).1 = 0 := by
    intro l
    exact (hLoad 132 2 (by decide)).trans hHead
  have hEntry := (h.notify hIdle).handler .lock _ rfl Pc.noConfusion Pc.noConfusion
  have hWait := hEntry.handler (.wait 0) (pageBackend m page heldQueue _) rfl Pc.noConfusion Pc.noConfusion
  have hTest := hWait.handler .test _ rfl Pc.noConfusion Pc.noConfusion
  have hMoved : ∀ l, handlerStep (pageBackend m page heldQueue l) .test =
      .ok (.fetch, pageBackend m page heldQueue (⟨false, 0x40001082, 2⟩ :: l)) := by
    intro l
    rw [handlerStep, hMore]
    rfl
  have hFetch := (hTest.handler .fetch _ (hMoved _) Pc.noConfusion Pc.noConfusion).fetch
  rw [hFirst] at hFetch
  exact ⟨_, hFetch⟩

end

/-- While vcpu 0 is in the request loop, vcpu 1 writes the page again and notifies. Both have fetched
the first entry. -/
theorem queue_reset_not_exclusive : ∃ s' steps x, createVm bootHypervisor (some smallCfg) = .ok s' ∧
    Run ⟨fun _ => .idle, pageBackend s'.host.mem ringPage bootQueue []⟩ steps x ∧
    x.pcs 0 = .process 0 ∧ x.pcs 1 = .process 0 ∧ fetched steps = [(1, 0), (0, 0)] ∧ ¬Exclusive steps x := by
  obtain ⟨s', node, hCreate, hSpace, hWalk, _⟩ := smallSpace
  have hStart : Leads ⟨fun _ => .idle, pageBackend s'.host.mem ringPage bootQueue []⟩ [] (fun _ => .idle)
      (pageBackend s'.host.mem ringPage smallQueue []) :=
    ⟨_, run_configured _ _ hSpace hWalk, rfl, rfl⟩
  have hIdx : load ringPage 130 2 = 1 := by decide
  have hHead : load ringPage 132 2 = 0 := by decide
  have hFirst : ∃ l, Leads _ [(0, 0)] (Function.update _ 0 (.process 0)) _ := hStart.process hIdx hHead rfl
  obtain ⟨l, steps, hRun, hLog, hDone⟩ := hFirst
  -- the page written again: both counters of the lock are 0, and vcpu 0 is still past it
  have hReset : Leads ⟨fun _ => .idle, pageBackend s'.host.mem ringPage bootQueue []⟩ [(0, 0)]
      (Function.update (fun _ => .idle) 0 (.process 0)) (pageBackend s'.host.mem ringPage smallQueue l) :=
    ⟨_, hRun.write 0x40 0x80000 _ (by decide) (pageBackend_init hSpace hWalk heldQueue l), hLog, hDone⟩
  have hSecond : ∃ l, Leads _ [(1, 0), (0, 0)] (Function.update _ 1 (.process 0)) _ := hReset.process hIdx hHead rfl
  obtain ⟨l, steps, hRun, hLog, _⟩ := hSecond
  refine ⟨s', steps, _, hCreate, hRun, rfl, rfl, hLog, fun hExclusive => ?_⟩
  exact absurd (hExclusive.one 0 1 rfl rfl) (by decide)

end HyperPoc.Virtio
