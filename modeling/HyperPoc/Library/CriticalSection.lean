import HyperPoc.Library.TicketLock
import Mathlib.Data.Fintype.Card

/-! # Objects behind a ticket lock

Agents call the operations of a shared object. A call is refused on grounds that no call changes, or draws
a ticket, waits for its turn, makes the accesses of its body one by one and hands the lock on. The accesses
of all agents interleave. An object that implements a sequential one does so in every interleaving, with the
calls in the order in which their bodies end.
-/
namespace Library.CriticalSection
open TicketLock
set_option autoImplicit false

variable {α σ Op Ret Loc : Type}

/-- `access` makes the next access of a body, which goes on or ends with a result. -/
structure Object (σ Op Ret Loc : Type) where
  refuse : Op → Option Ret
  start : Op → Loc
  access : σ → Loc → σ × (Loc ⊕ Ret)

/-- The body from `l` on leads from `s` to `s'` and the result `r`, if nothing comes between its accesses. -/
inductive Object.Runs (o : Object σ Op Ret Loc) : σ → Loc → σ → Ret → Prop
  | last {s s' : σ} {l : Loc} {r : Ret} (h : o.access s l = (s', .inr r)) : Runs o s l s' r
  | more {s s₁ s' : σ} {l l₁ : Loc} {r : Ret} (h : o.access s l = (s₁, .inl l₁))
    (rest : Runs o s₁ l₁ s' r) :
      Runs o s l s' r

structure Object.Implements (o : Object σ Op Ret Loc) (Inv : σ → Prop) (spec : σ → Op → σ × Ret) : Prop where
  refused : ∀ s op r, Inv s → o.refuse op = some r → spec s op = (s, r)
  runs : ∀ s op, Inv s → o.refuse op = none → o.Runs s (o.start op) (spec s op).1 (spec s op).2
  keeps : ∀ s op, Inv s → Inv (spec s op).1

inductive Pc (Op Ret Loc : Type)
  | idle
  | wait (op : Op) (ticket : Nat)
  | inside (op : Op) (l : Loc)
  | leaving (op : Op) (r : Ret)
  | storing (op : Op) (r : Ret) (next : Nat)

namespace Pc

def ticket : Pc Op Ret Loc → Option Nat
  | .wait _ t => some t
  | _ => none

def Waits : Pc Op Ret Loc → Prop
  | .idle => False
  | _ => True

def Holds : Pc Op Ret Loc → Prop
  | .idle | .wait _ _ => False
  | _ => True

/-- The body of the call is under way. -/
def Inside : Pc Op Ret Loc → Prop
  | .inside _ _ => True
  | _ => False

end Pc

/-- `log` has the calls whose bodies are over, with their results. -/
structure System (α σ Op Ret Loc : Type) where
  pcs : α → Pc Op Ret Loc
  ticket : Nat
  next : Nat
  shared : σ
  log : List (α × Op × Ret)

def System.start (s : σ) : System α σ Op Ret Loc := ⟨fun _ => .idle, 0, 0, s, []⟩

section
variable [DecidableEq α]

/-- The next access of agent `a`, which begins the call `op` if it is idle. -/
def System.step (o : Object σ Op Ret Loc) (M : Nat) (x : System α σ Op Ret Loc) (a : α) (op : Op) :
    System α σ Op Ret Loc :=
  match x.pcs a with
  | .idle =>
    match o.refuse op with
    | some r => { x with log := x.log ++ [(a, op, r)] }
    | none => { x with pcs := Function.update x.pcs a (.wait op x.ticket), ticket := (x.ticket + 1) % M }
  | .wait op t => if t = x.next then { x with pcs := Function.update x.pcs a (.inside op (o.start op)) } else x
  | .inside op l =>
    match o.access x.shared l with
    | (s, .inl l) => { x with pcs := Function.update x.pcs a (.inside op l), shared := s }
    | (s, .inr r) =>
      { x with pcs := Function.update x.pcs a (.leaving op r), shared := s, log := x.log ++ [(a, op, r)] }
  | .leaving op r => { x with pcs := Function.update x.pcs a (.storing op r x.next) }
  | .storing _ _ next => { x with pcs := Function.update x.pcs a .idle, next := (next + 1) % M }

def System.run (o : Object σ Op Ret Loc) (M : Nat) (x : System α σ Op Ret Loc) (schedule : List (α × Op)) :
    System α σ Op Ret Loc := schedule.foldl (fun x p => x.step o M p.1 p.2) x

end

/-- The calls of a log one after the other, with the results the sequential object gives, lead to `s`. -/
inductive History (spec : σ → Op → σ × Ret) (s₀ : σ) : List (α × Op × Ret) → σ → Prop
  | nil : History spec s₀ [] s₀
  | snoc {log : List (α × Op × Ret)} {s : σ} (h : History spec s₀ log s) (a : α) (op : Op) :
      History spec s₀ (log ++ [(a, op, (spec s op).2)]) (spec s op).1

variable {o : Object σ Op Ret Loc} {spec : σ → Op → σ × Ret} {Inv : σ → Prop} {M : Nat} {s₀ s : σ}
  {x : System α σ Op Ret Loc} {a : α}

theorem Object.Runs.of_inl {s s₁ s' : σ} {l l₁ : Loc} {r : Ret} (h : o.Runs s l s' r)
    (hAccess : o.access s l = (s₁, .inl l₁)) : o.Runs s₁ l₁ s' r := by
  cases h with
  | last hLast =>
    rw [hAccess] at hLast
    cases hLast
  | more hMore rest =>
    rw [hAccess] at hMore
    cases hMore
    exact rest

theorem Object.Runs.of_inr {s s₁ s' : σ} {l : Loc} {r r₁ : Ret} (h : o.Runs s l s' r)
    (hAccess : o.access s l = (s₁, .inr r₁)) : s₁ = s' ∧ r₁ = r := by
  cases h with
  | last hLast =>
    rw [hAccess] at hLast
    cases hLast
    exact ⟨rfl, rfl⟩
  | more hMore rest =>
    rw [hAccess] at hMore
    cases hMore

theorem History.inv {log : List (α × Op × Ret)} (h : History spec s₀ log s) (hImpl : o.Implements Inv spec)
    (hInv : Inv s₀) : Inv s := by
  induction h with
  | nil => exact hInv
  | snoc _ a op ih => exact hImpl.keeps _ op ih

theorem History.append_inv {log log' : List (α × Op × Ret)} (h : History spec s₀ (log ++ log') s) :
    ∃ s₁, History spec s₀ log s₁ ∧ History spec s₁ log' s := by
  induction log' using List.reverseRecOn generalizing s with
  | nil =>
    rw [List.append_nil] at h
    exact ⟨s, h, .nil⟩
  | append_singleton log' e ih =>
    rw [← List.append_assoc] at h
    generalize hAll : log ++ log' ++ [e] = all at h
    cases h with
    | nil => simp at hAll
    | snoc hPrev a op =>
      obtain ⟨rfl, hLast⟩ := List.append_inj' hAll rfl
      cases hLast
      obtain ⟨s₁, hFirst, hSecond⟩ := ih hPrev
      exact ⟨s₁, hFirst, hSecond.snoc a op⟩

theorem History.cons_inv {log : List (α × Op × Ret)} {op : Op} {r : Ret}
    (h : History spec s₀ ((a, op, r) :: log) s) :
    r = (spec s₀ op).2 ∧ History spec (spec s₀ op).1 log s := by
  rw [← List.singleton_append] at h
  obtain ⟨s₁, hFirst, hRest⟩ := h.append_inv
  generalize hAll : [(a, op, r)] = all at hFirst
  cases hFirst with
  | nil => cases hAll
  | snoc hPrev b op' =>
    rw [← List.nil_append [(a, op, r)]] at hAll
    obtain ⟨hNil, hLast⟩ := List.append_inj' hAll rfl
    cases hLast
    rw [← hNil] at hPrev
    generalize hEmpty : ([] : List (α × Op × Ret)) = none at hPrev
    cases hPrev with
    | nil => exact ⟨rfl, hRest⟩
    | snoc _ _ _ => simp at hEmpty

/-- The lock is held by the first in line. The sequential object is in state `s` after the calls that are
over, which is the state of the shared one unless a body is under way: then that body leads to what the
sequential object does next. -/
structure Linearized (o : Object σ Op Ret Loc) (spec : σ → Op → σ × Ret) (M : Nat) (s₀ : σ)
    (x : System α σ Op Ret Loc) (queue : List α) (s : σ) : Prop where
  queued : Queued M Pc.ticket Pc.Waits Pc.Holds x.ticket x.next x.pcs queue
  loaded : ∀ a op r next, x.pcs a = .storing op r next → next = x.next
  history : History spec s₀ x.log s
  settled : (∀ a, ¬(x.pcs a).Inside) → x.shared = s
  pending : ∀ a op l, x.pcs a = .inside op l → o.Runs x.shared l (spec s op).1 (spec s op).2
  recorded : ∀ a op r, (x.pcs a = .leaving op r ∨ ∃ next, x.pcs a = .storing op r next) → (a, op, r) ∈ x.log

theorem linearized_start (hM : 0 < M) (s₀ : σ) :
    Linearized o spec M s₀ (System.start s₀ : System α σ Op Ret Loc) [] s₀ where
  queued := ⟨.empty hM _, fun _ => iff_of_false List.not_mem_nil id, fun _ h => h.elim⟩
  loaded := by
    intro a op r next h
    cases h
  history := .nil
  settled _ := rfl
  pending := by
    intro a op l h
    cases h
  recorded := by
    rintro a op r (h | ⟨next, h⟩)
    · cases h
    · cases h

section
variable {queue : List α}

theorem Linearized.alone (h : Linearized o spec M s₀ x queue s) (hHolds : (x.pcs a).Holds) {b : α} (hb : b ≠ a) :
    ¬(x.pcs b).Holds := fun hOther => hb (h.queued.holder_unique hOther hHolds)

theorem Pc.Inside.holds {pc : Pc Op Ret Loc} (h : pc.Inside) : pc.Holds := by
  cases pc with
  | inside op l => trivial
  | idle => cases h
  | wait op ticket => cases h
  | leaving op r => cases h
  | storing op r next => cases h

theorem Linearized.refuse (h : Linearized o spec M s₀ x queue s) (hImpl : o.Implements Inv spec) (hInv : Inv s₀)
    {op : Op} {r : Ret} (hRefuse : o.refuse op = some r) (a : α) :
    Linearized o spec M s₀ { x with log := x.log ++ [(a, op, r)] } queue s := by
  have hSpec := hImpl.refused s op r (h.history.inv hImpl hInv) hRefuse
  have hHistory := h.history.snoc a op
  rw [hSpec] at hHistory
  exact ⟨h.queued, h.loaded, hHistory, h.settled, h.pending,
    fun b op' r' hPc => List.mem_append_left _ (h.recorded b op' r' hPc)⟩

variable [DecidableEq α]

theorem Linearized.loaded_update (h : Linearized o spec M s₀ x queue s) {pc : Pc Op Ret Loc}
    (hPc : ∀ op r v, pc = .storing op r v → v = x.next) :
    ∀ b op r v, Function.update x.pcs a pc b = .storing op r v → v = x.next :=
  (Function.forall_update_iff x.pcs (fun _ pc => ∀ op r v, pc = .storing op r v → v = x.next)).mpr
    ⟨hPc, fun b _ => h.loaded b⟩

theorem Linearized.recorded_update (h : Linearized o spec M s₀ x queue s) {pc : Pc Op Ret Loc}
    {log : List (α × Op × Ret)} (hLog : ∀ e ∈ x.log, e ∈ log)
    (hPc : ∀ op r, (pc = .leaving op r ∨ ∃ v, pc = .storing op r v) → (a, op, r) ∈ log) :
    ∀ b op r, (Function.update x.pcs a pc b = .leaving op r ∨
      ∃ v, Function.update x.pcs a pc b = .storing op r v) →
      (b, op, r) ∈ log :=
  (Function.forall_update_iff x.pcs (fun b pc => ∀ op r, (pc = .leaving op r ∨ ∃ v, pc = .storing op r v) →
    (b, op, r) ∈ log)).mpr ⟨hPc, fun b _ op r hb => hLog _ (h.recorded b op r hb)⟩

theorem Linearized.hold (h : Linearized o spec M s₀ x queue s) (hHolds : (x.pcs a).Holds) {pc : Pc Op Ret Loc}
    (hPc : pc.Waits) (hTicket : pc.ticket = none) :
    Queued M Pc.ticket Pc.Waits Pc.Holds x.ticket x.next (Function.update x.pcs a pc) queue := by
  have hFirst := h.queued.first a hHolds
  have hIn := (h.queued.mem_iff a).mp (List.mem_of_getElem? hFirst)
  apply h.queued.keep (iff_of_true hPc hIn) _ fun _ => hFirst
  intro t ht
  rw [hTicket] at ht
  cases ht

theorem Linearized.pending_update (h : Linearized o spec M s₀ x queue s) (hHolds : (x.pcs a).Holds)
    {pc : Pc Op Ret Loc} {s₁ s' : σ} (hPc : ∀ op l, pc = .inside op l →
      o.Runs s₁ l (spec s' op).1 (spec s' op).2) :
    ∀ b op l, Function.update x.pcs a pc b = .inside op l → o.Runs s₁ l (spec s' op).1 (spec s' op).2 := by
  apply (Function.forall_update_iff x.pcs
    (fun _ pc => ∀ op l, pc = .inside op l → o.Runs s₁ l (spec s' op).1 (spec s' op).2)).mpr
  refine ⟨hPc, ?_⟩
  intro b hb op l hInside
  apply (h.alone hHolds hb _).elim
  rw [hInside]
  trivial

theorem Linearized.move (h : Linearized o spec M s₀ x queue s) {pc : Pc Op Ret Loc} {ticket next : Nat}
    {queue' : List α} (hQueued : Queued M Pc.ticket Pc.Waits Pc.Holds ticket next (Function.update x.pcs a pc) queue')
    (hOut : ¬(x.pcs a).Inside) (hPc : ¬pc.Inside)
    (hLoaded : ∀ b op r v, Function.update x.pcs a pc b = .storing op r v → v = next)
    (hRecorded : ∀ op r, (pc = .leaving op r ∨ ∃ v, pc = .storing op r v) → (a, op, r) ∈ x.log) :
    Linearized o spec M s₀ ⟨Function.update x.pcs a pc, ticket, next, x.shared, x.log⟩ queue' s where
  queued := hQueued
  loaded := hLoaded
  history := h.history
  settled := by
    intro hNone
    apply h.settled
    intro b hb
    obtain rfl | hNe := eq_or_ne b a
    · exact hOut hb
    · apply hNone b
      dsimp only
      rwa [Function.update_of_ne hNe]
  pending := by
    apply (Function.forall_update_iff x.pcs
      (fun _ pc => ∀ op l, pc = .inside op l → o.Runs x.shared l (spec s op).1 (spec s op).2)).mpr
    constructor
    · rintro op l rfl
      exact (hPc trivial).elim
    · intro b _
      exact h.pending b
  recorded := h.recorded_update (fun _ he => he) hRecorded

/-- While the agent is in its body nothing is said about the shared state itself. -/
theorem not_settled {op : Op} {l : Loc} {pcs : α → Pc Op Ret Loc} {P : Prop} :
    (∀ b, ¬(Function.update pcs a (.inside op l) b).Inside) → P := by
  intro hOut
  apply (hOut a _).elim
  rw [Function.update_self]
  trivial

theorem Linearized.draw (h : Linearized o spec M s₀ x queue s) (hPc : x.pcs a = .idle) (op : Op) :
    Linearized o spec M s₀
      ⟨Function.update x.pcs a (.wait op x.ticket), (x.ticket + 1) % M, x.next, x.shared, x.log⟩
      (queue ++ [a]) s := by
  apply h.move
  · exact h.queued.join (by rw [hPc]; exact id) _ rfl trivial id
  · rw [hPc]
    exact id
  · exact id
  · exact h.loaded_update (by simp)
  · simp

theorem Linearized.enter (h : Linearized o spec M s₀ x queue s) (hImpl : o.Implements Inv spec) (hInv : Inv s₀)
    (hShort : queue.length < M) {op : Op} (hAccept : o.refuse op = none) (hPc : x.pcs a = .wait op x.next) :
    Linearized o spec M s₀ { x with pcs := Function.update x.pcs a (.inside op (o.start op)) } queue s := by
  obtain ⟨hHead, hNone⟩ := h.queued.served hShort (a := a) (by rw [hPc]; trivial) (by rw [hPc]; rfl)
    (by rw [hPc]; exact id)
  have hShared : x.shared = s := h.settled fun b hb => hNone b hb.holds
  refine ⟨?_, h.loaded_update (by simp), h.history, not_settled, ?_, h.recorded_update (fun _ he => he) (by simp)⟩
  · apply h.queued.keep
    · rw [hPc]
      exact Iff.rfl
    · intro t ht
      cases ht
    · exact fun _ => hHead
  · apply (Function.forall_update_iff x.pcs
      (fun _ pc => ∀ op l, pc = .inside op l → o.Runs x.shared l (spec s op).1 (spec s op).2)).mpr
    constructor
    · rintro op' l hEq
      cases hEq
      rw [hShared]
      exact hImpl.runs s op (h.history.inv hImpl hInv) hAccept
    · intro b _
      exact h.pending b

theorem Linearized.access (h : Linearized o spec M s₀ x queue s) {op : Op} {l l₁ : Loc} {s₁ : σ}
    (hPc : x.pcs a = .inside op l) (hAccess : o.access x.shared l = (s₁, .inl l₁)) :
    Linearized o spec M s₀ { x with pcs := Function.update x.pcs a (.inside op l₁), shared := s₁ } queue s := by
  have hHolds : (x.pcs a).Holds := by
    rw [hPc]
    trivial
  refine ⟨h.hold hHolds trivial rfl, h.loaded_update (by simp), h.history, not_settled, h.pending_update hHolds ?_,
    h.recorded_update (fun _ he => he) (by simp)⟩
  intro op' l' hEq
  cases hEq
  exact (h.pending a op l hPc).of_inl hAccess

/-- With its last access a body takes effect, and the sequential object makes the call. -/
theorem Linearized.finish (h : Linearized o spec M s₀ x queue s) {op : Op} {l : Loc} {s₁ : σ} {r : Ret}
    (hPc : x.pcs a = .inside op l) (hAccess : o.access x.shared l = (s₁, .inr r)) :
    Linearized o spec M s₀
      { x with pcs := Function.update x.pcs a (.leaving op r), shared := s₁, log := x.log ++ [(a, op, r)] } queue
      (spec s op).1 := by
  have hHolds : (x.pcs a).Holds := by
    rw [hPc]
    trivial
  obtain ⟨rfl, rfl⟩ := (h.pending a op l hPc).of_inr hAccess
  refine ⟨h.hold hHolds trivial rfl, h.loaded_update (by simp), h.history.snoc a op, fun _ => rfl,
    h.pending_update hHolds (by simp), h.recorded_update (fun _ he => List.mem_append_left _ he) ?_⟩
  rintro _ _ (hEq | ⟨_, hEq⟩)
  · cases hEq
    exact List.mem_append_right _ List.mem_cons_self
  · cases hEq

theorem Linearized.load (h : Linearized o spec M s₀ x queue s) {op : Op} {r : Ret} (hPc : x.pcs a = .leaving op r) :
    Linearized o spec M s₀ { x with pcs := Function.update x.pcs a (.storing op r x.next) } queue s := by
  have hHolds : (x.pcs a).Holds := by
    rw [hPc]
    trivial
  have hKept : Queued M Pc.ticket Pc.Waits Pc.Holds x.ticket x.next
      (Function.update x.pcs a (.storing op r x.next)) queue := h.hold hHolds trivial rfl
  apply h.move hKept
  · rw [hPc]
    exact id
  · exact id
  · apply h.loaded_update
    intro _ _ _ hEq
    cases hEq
    rfl
  · rintro _ _ (hEq | ⟨_, hEq⟩)
    · cases hEq
    · cases hEq
      exact h.recorded a op r (.inl hPc)

theorem Linearized.store (h : Linearized o spec M s₀ x queue s) {op : Op} {r : Ret} {next : Nat}
    (hPc : x.pcs a = .storing op r next) :
    ∃ queue', Linearized o spec M s₀
      { x with pcs := Function.update x.pcs a .idle, next := (next + 1) % M } queue' s := by
  have hHolds : (x.pcs a).Holds := by
    rw [hPc]
    trivial
  obtain ⟨rest, rfl⟩ : ∃ rest, queue = a :: rest := by
    have hFirst := h.queued.first a hHolds
    cases queue with
    | nil => cases hFirst
    | cons b rest =>
      cases hFirst
      exact ⟨rest, rfl⟩
  obtain rfl := h.loaded a op r next hPc
  refine ⟨rest, h.move (h.queued.leave hHolds .idle id id) ?_ id ?_ (by simp)⟩
  · rw [hPc]
    exact id
  · apply (Function.forall_update_iff x.pcs (fun _ pc => ∀ op r v, pc = .storing op r v →
      v = (x.next + 1) % M)).mpr
    constructor
    · simp
    · intro b hb op' r' v hStoring
      apply (h.alone hHolds hb _).elim
      rw [hStoring]
      trivial

end

section
variable [DecidableEq α]

/-- Agents wait only with calls that have not been refused. -/
def System.Accepted (o : Object σ Op Ret Loc) (x : System α σ Op Ret Loc) : Prop :=
  ∀ a op t, x.pcs a = .wait op t → o.refuse op = none

theorem System.Accepted.step (h : x.Accepted o) (a : α) (op : Op) : (x.step o M a op).Accepted o := by
  have hUpdate : ∀ pc : Pc Op Ret Loc, (∀ op t, pc = .wait op t → o.refuse op = none) →
      ∀ b op t, Function.update x.pcs a pc b = .wait op t → o.refuse op = none := by
    intro pc hPc
    exact (Function.forall_update_iff x.pcs (fun _ pc => ∀ op t, pc = .wait op t → o.refuse op = none)).mpr
      ⟨hPc, fun b _ => h b⟩
  rw [System.step]
  cases hPc : x.pcs a with
  | idle =>
    dsimp only
    cases hRefuse : o.refuse op with
    | some r => exact h
    | none =>
      apply hUpdate
      intro op' t hEq
      cases hEq
      exact hRefuse
  | wait op' t =>
    dsimp only
    split
    · exact hUpdate _ (by simp)
    · exact h
  | inside op' l =>
    dsimp only
    split
    · exact hUpdate _ (by simp)
    · exact hUpdate _ (by simp)
  | leaving op' r =>
    exact hUpdate _ (by simp)
  | storing op' r next =>
    exact hUpdate _ (by simp)

def System.Linearizes (o : Object σ Op Ret Loc) (spec : σ → Op → σ × Ret) (M : Nat) (s₀ : σ)
    (x : System α σ Op Ret Loc) :
    Prop := x.Accepted o ∧ ∃ queue s, Linearized o spec M s₀ x queue s

theorem System.Linearizes.step [Fintype α] (h : x.Linearizes o spec M s₀) (hImpl : o.Implements Inv spec)
    (hInv : Inv s₀) (hCard : Fintype.card α < M) (a : α) (op : Op) :
    (x.step o M a op).Linearizes o spec M s₀ := by
  obtain ⟨hAccepted, queue, s, hLin⟩ := h
  refine ⟨hAccepted.step a op, ?_⟩
  have hShort : queue.length < M := Nat.lt_of_le_of_lt hLin.queued.order.nodup.length_le_card hCard
  rw [System.step]
  cases hPc : x.pcs a with
  | idle =>
    dsimp only
    cases hRefuse : o.refuse op with
    | some r => exact ⟨queue, s, hLin.refuse hImpl hInv hRefuse a⟩
    | none => exact ⟨queue ++ [a], s, hLin.draw hPc op⟩
  | wait op' t =>
    dsimp only
    split
    · rename_i hTurn
      rw [hTurn] at hPc
      exact ⟨queue, s, hLin.enter hImpl hInv hShort (hAccepted a op' _ hPc) hPc⟩
    · exact ⟨queue, s, hLin⟩
  | inside op' l =>
    dsimp only
    split
    · rename_i hAccess
      exact ⟨queue, s, hLin.access hPc hAccess⟩
    · rename_i hAccess
      exact ⟨queue, _, hLin.finish hPc hAccess⟩
  | leaving op' r => exact ⟨queue, s, hLin.load hPc⟩
  | storing op' r next =>
    obtain ⟨queue', hLeft⟩ := hLin.store hPc
    exact ⟨queue', s, hLeft⟩

/-- Every interleaving of the accesses of fewer than `M` agents is a sequence of calls. -/
theorem System.linearizes_run [Fintype α] (hImpl : o.Implements Inv spec) (hInv : Inv s₀)
    (hCard : Fintype.card α < M) (schedule : List (α × Op)) :
    ((System.start s₀ : System α σ Op Ret Loc).run o M schedule).Linearizes o spec M s₀ := by
  have hStart : (System.start s₀ : System α σ Op Ret Loc).Linearizes o spec M s₀ := by
    refine ⟨?_, [], s₀, linearized_start (Nat.zero_lt_of_lt hCard) s₀⟩
    intro a op t hEq
    cases hEq
  generalize (System.start s₀ : System α σ Op Ret Loc) = x at hStart ⊢
  induction schedule generalizing x with
  | nil => exact hStart
  | cons p schedule ih => exact ih (x.step o M p.1 p.2) (hStart.step hImpl hInv hCard p.1 p.2)

end

end Library.CriticalSection
