import HyperPoc.Library.TicketLock
import HyperPoc.Spinlock
import Mathlib.Data.Fintype.Card

/-! # Whole runs of the ticket lock

Cpus draw tickets, wait for their turn and hand the lock on in two accesses. The cpus that have drawn a
ticket and not yet handed on stand in line, and only the first of them is past its `spin_lock`. With fewer
than `2 ^ 32` cpus the wrapping counters tell the places of the line apart.
-/
namespace HyperPoc.Spinlock
open Library.TicketLock
set_option autoImplicit false

/-- Where a cpu stands: outside, polling with its ticket, past `spin_lock`, or between the load and the
store of `spin_unlock`. -/
inductive LockPc
  | out
  | wait (ticket : Nat)
  | inside
  | storing (next : Nat)
  deriving DecidableEq

def LockPc.holds : LockPc → Bool
  | .inside | .storing _ => true
  | _ => false

def LockPc.ticket : LockPc → Option Nat
  | .wait t => some t
  | _ => none

/-- An exclusive store that fails is tried again with nothing changed, so that drawing is one step. -/
def lockStep (l : Spinlock) : LockPc → LockPc × Spinlock
  | .out => (.wait l.takeTicket.1, l.takeTicket.2)
  | .wait ticket => (if l.granted ticket then .inside else .wait ticket, l)
  | .inside => (.storing l.next, l)
  | .storing next => (.out, l.storeNext next)

/-- The cpus, the lock, and two histories that no code reads: the cpus that drew a ticket and those whose
ticket was granted, each with the ticket. -/
structure Lockers (n : Nat) where
  pcs : Fin n → LockPc
  lock : Spinlock
  drawn : List (Fin n × Nat)
  grants : List (Fin n × Nat)

section
variable {n : Nat}

def Lockers.start (n : Nat) : Lockers n := ⟨fun _ => .out, .init, [], []⟩

/-- The next access of a cpu. -/
def Lockers.step (x : Lockers n) (cpu : Fin n) : Lockers n where
  pcs := Function.update x.pcs cpu (lockStep x.lock (x.pcs cpu)).1
  lock := (lockStep x.lock (x.pcs cpu)).2
  drawn := match x.pcs cpu with
    | .out => x.drawn ++ [(cpu, x.lock.takeTicket.1)]
    | _ => x.drawn
  grants := match x.pcs cpu with
    | .wait ticket => if x.lock.granted ticket then x.grants ++ [(cpu, ticket)] else x.grants
    | _ => x.grants

def Lockers.run (x : Lockers n) (schedule : List (Fin n)) : Lockers n := schedule.foldl Lockers.step x

/-- The cpus that have drawn a ticket after the first `k` draws. -/
def queue (drawn : List (Fin n × Nat)) (k : Nat) : List (Fin n) := (drawn.drop k).map Prod.fst

/-- The first `k` cpus that drew a ticket have handed the lock on, and the others are in line. -/
structure InTurn (pcs : Fin n → LockPc) (l : Spinlock) (drawn : List (Fin n × Nat)) (k : Nat) : Prop where
  order : Line (2 ^ 32) l.ticket l.next (fun cpu => (pcs cpu).ticket) (queue drawn k)
  next_eq : l.next = k % 2 ^ 32
  le : k ≤ drawn.length
  tickets : ∀ i p, drawn[i]? = some p → p.2 = i % 2 ^ 32
  mem_iff : ∀ cpu, cpu ∈ queue drawn k ↔ pcs cpu ≠ .out
  first : ∀ cpu, (pcs cpu).holds = true → (queue drawn k)[0]? = some cpu
  loaded : ∀ cpu next, pcs cpu = .storing next → next = l.next

/-- The grants are the first `k` draws, and the next one while some cpu is past the lock. -/
structure GrantedInOrder (pcs : Fin n → LockPc) (drawn grants : List (Fin n × Nat)) (k : Nat) : Prop where
  free : (∀ cpu, (pcs cpu).holds = false) → grants = drawn.take k
  held : ∀ cpu, (pcs cpu).holds = true → grants = drawn.take (k + 1)

variable {pcs : Fin n → LockPc} {l : Spinlock} {drawn grants : List (Fin n × Nat)} {k : Nat} {cpu : Fin n}

theorem queue_getElem? (drawn : List (Fin n × Nat)) (k i : Nat) :
    (queue drawn k)[i]? = (drawn[k + i]?).map Prod.fst := by
  rw [queue, List.getElem?_map, List.getElem?_drop]

theorem InTurn.queued (h : InTurn pcs l drawn k) :
    Queued (2 ^ 32) LockPc.ticket (· ≠ .out) (LockPc.holds · = true) l.ticket l.next pcs (queue drawn k) :=
  ⟨h.order, h.mem_iff, h.first⟩

theorem InTurn.queue_length_le (h : InTurn pcs l drawn k) : (queue drawn k).length ≤ n := by
  have hCard := h.order.nodup.length_le_card
  rwa [Fintype.card_fin] at hCard

theorem InTurn.holder_unique (h : InTurn pcs l drawn k) {a b : Fin n} (ha : (pcs a).holds = true)
    (hb : (pcs b).holds = true) : a = b := h.queued.holder_unique ha hb

theorem InTurn.drawn_lt (h : InTurn pcs l drawn k) (hHolds : (pcs cpu).holds = true) : k < drawn.length := by
  have hFirst := h.first cpu hHolds
  rw [queue_getElem?, Option.map_eq_some_iff] at hFirst
  obtain ⟨p, hp, _⟩ := hFirst
  exact (List.getElem?_eq_some_iff.mp hp).1

/-- A ticket is the number of the draw, modulo the width of the counter. -/
theorem InTurn.ticket_eq (h : InTurn pcs l drawn k) : l.ticket = drawn.length % 2 ^ 32 := by
  have hTicket := h.order.ticket_eq
  have hLe := h.le
  rw [h.next_eq, queue, List.length_map, List.length_drop] at hTicket
  omega

theorem InTurn.served (h : InTurn pcs l drawn k) (hn : n < 2 ^ 32) (hPc : pcs cpu = .wait l.next) :
    (queue drawn k)[0]? = some cpu ∧ ∀ b, (pcs b).holds = false := by
  have hLe := h.queue_length_le
  obtain ⟨hHead, hNone⟩ := h.queued.served (a := cpu) (by omega) (by simp [hPc]) (by rw [hPc]; rfl)
    (by simp [hPc, LockPc.holds])
  exact ⟨hHead, fun b => Bool.eq_false_iff.mpr (hNone b)⟩

theorem InTurn.draw (h : InTurn pcs l drawn k) (hPc : pcs cpu = .out) :
    InTurn (Function.update pcs cpu (.wait l.ticket)) l.takeTicket.2 (drawn ++ [(cpu, l.ticket)]) k := by
  have hQueued := h.queued.join (not_not.mpr hPc) (.wait l.ticket) rfl nofun Bool.false_ne_true
  have hQueue : queue (drawn ++ [(cpu, l.ticket)]) k = queue drawn k ++ [cpu] := by
    rw [queue, List.drop_append_of_le_length h.le, List.map_append]
    rfl
  rw [← hQueue] at hQueued
  refine ⟨hQueued.order, h.next_eq, ?_, ?_, hQueued.mem_iff, hQueued.first, ?_⟩
  · rw [List.length_append]
    exact Nat.le_add_right_of_le h.le
  · intro i p hi
    obtain hLt | hGe := Nat.lt_or_ge i drawn.length
    · rw [List.getElem?_append_left hLt] at hi
      exact h.tickets i p hi
    · rw [List.getElem?_append_right hGe] at hi
      obtain ⟨hZero, rfl⟩ : i - drawn.length = 0 ∧ (cpu, l.ticket) = p := by
        simpa [List.getElem?_singleton] using hi
      have hLast : i = drawn.length := by omega
      rw [hLast]
      exact h.ticket_eq
  · apply (Function.forall_update_iff pcs (fun _ pc => ∀ next, pc = .storing next →
      next = l.takeTicket.2.next)).mpr
    constructor
    · simp
    · intro b _
      exact h.loaded b

theorem InTurn.advance (h : InTurn pcs l drawn k) (hHead : (queue drawn k)[0]? = some cpu) {pc : LockPc}
    (hHolds : pc.holds = true) (hLoaded : ∀ next, pc = .storing next → next = l.next) :
    InTurn (Function.update pcs cpu pc) l drawn k := by
  have hIn : pcs cpu ≠ .out := (h.mem_iff cpu).mp (List.mem_of_getElem? hHead)
  have hTicket : ∀ t, pc.ticket = some t → (pcs cpu).ticket = some t := by
    intro t ht
    cases pc <;> simp [LockPc.holds, LockPc.ticket] at hHolds ht
  have hPc : pc ≠ .out := by
    rintro rfl
    cases hHolds
  have hQueued := h.queued.keep (iff_of_true hPc hIn) hTicket fun _ => hHead
  refine ⟨hQueued.order, h.next_eq, h.le, h.tickets, hQueued.mem_iff, hQueued.first, ?_⟩
  exact (Function.forall_update_iff pcs (fun _ pc => ∀ next, pc = .storing next → next = l.next)).mpr
    ⟨hLoaded, fun b _ => h.loaded b⟩

theorem InTurn.leave (h : InTurn pcs l drawn k) {next : Nat} (hPc : pcs cpu = .storing next) :
    InTurn (Function.update pcs cpu .out) (l.storeNext next) drawn (k + 1) := by
  have hHolds : (pcs cpu).holds = true := by
    rw [hPc]
    rfl
  have hFirst := h.first cpu hHolds
  have hNext : next = l.next := h.loaded cpu next hPc
  have hQueue : queue drawn k = cpu :: queue drawn (k + 1) := by
    rw [queue_getElem?, Nat.add_zero, Option.map_eq_some_iff] at hFirst
    obtain ⟨p, hp, rfl⟩ := hFirst
    rw [queue, queue, ← List.map_cons, List.drop_eq_getElem_cons (h.drawn_lt hHolds)]
    rw [List.getElem?_eq_some_iff] at hp
    obtain ⟨_, rfl⟩ := hp
    rfl
  have hQueued := h.queued
  rw [hQueue] at hQueued
  have hLeft := hQueued.leave hHolds .out (not_not.mpr rfl) Bool.false_ne_true
  rw [← hNext] at hLeft
  refine ⟨hLeft.order, ?_, h.drawn_lt hHolds, h.tickets, hLeft.mem_iff, hLeft.first, ?_⟩
  · change (next + 1) % 2 ^ 32 = (k + 1) % 2 ^ 32
    rw [hNext, h.next_eq]
    omega
  · apply (Function.forall_update_iff pcs (fun _ pc => ∀ v, pc = .storing v → v = (l.storeNext next).next)).mpr
    constructor
    · simp
    · intro b hNe v hb
      have hb' : (pcs b).holds = true := by
        rw [hb]
        rfl
      exact (hNe (h.holder_unique hb' hHolds)).elim

theorem holds_update {pc : LockPc} (hPc : pc.holds = (pcs cpu).holds) (b : Fin n) :
    (Function.update pcs cpu pc b).holds = (pcs b).holds := by
  obtain rfl | hNe := eq_or_ne b cpu
  · rw [Function.update_self, hPc]
  · rw [Function.update_of_ne hNe]

theorem GrantedInOrder.congr (h : GrantedInOrder pcs drawn grants k) {pc : LockPc} (hPc : pc.holds = (pcs cpu).holds) :
    GrantedInOrder (Function.update pcs cpu pc) drawn grants k := by
  constructor
  · intro hFree
    simp only [holds_update hPc] at hFree
    exact h.free hFree
  · intro b hb
    rw [holds_update hPc] at hb
    exact h.held b hb

theorem GrantedInOrder.draw (h : GrantedInOrder pcs drawn grants k) (hTurn : InTurn pcs l drawn k)
    (p : Fin n × Nat) : GrantedInOrder pcs (drawn ++ [p]) grants k := by
  constructor
  · intro hFree
    rw [List.take_append_of_le_length hTurn.le]
    exact h.free hFree
  · intro b hb
    rw [List.take_append_of_le_length (hTurn.drawn_lt hb)]
    exact h.held b hb

/-- The draw that is served is the next one of the history. -/
theorem GrantedInOrder.grant (h : GrantedInOrder pcs drawn grants k) (hTurn : InTurn pcs l drawn k)
    (hHead : (queue drawn k)[0]? = some cpu) (hNone : ∀ b, (pcs b).holds = false) :
    GrantedInOrder (Function.update pcs cpu .inside) drawn (grants ++ [(cpu, l.next)]) k := by
  have hNext : drawn[k]? = some (cpu, l.next) := by
    rw [queue_getElem?, Nat.add_zero, Option.map_eq_some_iff] at hHead
    obtain ⟨⟨c, t⟩, hp, rfl⟩ := hHead
    rw [hp, hTurn.next_eq, ← hTurn.tickets k _ hp]
  constructor
  · intro hFree
    have hHere := hFree cpu
    rw [Function.update_self] at hHere
    cases hHere
  · intro _ _
    rw [List.take_add_one, hNext, h.free hNone]
    rfl

theorem GrantedInOrder.leave (h : GrantedInOrder pcs drawn grants k) (hTurn : InTurn pcs l drawn k)
    (hHolds : (pcs cpu).holds = true) : GrantedInOrder (Function.update pcs cpu .out) drawn grants (k + 1) := by
  constructor
  · intro _
    exact h.held cpu hHolds
  · apply (Function.forall_update_iff pcs (fun _ pc => pc.holds = true → grants = drawn.take (k + 1 + 1))).mpr
    constructor
    · simp [LockPc.holds]
    · intro b hNe hb
      exact (hNe (hTurn.holder_unique hb hHolds)).elim

def Lockers.Inv (x : Lockers n) : Prop :=
  ∃ k, InTurn x.pcs x.lock x.drawn k ∧ GrantedInOrder x.pcs x.drawn x.grants k

theorem inv_start (n : Nat) : (Lockers.start n).Inv := by
  refine ⟨0, ⟨.empty (Nat.two_pow_pos 32) _, rfl, Nat.le_refl 0, ?_, ?_, ?_, ?_⟩, ?_, ?_⟩
  · simp [Lockers.start]
  · simp [Lockers.start, queue]
  · simp [Lockers.start, LockPc.holds]
  · simp [Lockers.start]
  · simp [Lockers.start]
  · simp [Lockers.start, LockPc.holds]

variable {x : Lockers n}

theorem Lockers.Inv.draw (h : x.Inv) (hPc : x.pcs cpu = .out) : (x.step cpu).Inv := by
  obtain ⟨k, hTurn, hGrants⟩ := h
  have hStep : x.step cpu = ⟨Function.update x.pcs cpu (.wait x.lock.ticket), x.lock.takeTicket.2,
      x.drawn ++ [(cpu, x.lock.ticket)], x.grants⟩ := by
    simp [Lockers.step, hPc, lockStep, takeTicket]
  rw [hStep]
  exact ⟨k, hTurn.draw hPc, (hGrants.draw hTurn _).congr (by rw [hPc]; rfl)⟩

theorem Lockers.Inv.poll (h : x.Inv) (hn : n < 2 ^ 32) {ticket : Nat} (hPc : x.pcs cpu = .wait ticket) :
    (x.step cpu).Inv := by
  obtain ⟨k, hTurn, hGrants⟩ := h
  by_cases hGranted : x.lock.granted ticket = true
  · have hStep : x.step cpu = ⟨Function.update x.pcs cpu .inside, x.lock, x.drawn,
        x.grants ++ [(cpu, ticket)]⟩ := by
      simp [Lockers.step, hPc, lockStep, hGranted]
    have hTicket : ticket = x.lock.next := by simpa [granted] using hGranted
    rw [hTicket] at hPc hStep
    obtain ⟨hHead, hNone⟩ := hTurn.served hn hPc
    rw [hStep]
    exact ⟨k, hTurn.advance hHead rfl (by simp), hGrants.grant hTurn hHead hNone⟩
  · have hPcs : Function.update x.pcs cpu (.wait ticket) = x.pcs := by
      rw [← hPc, Function.update_eq_self]
    have hStep : x.step cpu = x := by
      simp [Lockers.step, hPc, lockStep, hGranted, hPcs]
    rw [hStep]
    exact ⟨k, hTurn, hGrants⟩

theorem Lockers.Inv.load (h : x.Inv) (hPc : x.pcs cpu = .inside) : (x.step cpu).Inv := by
  obtain ⟨k, hTurn, hGrants⟩ := h
  have hStep : x.step cpu = ⟨Function.update x.pcs cpu (.storing x.lock.next), x.lock, x.drawn, x.grants⟩ := by
    simp [Lockers.step, hPc, lockStep]
  have hHead := hTurn.first cpu (by rw [hPc]; rfl)
  rw [hStep]
  refine ⟨k, hTurn.advance hHead rfl ?_, hGrants.congr (by rw [hPc]; rfl)⟩
  intro next hNext
  cases hNext
  rfl

theorem Lockers.Inv.store (h : x.Inv) {next : Nat} (hPc : x.pcs cpu = .storing next) : (x.step cpu).Inv := by
  obtain ⟨k, hTurn, hGrants⟩ := h
  have hStep : x.step cpu = ⟨Function.update x.pcs cpu .out, x.lock.storeNext next, x.drawn, x.grants⟩ := by
    simp [Lockers.step, hPc, lockStep]
  have hHolds : (x.pcs cpu).holds = true := by
    rw [hPc]
    rfl
  rw [hStep]
  exact ⟨k + 1, hTurn.leave hPc, hGrants.leave hTurn hHolds⟩

theorem Lockers.Inv.step (h : x.Inv) (hn : n < 2 ^ 32) (cpu : Fin n) : (x.step cpu).Inv := by
  cases hPc : x.pcs cpu with
  | out => exact h.draw hPc
  | wait ticket => exact h.poll hn hPc
  | inside => exact h.load hPc
  | storing next => exact h.store hPc

theorem Lockers.Inv.run (h : x.Inv) (hn : n < 2 ^ 32) (schedule : List (Fin n)) : (x.run schedule).Inv := by
  induction schedule generalizing x with
  | nil => exact h
  | cons cpu schedule ih => exact ih (h.step hn cpu)

/-- At most one cpu is past the lock, and the lock is granted in the order of the tickets, which are the
numbers of the draws modulo `2 ^ 32`. -/
structure Safe (x : Lockers n) : Prop where
  exclusive : ∀ a b, (x.pcs a).holds = true → (x.pcs b).holds = true → a = b
  order : x.grants <+: x.drawn
  tickets : ∀ i p, x.drawn[i]? = some p → p.2 = i % 2 ^ 32

theorem Lockers.Inv.safe (h : x.Inv) : Safe x := by
  obtain ⟨k, hTurn, hGrants⟩ := h
  refine ⟨fun a b => hTurn.holder_unique, ?_, hTurn.tickets⟩
  by_cases hHeld : ∃ cpu, (x.pcs cpu).holds = true
  · obtain ⟨cpu, hHolds⟩ := hHeld
    rw [hGrants.held cpu hHolds]
    exact List.take_prefix _ _
  · rw [hGrants.free]
    · exact List.take_prefix _ _
    · intro cpu
      by_contra hHolds
      exact hHeld ⟨cpu, by simpa using hHolds⟩

end

/-- From `spinlock_init`, for every interleaving of the accesses of fewer than `2 ^ 32` cpus. -/
theorem spinlock_safe (n : Nat) (hn : n < 2 ^ 32) (schedule : List (Fin n)) : Safe ((Lockers.start n).run schedule) :=
  ((inv_start n).run hn schedule).safe

/-- Cpu 1 draws its ticket first; cpu 0 waits until cpu 1 has handed the lock on. -/
theorem spinlock_safe_two : (2 : Nat) < 2 ^ 32 ∧
    ((Lockers.start 2).run [1, 0, 1, 0, 1, 1, 0]).grants = [(1, 0), (0, 1)] ∧
    Safe ((Lockers.start 2).run [1, 0, 1, 0, 1, 1, 0]) :=
  ⟨by decide, by decide, spinlock_safe 2 (by decide) [1, 0, 1, 0, 1, 1, 0]⟩

end HyperPoc.Spinlock
