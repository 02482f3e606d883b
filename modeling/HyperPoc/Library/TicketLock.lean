import Mathlib.Data.List.Nodup
import Mathlib.Logic.Function.Basic

/-! # The line of a ticket lock

Tickets are drawn and served by two counters modulo `M`. The agents that have drawn a ticket and not
yet left form a line, in the order of their tickets; the first of them is the one being served. The
counters tell them apart as long as the line is shorter than `M`. Where each agent is in a state that says
whether it is in line and whether it is past the lock, only the first in line can be past it.
-/
namespace Library.TicketLock
set_option autoImplicit false

variable {α : Type} {M ticket next : Nat} {own : α → Option Nat} {queue : List α}

/-- `own a` is the ticket agent `a` holds while it waits. -/
structure Line (M ticket next : Nat) (own : α → Option Nat) (queue : List α) : Prop where
  nodup : queue.Nodup
  next_lt : next < M
  ticket_eq : ticket = (next + queue.length) % M
  place : ∀ i a t, queue[i]? = some a → own a = some t → t = (next + i) % M

theorem Line.empty (h : next < M) (own : α → Option Nat) : Line M next next own [] where
  nodup := List.nodup_nil
  next_lt := h
  ticket_eq := (Nat.mod_eq_of_lt h).symm
  place := by simp

theorem Line.join (h : Line M ticket next own queue) {a : α} (ha : a ∉ queue) {own' : α → Option Nat}
    (hOwn : own' a = some ticket) (hRest : ∀ b ∈ queue, own' b = own b) :
    Line M ((ticket + 1) % M) next own' (queue ++ [a]) where
  nodup := by
    rw [List.nodup_append_comm]
    exact List.nodup_cons.mpr ⟨ha, h.nodup⟩
  next_lt := h.next_lt
  ticket_eq := by
    rw [h.ticket_eq, Nat.mod_add_mod, List.length_append, List.length_singleton, Nat.add_assoc]
  place := by
    intro i b t hi ht
    obtain hLt | hGe := Nat.lt_or_ge i queue.length
    · rw [List.getElem?_append_left hLt] at hi
      rw [hRest b (List.mem_of_getElem? hi)] at ht
      exact h.place i b t hi ht
    · rw [List.getElem?_append_right hGe] at hi
      obtain ⟨hZero, rfl⟩ : i - queue.length = 0 ∧ a = b := by simpa [List.getElem?_singleton] using hi
      have hi : i = queue.length := by omega
      rw [hOwn] at ht
      cases ht
      rw [h.ticket_eq, hi]

theorem Line.head_of_granted (h : Line M ticket next own queue) (hShort : queue.length < M) {a : α}
    (ha : a ∈ queue) (hOwn : own a = some next) : queue[0]? = some a := by
  obtain ⟨i, hi⟩ := List.mem_iff_getElem?.mp ha
  have hLt : i < queue.length := (List.getElem?_eq_some_iff.mp hi).1
  have hPlace := h.place i a next hi hOwn
  have hNext := h.next_lt
  have hZero : i = 0 := by
    obtain hFit | hWrap := Nat.lt_or_ge (next + i) M
    · rw [Nat.mod_eq_of_lt hFit] at hPlace
      omega
    · rw [Nat.mod_eq_sub_mod hWrap, Nat.mod_eq_of_lt (by omega)] at hPlace
      omega
  rw [← hZero]
  exact hi

theorem Line.congr (h : Line M ticket next own queue) {own' : α → Option Nat}
    (hOwn : ∀ a ∈ queue, ∀ t, own' a = some t → own a = some t) : Line M ticket next own' queue := by
  refine ⟨h.nodup, h.next_lt, h.ticket_eq, ?_⟩
  intro i a t hi ht
  exact h.place i a t hi (hOwn a (List.mem_of_getElem? hi) t ht)

theorem Line.leave {a : α} (h : Line M ticket next own (a :: queue)) : Line M ticket ((next + 1) % M) own queue where
  nodup := (List.nodup_cons.mp h.nodup).2
  next_lt := Nat.mod_lt _ (by have := h.next_lt; omega)
  ticket_eq := by
    rw [h.ticket_eq, Nat.mod_add_mod, List.length_cons]
    congr 1
    omega
  place := by
    intro i b t hi ht
    rw [h.place (i + 1) b t (by rwa [List.getElem?_cons_succ]) ht, Nat.mod_add_mod]
    congr 1
    omega

section
variable {σ : Type} {ticketOf : σ → Option Nat} {inLine holds : σ → Prop} {pcs : α → σ} {a : α}

/-- The agents in line, by their states, and the one past the lock is the first of them. -/
structure Queued (M : Nat) (ticketOf : σ → Option Nat) (inLine holds : σ → Prop) (ticket next : Nat)
    (pcs : α → σ) (queue : List α) : Prop where
  order : Line M ticket next (fun a => ticketOf (pcs a)) queue
  mem_iff : ∀ a, a ∈ queue ↔ inLine (pcs a)
  first : ∀ a, holds (pcs a) → queue[0]? = some a

theorem Queued.holder_unique (h : Queued M ticketOf inLine holds ticket next pcs queue) {a b : α} (ha : holds (pcs a))
    (hb : holds (pcs b)) : a = b :=
  Option.some.inj ((h.first a ha).symm.trans (h.first b hb))

/-- Whoever finds its ticket served stands first, and nobody is past the lock. -/
theorem Queued.served (h : Queued M ticketOf inLine holds ticket next pcs queue) (hShort : queue.length < M)
    (hIn : inLine (pcs a)) (hOwn : ticketOf (pcs a) = some next) (hOut : ¬holds (pcs a)) :
    queue[0]? = some a ∧ ∀ b, ¬holds (pcs b) := by
  have hHead := h.order.head_of_granted hShort ((h.mem_iff a).mpr hIn) hOwn
  refine ⟨hHead, ?_⟩
  intro b hb
  cases (h.first b hb).symm.trans hHead
  exact hOut hb

variable [DecidableEq α]

theorem Queued.join (h : Queued M ticketOf inLine holds ticket next pcs queue) (hOut : ¬inLine (pcs a)) (pc : σ)
    (hOwn : ticketOf pc = some ticket) (hIn : inLine pc) (hWait : ¬holds pc) :
    Queued M ticketOf inLine holds ((ticket + 1) % M) next (Function.update pcs a pc) (queue ++ [a]) := by
  have hNot : a ∉ queue := fun hMem => hOut ((h.mem_iff a).mp hMem)
  refine ⟨?_, ?_, ?_⟩
  · apply h.order.join hNot
    · rw [Function.update_self, hOwn]
    · intro b hb
      rw [Function.update_of_ne]
      rintro rfl
      exact hNot hb
  · apply (Function.forall_update_iff pcs (fun b pc => b ∈ queue ++ [a] ↔ inLine pc)).mpr
    constructor
    · simp [hIn]
    · intro b hNe
      simp [h.mem_iff, hNe]
  · apply (Function.forall_update_iff pcs (fun b pc => holds pc → (queue ++ [a])[0]? = some b)).mpr
    constructor
    · intro hHolds
      exact (hWait hHolds).elim
    · intro b _ hb
      have hFirst := h.first b hb
      rw [List.getElem?_append_left (List.getElem?_eq_some_iff.mp hFirst).1]
      exact hFirst

theorem Queued.keep (h : Queued M ticketOf inLine holds ticket next pcs queue) {pc : σ}
    (hIn : inLine pc ↔ inLine (pcs a)) (hOwn : ∀ t, ticketOf pc = some t → ticketOf (pcs a) = some t)
    (hHolds : holds pc → queue[0]? = some a) :
    Queued M ticketOf inLine holds ticket next (Function.update pcs a pc) queue where
  order := by
    have hTicket : ∀ b t, ticketOf (Function.update pcs a pc b) = some t → ticketOf (pcs b) = some t :=
      (Function.forall_update_iff pcs (fun b pc => ∀ t, ticketOf pc = some t → ticketOf (pcs b) = some t)).mpr
        ⟨hOwn, fun _ _ _ ht => ht⟩
    exact h.order.congr fun b _ => hTicket b
  mem_iff := (Function.forall_update_iff pcs (fun b pc => b ∈ queue ↔ inLine pc)).mpr
    ⟨(h.mem_iff a).trans hIn.symm, fun b _ => h.mem_iff b⟩
  first := (Function.forall_update_iff pcs (fun b pc => holds pc → queue[0]? = some b)).mpr
    ⟨hHolds, fun b _ => h.first b⟩

theorem Queued.leave (h : Queued M ticketOf inLine holds ticket next pcs (a :: queue)) (hHolds : holds (pcs a))
    (pc : σ) (hOut : ¬inLine pc) (hFree : ¬holds pc) :
    Queued M ticketOf inLine holds ticket ((next + 1) % M) (Function.update pcs a pc) queue := by
  have hNot : a ∉ queue := (List.nodup_cons.mp h.order.nodup).1
  refine ⟨?_, ?_, ?_⟩
  · apply h.order.leave.congr
    intro b hb t ht
    have hNe : b ≠ a := by
      rintro rfl
      exact hNot hb
    rwa [Function.update_of_ne hNe] at ht
  · apply (Function.forall_update_iff pcs (fun b pc => b ∈ queue ↔ inLine pc)).mpr
    constructor
    · exact iff_of_false hNot hOut
    · intro b hNe
      rw [← h.mem_iff, List.mem_cons, or_iff_right hNe]
  · apply (Function.forall_update_iff pcs (fun b pc => holds pc → queue[0]? = some b)).mpr
    constructor
    · intro hHolds'
      exact (hFree hHolds').elim
    · intro b hNe hb
      exact (hNe (h.holder_unique hb hHolds)).elim

end

end Library.TicketLock
