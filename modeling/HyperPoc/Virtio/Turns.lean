import HyperPoc.Library.TicketLock
import HyperPoc.Virtio.Handler
import Mathlib.Data.List.Perm.Subperm

/-! # Taking turns

The vcpus between their `spin_lock` and their `spin_unlock` stand in the line of `virtq_lock`, and
only the first of them is past its lock. So the steps between lock and unlock are one vcpu's at a
time, for fewer than `2 ^ 32` vcpus.
-/
namespace HyperPoc.Virtio
open Library.TicketLock
set_option autoImplicit false

/-- The vcpu has drawn a ticket and not yet unlocked. -/
def Pc.inLine : Pc → Bool
  | .idle | .entry | .lock | .signal => false
  | _ => true

def Pc.holds : Pc → Bool
  | .idle | .entry | .lock | .wait _ | .signal => false
  | _ => true

def Pc.ticket : Pc → Option Nat
  | .wait t => some t
  | _ => none

structure Turns (cpus : Nat) (pcs : Nat → Pc) (l : Spinlock) (queue : List Nat) : Prop where
  order : Line (2 ^ 32) l.ticket l.next (fun cpu => (pcs cpu).ticket) queue
  mem_iff : ∀ cpu, cpu ∈ queue ↔ (pcs cpu).inLine = true
  first : ∀ cpu, (pcs cpu).holds = true → queue[0]? = some cpu
  lt : ∀ cpu, pcs cpu ≠ .idle → cpu < cpus

section
variable {cpus : Nat} {pcs : Nat → Pc} {l : Spinlock} {queue : List Nat} {cpu : Nat}

theorem Pc.inLine_of_holds {pc : Pc} (h : pc.holds = true) : pc.inLine = true := by
  cases pc <;> first | rfl | cases h

theorem Pc.ticket_of_holds {pc : Pc} (h : pc.holds = true) : pc.ticket = none := by
  cases pc <;> first | rfl | cases h

theorem Turns.queued (h : Turns cpus pcs l queue) :
    Queued (2 ^ 32) Pc.ticket (Pc.inLine · = true) (Pc.holds · = true) l.ticket l.next pcs queue :=
  ⟨h.order, h.mem_iff, h.first⟩

theorem turns_of_queued (h : Queued (2 ^ 32) Pc.ticket (Pc.inLine · = true)
    (Pc.holds · = true) l.ticket l.next pcs queue)
    (hLt : ∀ cpu, pcs cpu ≠ .idle → cpu < cpus) : Turns cpus pcs l queue := ⟨h.order, h.mem_iff, h.first, hLt⟩

theorem Turns.holder_unique (h : Turns cpus pcs l queue) {a b : Nat} (ha : (pcs a).holds = true)
    (hb : (pcs b).holds = true) : a = b := h.queued.holder_unique ha hb

theorem Turns.length_le (h : Turns cpus pcs l queue) : queue.length ≤ cpus := by
  have hSub : queue ⊆ List.range cpus := by
    intro cpu hMem
    rw [List.mem_range]
    apply h.lt
    intro hIdle
    have hIn := (h.mem_iff cpu).mp hMem
    rw [hIdle] at hIn
    cases hIn
  have hLe := (List.subperm_of_subset h.order.nodup hSub).length_le
  rwa [List.length_range] at hLe

/-- Nobody stands in the line of a free lock. -/
theorem turns_nil (hNone : ∀ cpu, (pcs cpu).inLine = false) (hLt : ∀ cpu, pcs cpu ≠ .idle → cpu < cpus)
    (hFree : l.ticket = l.next) (hNext : l.next < 2 ^ 32) : Turns cpus pcs l [] where
  order := by
    rw [hFree]
    exact .empty hNext _
  mem_iff := by simp [hNone]
  first := by
    intro b hb
    have hIn := Pc.inLine_of_holds hb
    rw [hNone] at hIn
    cases hIn
  lt := hLt

theorem pc_update {β : Type} (f : Pc → β) {pc : Pc} (b : Nat) (h : f pc = f (pcs cpu)) :
    f (Function.update pcs cpu pc b) = f (pcs b) := by
  obtain rfl | hNe := eq_or_ne b cpu
  · rw [Function.update_self, h]
  · rw [Function.update_of_ne hNe]

theorem Turns.lt_update (h : Turns cpus pcs l queue) (hBusy : cpu < cpus) {pc : Pc} (b : Nat)
    (hb : Function.update pcs cpu pc b ≠ .idle) : b < cpus := by
  obtain rfl | hNe := eq_or_ne b cpu
  · exact hBusy
  · rw [Function.update_of_ne hNe] at hb
    exact h.lt b hb

/-- A step that neither draws a ticket nor passes the lock nor leaves. -/
theorem Turns.keep (h : Turns cpus pcs l queue) (hBusy : cpu < cpus) {pc : Pc} (hIn : pc.inLine = (pcs cpu).inLine)
    (hHolds : pc.holds = true → (pcs cpu).holds = true)
    (hTicket : ∀ t, pc.ticket = some t → (pcs cpu).ticket = some t) :
    Turns cpus (Function.update pcs cpu pc) l queue :=
  turns_of_queued (h.queued.keep (by rw [hIn]) hTicket fun hPc => h.first cpu (hHolds hPc)) (h.lt_update hBusy)

theorem Turns.draw (h : Turns cpus pcs l queue) (hBusy : cpu < cpus) (hPc : pcs cpu = .lock) :
    Turns cpus (Function.update pcs cpu (.wait l.takeTicket.1)) l.takeTicket.2 (queue ++ [cpu]) :=
  turns_of_queued (h.queued.join (by simp [hPc, Pc.inLine]) _ rfl rfl Bool.false_ne_true) (h.lt_update hBusy)

/-- The vcpu whose ticket is served is the first in line and finds nobody past the lock. -/
theorem Turns.served (h : Turns cpus pcs l queue) (hCpus : cpus < 2 ^ 32) (hPc : pcs cpu = .wait l.next) :
    queue[0]? = some cpu ∧ ∀ b, ¬(pcs b).holds = true := by
  have hLe := h.length_le
  apply h.queued.served (by omega)
  · simp [hPc, Pc.inLine]
  · rw [hPc]
    rfl
  · simp [hPc, Pc.holds]

theorem Turns.none_holds (h : Turns cpus pcs l queue) (hCpus : cpus < 2 ^ 32) (hPc : pcs cpu = .wait l.next) (b : Nat) :
    (pcs b).holds = false := Bool.eq_false_iff.mpr ((h.served hCpus hPc).2 b)

theorem Turns.grant (h : Turns cpus pcs l queue) (hCpus : cpus < 2 ^ 32) (hBusy : cpu < cpus)
    (hPc : pcs cpu = .wait l.next) : Turns cpus (Function.update pcs cpu .test) l queue := by
  refine turns_of_queued (h.queued.keep ?_ nofun fun _ => (h.served hCpus hPc).1) (h.lt_update hBusy)
  rw [hPc]
  exact Iff.rfl

theorem Turns.leave (h : Turns cpus pcs l queue) (hBusy : cpu < cpus) (hPc : pcs cpu = .unlock) :
    ∃ queue', Turns cpus (Function.update pcs cpu .signal) l.unlock queue' := by
  have hHolds : (pcs cpu).holds = true := by
    rw [hPc]
    rfl
  have hFirst := h.first cpu hHolds
  cases queue with
  | nil => cases hFirst
  | cons a rest =>
    cases hFirst
    exact ⟨rest, turns_of_queued (h.queued.leave hHolds _ Bool.false_ne_true Bool.false_ne_true)
      (h.lt_update hBusy)⟩

end

end HyperPoc.Virtio
