import HyperPoc.Virtio.Queue

/-! # The request handler, step by step

Several vcpus can be in `virtio_blk_req_handler` at once. Its statements are the steps of a program
counter, over the state all of them share. A handler that runs alone takes these steps one after the
other.
-/
namespace HyperPoc.Virtio
open Library.Memory Library.Run
set_option autoImplicit false

inductive Pc
  | idle
  | entry
  | lock
  | wait (ticket : Nat)
  | test
  | fetch
  | process (descIdx : Nat)
  | setId (descIdx descLen : Nat)
  | setLen (descLen : Nat)
  | setIdx
  | next
  | unlock
  | signal
  deriving DecidableEq

def handlerStep (s : Backend) : Pc → Outcome (Pc × Backend)
  | .idle => .ok (.idle, s)
  | .entry => .ok (.lock, reqEntry s)
  | .lock => .ok (.wait s.vq.virtqLock.takeTicket.1, s.setLock s.vq.virtqLock.takeTicket.2)
  | .wait ticket => .ok (if s.vq.virtqLock.granted ticket then .test else .wait ticket, s)
  | .test => .ok (if (virtqAvailable s).1 then .fetch else .unlock, (virtqAvailable s).2)
  | .fetch => .ok (.process (nextHead s).1, (nextHead s).2)
  | .process descIdx => do
    let (descLen, s) ← virtioBlkProcessDesc s descIdx
    return (.setId descIdx descLen, s)
  | .setId descIdx descLen => .ok (.setLen descLen, setUsedId s descIdx)
  | .setLen descLen => .ok (.setIdx, setUsedLen s descLen)
  | .setIdx => .ok (.next, bumpUsedIdx s)
  | .next => .ok (.test, bumpAvailIdx s)
  | .unlock => .ok (.signal, s.setLock s.vq.virtqLock.unlock)
  | .signal => .ok (.idle, virtioSignalVq s)

structure System where
  pcs : Nat → Pc
  dev : Backend

def Alone (x y : Pc × Backend) : Prop := handlerStep x.2 x.1 = .ok y

theorem reqRound_steps {s s' : Backend} (h : reqRound s = .ok s') :
    Relation.ReflTransGen Alone (.fetch, s) (.test, s') := by
  obtain ⟨⟨len, s₁⟩, hProcess, hRest⟩ := bind_eq_ok.mp h
  cases hRest
  refine .head (b := (Pc.process (nextHead s).1, (nextHead s).2)) rfl ?_
  refine .head (b := (Pc.setId (nextHead s).1 len, s₁)) (bind_eq_ok.mpr ⟨_, hProcess, rfl⟩) ?_
  refine .head rfl (.head rfl (.head rfl (.head rfl ?_)))
  exact .refl

theorem reqLoop_steps {n : Nat} {s s' : Backend} (h : reqLoop n s = .ok s') :
    Relation.ReflTransGen Alone (.test, s) (.unlock, s') := by
  induction n generalizing s with
  | zero => cases h
  | succ n ih =>
    rw [reqLoop] at h
    cases hMore : (virtqAvailable s).1 with
    | true =>
      simp only [hMore, if_true] at h
      obtain ⟨s₁, hRound, hRest⟩ := bind_eq_ok.mp h
      refine .head (b := (Pc.fetch, (virtqAvailable s).2)) ?_ ((reqRound_steps hRound).trans (ih hRest))
      simp [Alone, handlerStep, hMore]
    | false =>
      simp only [hMore, Bool.false_eq_true, if_false] at h
      cases h
      refine .single ?_
      simp [Alone, handlerStep, hMore]

/-- What the handler computes on its own is what its steps lead to. -/
theorem virtioBlkReqHandler_steps {n : Nat} {s s' : Backend} (h : virtioBlkReqHandler n s = .ok s') :
    Relation.ReflTransGen Alone (.entry, s) (.idle, s') := by
  obtain ⟨l, hLock, hRest⟩ := bind_eq_ok.mp h
  obtain ⟨s₁, hLoop, hDone⟩ := bind_eq_ok.mp hRest
  cases hDone
  rw [Spinlock.lock] at hLock
  split at hLock
  · rename_i hGranted
    cases hLock
    refine .head (b := (Pc.lock, reqEntry s)) rfl
      (.head (b := (Pc.wait _, _)) rfl (.head ?_ ((reqLoop_steps hLoop).trans ?_)))
    · change Except.ok (if (reqEntry s).vq.virtqLock.takeTicket.2.granted _ then Pc.test else _, _) = _
      rw [if_pos hGranted]
    · exact .head rfl (.head rfl .refl)
  · cases hLock

end HyperPoc.Virtio
