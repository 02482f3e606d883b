import HyperPoc.Basic

/-! # The ticket lock -/
namespace HyperPoc
set_option autoImplicit false

structure Spinlock where
  ticket : Nat
  next : Nat
  deriving DecidableEq

namespace Spinlock

def init : Spinlock := ⟨0, 0⟩

/-- The exclusive load and store at the head of `spin_lock`: the own ticket, and the lock after. -/
def takeTicket (l : Spinlock) : Nat × Spinlock := (l.ticket, { l with ticket := (l.ticket + 1) % 2 ^ 32 })

def granted (l : Spinlock) (ticket : Nat) : Bool := ticket == l.next

def storeNext (l : Spinlock) (next : Nat) : Spinlock := { l with next := (next + 1) % 2 ^ 32 }

/-- The load and the store of `spin_unlock` with nothing between them. -/
def unlock (l : Spinlock) : Spinlock := { l with next := (l.next + 1) % 2 ^ 32 }

/-- On one cpu alone, waiting for a lock that is held never ends. -/
def lock (l : Spinlock) : Outcome Spinlock :=
  if l.takeTicket.2.granted l.takeTicket.1 then .ok l.takeTicket.2 else .error .diverges

end Spinlock
end HyperPoc
