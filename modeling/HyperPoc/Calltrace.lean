import HyperPoc.SpInit
import HyperPoc.Library.LinkedList

/-! # The backtrace of the hypervisor

A frame record holds the caller's frame pointer and, in the next word, the return address. The loop reads
both words of a record before it compares the caller's frame pointer with the limits of the stack. The
loop of the source has no bound, here it has fuel.
-/
namespace HyperPoc.Calltrace
open Library.Memory Library.LinkedList Library.Run
set_option autoImplicit false

/-- A turn of the loop: the addresses of the words it reads, and the line it prints. -/
structure Turn where
  reads : List Nat
  addr : Nat
  fp : Nat

def turn (m : Mem) (fp : Nat) : Turn where
  reads := [u64 (fp + 8), fp]
  addr := u64 (load m (u64 (fp + 8)) 8 + (2 ^ 64 - 4))
  fp := fp

def traceLoop (m : Mem) (stackTop stackBottom : Nat) : (fuel fp : Nat) → Outcome (List Turn)
  | 0, _ => .error .diverges
  | fuel + 1, fp =>
    let next := load m fp 8
    if next > stackBottom ∨ next < stackTop then return [turn m fp]
    else do return turn m fp :: (← traceLoop m stackTop stackBottom fuel next)

def dumpHyperCalltrace (s : Stacks) (cpuId fuel fp : Nat) : Outcome (List Turn) :=
  if s.spTop cpuId = 0 ∨ s.spBottom cpuId = 0 then
    .error (.panic "[dump_hyper_calltrace]: invalid stack(cpuid=%d, top=%p, bottom=%p)\n")
  else traceLoop s.host.mem (s.spTop cpuId) (s.spBottom cpuId) fuel fp

def caller (m : Mem) (stackTop stackBottom fp : Nat) : Option Nat :=
  let next := load m fp 8
  if next > stackBottom ∨ next < stackTop then none else some next

section
variable {m : Mem} {top bottom : Nat}

theorem traceLoop_of_links {fuel fp : Nat} {l : List Nat} (h : Links (caller m top bottom) (some fp) l)
    (hFuel : l.length ≤ fuel) : traceLoop m top bottom fuel fp = .ok (l.map (turn m)) := by
  induction fuel generalizing fp l with
  | zero =>
    cases h
    rw [List.length_cons] at hFuel
    omega
  | succ fuel ih =>
    cases h with
    | @cons _ rest hRest =>
      rw [List.length_cons] at hFuel
      rw [traceLoop]
      rw [caller] at hRest
      split
      · rename_i hOut
        rw [if_pos hOut] at hRest
        cases hRest
        rfl
      · rename_i hIn
        rw [if_neg hIn] at hRest
        rw [ih hRest (by omega)]
        rfl

theorem links_of_traceLoop {fuel fp : Nat} {turns : List Turn} (h : traceLoop m top bottom fuel fp = .ok turns) :
    ∃ l, Links (caller m top bottom) (some fp) l ∧ turns = l.map (turn m) := by
  induction fuel generalizing fp turns with
  | zero => cases h
  | succ fuel ih =>
    rw [traceLoop] at h
    split at h
    · rename_i hOut
      cases h
      refine ⟨[fp], .cons ?_, rfl⟩
      rw [caller, if_pos hOut]
      exact .nil
    · rename_i hIn
      obtain ⟨rest, hLoop, hTurns⟩ := bind_eq_ok.mp h
      obtain ⟨l, hLinks, rfl⟩ := ih hLoop
      cases hTurns
      refine ⟨fp :: l, .cons ?_, rfl⟩
      rw [caller, if_neg hIn]
      exact hLinks

end

/-- The trace ends, and every word it reads lies in the stack. -/
def TraceSafe (s : Stacks) (cpuId fp : Nat) : Prop :=
  ∃ fuel turns, dumpHyperCalltrace s cpuId fuel fp = .ok turns ∧
    ∀ t ∈ turns, ∀ a ∈ t.reads, s.spTop cpuId ≤ a ∧ a + 8 ≤ s.spBottom cpuId

/-- The chain of frame records leaves the stack, and until then every record lies in it with both its
words. -/
structure Walkable (s : Stacks) (cpuId fp : Nat) (l : List Nat) : Prop where
  top_ne : s.spTop cpuId ≠ 0
  bottom_ne : s.spBottom cpuId ≠ 0
  ends : Links (caller s.host.mem (s.spTop cpuId) (s.spBottom cpuId)) (some fp) l
  inside : ∀ f ∈ l, s.spTop cpuId ≤ f ∧ f + 16 ≤ s.spBottom cpuId

theorem TraceSafe.walkable {s : Stacks} {cpuId fp : Nat} (hBottom : s.spBottom cpuId < 2 ^ 64)
    (h : TraceSafe s cpuId fp) : ∃ l, Walkable s cpuId fp l := by
  obtain ⟨fuel, turns, hDump, hReads⟩ := h
  rw [dumpHyperCalltrace] at hDump
  split at hDump
  · cases hDump
  · rename_i hSet
    rw [not_or] at hSet
    obtain ⟨l, hLinks, rfl⟩ := links_of_traceLoop hDump
    refine ⟨l, hSet.1, hSet.2, hLinks, ?_⟩
    intro f hf
    have hFirst := hReads (turn s.host.mem f) (List.mem_map_of_mem hf) f (List.mem_cons_of_mem _ List.mem_cons_self)
    have hSecond := hReads (turn s.host.mem f) (List.mem_map_of_mem hf) (u64 (f + 8)) List.mem_cons_self
    rw [u64_of_lt (by omega)] at hSecond
    exact ⟨hFirst.1, hSecond.2⟩

theorem traceSafe_iff (s : Stacks) (cpuId fp : Nat) (hBottom : s.spBottom cpuId < 2 ^ 64) :
    TraceSafe s cpuId fp ↔ ∃ l, Walkable s cpuId fp l := by
  constructor
  · exact TraceSafe.walkable hBottom
  · rintro ⟨l, hWalk⟩
    refine ⟨l.length, l.map (turn s.host.mem), ?_, ?_⟩
    · rw [dumpHyperCalltrace, if_neg (not_or.mpr ⟨hWalk.top_ne, hWalk.bottom_ne⟩)]
      exact traceLoop_of_links hWalk.ends (Nat.le_refl _)
    · intro t ht a ha
      obtain ⟨f, hf, rfl⟩ := List.mem_map.mp ht
      have hInside := hWalk.inside f hf
      have hWord : u64 (f + 8) = f + 8 := u64_of_lt (by omega)
      rw [turn, hWord, List.mem_pair] at ha
      omega

def stackWith (words : List (Nat × Nat)) : Stacks where
  host := ⟨words.foldr (fun w m => store m w.1 8 w.2) fun _ => 0, ⟨fun _ => 0, 16, 0x40000, 0⟩, []⟩
  spTop := fun _ => 0x40001000
  spBottom := fun _ => 0x40002000

theorem traceSafe_two_frames : TraceSafe (stackWith [(0x40001f00, 0x40001f40)]) 1 0x40001f00 := by
  refine (traceSafe_iff _ 1 0x40001f00 (by decide)).mpr ⟨[0x40001f00, 0x40001f40], by decide, by decide, ?_,
    by decide⟩
  refine .cons ?_
  rw [show caller _ _ _ 0x40001f00 = some 0x40001f40 from by decide]
  refine .cons ?_
  rw [show caller _ _ _ 0x40001f40 = none from by decide]
  exact .nil

/-- A record that points to itself is read for ever; one whose caller is the end of the stack, and one in
the last word of the stack, are followed by reads behind the stack. -/
theorem trace_unsafe : ¬TraceSafe (stackWith [(0x40001f00, 0x40001f00)]) 1 0x40001f00 ∧
    ¬TraceSafe (stackWith [(0x40001f00, 0x40002000)]) 1 0x40001f00 ∧ ¬TraceSafe (stackWith []) 1 0x40001ff8 := by
  refine ⟨?_, ?_, ?_⟩
  · intro hSafe
    obtain ⟨l, hWalk⟩ := hSafe.walkable (by decide)
    exact not_links_of_self (by decide) hWalk.ends
  · intro hSafe
    obtain ⟨l, hWalk⟩ := hSafe.walkable (by decide)
    have hInside := hWalk.inside 0x40002000 (hWalk.ends.next_mem (by decide))
    exact absurd hInside.2 (by decide)
  · intro hSafe
    obtain ⟨l, hWalk⟩ := hSafe.walkable (by decide)
    have hInside := hWalk.inside 0x40001ff8 hWalk.ends.head_mem
    exact absurd hInside.2 (by decide)

end HyperPoc.Calltrace
