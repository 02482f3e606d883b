import HyperPoc.Virtio.Process
import HyperPoc.Virtio.Rings
import HyperPoc.Virtio.Turns

/-! # Exactly-once completion

The driver publishes heads in two steps, the slot and then the index, while vcpus go through the
handler step by step. Histories record what was published, processed and returned. They show each
head processed once and in order, over runs of any length and so past any number of index wraps.
-/
namespace HyperPoc.Virtio.Completion
open Library.Memory Library.Run
set_option autoImplicit false

/-- The vcpus, the state they share, and histories that no code reads: the head the driver has put
into its slot, all heads published, all heads handed to `virtio_blk_process_desc`, all elements a
used index was advanced over, for each vcpu the number of heads published when it notified last, and
one more than the number of interrupts raised when it advanced the used index last. -/
structure Machine where
  pcs : Nat → Pc
  dev : Backend
  writing : Option Nat
  published : List Nat
  processed : List Nat
  used : List (Nat × Nat)
  target : Nat → Nat
  bumped : Nat → Nat

def Machine.mem (x : Machine) : Mem := x.dev.host.mem

def Machine.nextElem (x : Machine) : Nat × Nat :=
  let a := x.dev.vq.usedAddr (load x.mem x.dev.vq.usedIdxAddr 2)
  (load x.mem a 4, load x.mem (a + 4) 4)

def Machine.note (x : Machine) (cpu : Nat) (pc : Pc) (s : Backend) : Machine :=
  { x with
    pcs := Function.update x.pcs cpu pc
    dev := s
    processed := match x.pcs cpu with
      | .process head => x.processed ++ [head]
      | _ => x.processed
    used := match x.pcs cpu with
      | .setIdx => x.used ++ [x.nextElem]
      | _ => x.used
    bumped := match x.pcs cpu with
      | .setIdx => Function.update x.bumped cpu (x.dev.signals.length + 1)
      | _ => x.bumped }

def Apart (n base : Nat) (s s' : Backend) : Prop :=
  ∀ l, s'.accesses = l ++ s.accesses → ∀ a ∈ l, a.write = true →
    ∀ b, RingByte n base b → b < a.addr ∨ a.addr + a.size ≤ b

/-- One step of the driver, of the guest elsewhere, or of a vcpu. The driver keeps at most `n`
requests under way, and what a request writes lies outside the rings. -/
inductive Step (cpus n base : Nat) (x : Machine) : Machine → Prop
  | slot {head : Nat} (hNone : x.writing = none) (hRoom : x.published.length < x.used.length + n)
    (hHead : head < 2 ^ 16) : Step cpus n base x { x with
      dev := x.dev.setMem (store x.mem (x.dev.vq.availAddr (load x.mem x.dev.vq.availIdxAddr 2)) 2 head)
      writing := some head }
  | publish {head : Nat} (hWriting : x.writing = some head) : Step cpus n base x { x with
      dev := x.dev.setMem (store x.mem x.dev.vq.availIdxAddr 2 ((load x.mem x.dev.vq.availIdxAddr 2 + 1) % 2 ^ 16))
      writing := none
      published := x.published ++ [head] }
  | guest {m : Mem} (hSame : ∀ b, RingByte n base b → m b = x.mem b) :
    Step cpus n base x { x with dev := x.dev.setMem m }
  | notify {cpu : Nat} (hCpu : cpu < cpus) (hIdle : x.pcs cpu = .idle) : Step cpus n base x { x with
      pcs := Function.update x.pcs cpu .entry
      target := Function.update x.target cpu x.published.length }
  | handler {cpu : Nat} {pc : Pc} {s : Backend} (hBusy : x.pcs cpu ≠ .idle)
    (hApart : ∀ head, x.pcs cpu = .process head → Apart n base x.dev s)
    (hStep : handlerStep x.dev (x.pcs cpu) = .ok (pc, s)) : Step cpus n base x (x.note cpu pc s)

/-- A configured queue with nothing under way. -/
structure Start (n base c : Nat) (x : Machine) : Prop where
  layout : Layout n base x.dev.vq
  image : x.dev.ramdiskStart + fsimgSize * blockSize < 2 ^ 64
  idle : ∀ cpu, x.pcs cpu = .idle
  unlocked : x.dev.vq.virtqLock.ticket = x.dev.vq.virtqLock.next
  next_lt : x.dev.vq.virtqLock.next < 2 ^ 32
  availIdx : x.dev.vq.availIdx = c
  availMem : load x.mem x.dev.vq.availIdxAddr 2 = c
  usedMem : load x.mem x.dev.vq.usedIdxAddr 2 = c
  writing : x.writing = none
  published : x.published = []
  processed : x.processed = []
  used : x.used = []
  target : ∀ cpu, x.target cpu = 0
  bumped : ∀ cpu, x.bumped cpu = 0

/-- No request is between its processing and the advance of `avail_idx`. -/
structure Settled (c : Nat) (x : Machine) : Prop where
  count : x.processed.length = x.used.length
  availIdx : x.dev.vq.availIdx = (c + x.used.length) % 2 ^ 16

/-- The request `head` has been processed and not yet returned. -/
structure InFlight (c : Nat) (x : Machine) (head : Nat) : Prop where
  count : x.processed.length = x.used.length + 1
  availIdx : x.dev.vq.availIdx = (c + x.used.length) % 2 ^ 16
  head : x.published[x.used.length]? = some head

/-- What the vcpu past the lock knows at each step. -/
def Phase (n base c : Nat) (x : Machine) : Pc → Prop
  | .test | .unlock => Settled c x
  | .fetch => Settled c x ∧ x.used.length < x.published.length
  | .process head => Settled c x ∧ x.published[x.used.length]? = some head
  | .setId head _ => InFlight c x head
  | .setLen _ | .setIdx => ∃ head, InFlight c x head ∧ load x.mem (elemAt n base (c + x.used.length)) 4 = head
  | .next => ∃ k, x.used.length = k + 1 ∧ x.processed.length = k + 1 ∧ x.dev.vq.availIdx = (c + k) % 2 ^ 16
  | .idle | .entry | .lock | .wait _ | .signal => True

/-- The rings and the histories agree. -/
structure Books (n base c : Nat) (x : Machine) : Prop where
  ring : Ring n base c x.mem x.published x.used x.writing
  heads : ∀ head ∈ x.published, head < 2 ^ 16
  writing_lt : ∀ head, x.writing = some head → head < 2 ^ 16
  processed : x.processed <+: x.published
  used : x.used.map Prod.fst <+: x.published

/-- Where the vcpu past the lock stands, or that there is none. -/
structure Control (n base c : Nat) (x : Machine) : Prop where
  phase : ∀ cpu, Phase n base c x (x.pcs cpu)
  rest : (∀ cpu, (x.pcs cpu).holds = false) → Settled c x

/-- What a notification is promised, and what the driver is promised for each used element. -/
structure Promises (x : Machine) : Prop where
  target_le : ∀ cpu, x.target cpu ≤ x.published.length
  target_used : ∀ cpu, x.pcs cpu = .idle ∨ x.pcs cpu = .unlock ∨ x.pcs cpu = .signal →
    x.target cpu ≤ x.used.length
  bumped_le : ∀ cpu, x.bumped cpu ≤ x.dev.signals.length + 1
  bumped_done : ∀ cpu, (x.pcs cpu).holds = false → x.pcs cpu ≠ .signal → x.bumped cpu ≤ x.dev.signals.length

structure Inv (cpus n base c : Nat) (x : Machine) : Prop where
  layout : Layout n base x.dev.vq
  image : x.dev.ramdiskStart + fsimgSize * blockSize < 2 ^ 64
  turns : ∃ queue, Turns cpus x.pcs x.dev.vq.virtqLock queue
  books : Books n base c x
  control : Control n base c x
  promises : Promises x

theorem phase_of_not_holds {n base c : Nat} {x : Machine} {pc : Pc} (h : pc.holds = false) : Phase n base c x pc := by
  cases pc <;> trivial

/-- Between `x` and `x'` at most the driver has gone on. -/
structure Onward (n base c : Nat) (x x' : Machine) : Prop where
  published : x.published <+: x'.published
  processed : x'.processed = x.processed
  used : x'.used = x.used
  availIdx : x'.dev.vq.availIdx = x.dev.vq.availIdx
  elem : load x'.mem (elemAt n base (c + x.used.length)) 4 = load x.mem (elemAt n base (c + x.used.length)) 4

section
variable {n base c : Nat} {x x' : Machine}

theorem Onward.settled (h : Onward n base c x x') (hSettled : Settled c x) : Settled c x' := by
  refine ⟨?_, ?_⟩
  · rw [h.processed, h.used]
    exact hSettled.count
  · rw [h.availIdx, h.used]
    exact hSettled.availIdx

theorem Onward.getElem? (h : Onward n base c x x') {k head : Nat} (hGet : x.published[k]? = some head) :
    x'.published[k]? = some head := by
  obtain ⟨l, hl⟩ := h.published
  rw [← hl, List.getElem?_append_left (List.getElem?_eq_some_iff.mp hGet).1]
  exact hGet

theorem Onward.inFlight (h : Onward n base c x x') {head : Nat} (hFlight : InFlight c x head) : InFlight c x' head := by
  refine ⟨?_, ?_, ?_⟩
  · rw [h.processed, h.used]
    exact hFlight.count
  · rw [h.availIdx, h.used]
    exact hFlight.availIdx
  · rw [h.used]
    exact h.getElem? hFlight.head

theorem Onward.returning (h : Onward n base c x x')
    (hPhase : ∃ head, InFlight c x head ∧ load x.mem (elemAt n base (c + x.used.length)) 4 = head) :
    ∃ head, InFlight c x' head ∧ load x'.mem (elemAt n base (c + x'.used.length)) 4 = head := by
  obtain ⟨head, hFlight, hElem⟩ := hPhase
  refine ⟨head, h.inFlight hFlight, ?_⟩
  rw [h.used, h.elem]
  exact hElem

theorem Onward.phase (h : Onward n base c x x') {pc : Pc} (hPhase : Phase n base c x pc) : Phase n base c x' pc := by
  cases pc with
  | test => exact h.settled hPhase
  | unlock => exact h.settled hPhase
  | fetch =>
    obtain ⟨hSettled, hLt⟩ := hPhase
    refine ⟨h.settled hSettled, ?_⟩
    rw [h.used]
    exact Nat.lt_of_lt_of_le hLt h.published.length_le
  | process head =>
    obtain ⟨hSettled, hGet⟩ := hPhase
    refine ⟨h.settled hSettled, ?_⟩
    rw [h.used]
    exact h.getElem? hGet
  | setId head len => exact h.inFlight hPhase
  | setLen len => exact h.returning hPhase
  | setIdx => exact h.returning hPhase
  | next =>
    obtain ⟨k, hUsed, hProcessed, hIdx⟩ := hPhase
    refine ⟨k, ?_, ?_, ?_⟩
    · rw [h.used, hUsed]
    · rw [h.processed, hProcessed]
    · rw [h.availIdx, hIdx]
  | idle => trivial
  | entry => trivial
  | lock => trivial
  | wait ticket => trivial
  | signal => trivial

theorem Onward.control (h : Onward n base c x x') (hPcs : x'.pcs = x.pcs) (hControl : Control n base c x) :
    Control n base c x' := by
  refine ⟨?_, ?_⟩
  · intro cpu
    rw [hPcs]
    exact h.phase (hControl.phase cpu)
  · intro hNone
    rw [hPcs] at hNone
    exact h.settled (hControl.rest hNone)

theorem Promises.onward (h : Promises x) (hPcs : x'.pcs = x.pcs) (hPublished : x.published <+: x'.published)
    (hUsed : x'.used = x.used) (hSignals : x'.dev.signals = x.dev.signals) (hTarget : x'.target = x.target)
    (hBumped : x'.bumped = x.bumped) : Promises x' := by
  refine ⟨?_, ?_, ?_, ?_⟩
  · intro cpu
    rw [hTarget]
    exact Nat.le_trans (h.target_le cpu) hPublished.length_le
  · rw [hPcs, hTarget, hUsed]
    exact h.target_used
  · rw [hBumped, hSignals]
    exact h.bumped_le
  · rw [hPcs, hBumped, hSignals]
    exact h.bumped_done

end

section
variable {cpus n base c : Nat} {x : Machine}

theorem Inv.slotAddr (h : Inv cpus n base c x) (hSize : Sized n base) :
    x.dev.vq.availAddr (load x.mem x.dev.vq.availIdxAddr 2) = slotAt n base (c + x.published.length) := by
  rw [h.layout.availAddr hSize, h.layout.availIdxAddr hSize, h.books.ring.availIdx, slotAt_wrap hSize]

theorem Inv.slot (h : Inv cpus n base c x) (hSize : Sized n base) {head : Nat} (hNone : x.writing = none)
    (hRoom : x.published.length < x.used.length + n) (hHead : head < 2 ^ 16) : Inv cpus n base c { x with
      dev := x.dev.setMem (store x.mem (x.dev.vq.availAddr (load x.mem x.dev.vq.availIdxAddr 2)) 2 head)
      writing := some head } := by
  have hLe := hSize.le
  have hLt := hSize.mod_lt (c + x.published.length)
  have hRing := h.books.ring
  rw [hNone] at hRing
  rw [h.slotAddr hSize]
  have hOnward : Onward n base c x { x with
      dev := x.dev.setMem (store x.mem (slotAt n base (c + x.published.length)) 2 head)
      writing := some head } := by
    refine ⟨List.prefix_rfl, rfl, rfl, rfl, ?_⟩
    apply load_store_of_disjoint
    rw [elemAt, slotAt]
    omega
  refine ⟨h.layout, h.image, h.turns, ⟨?_, h.books.heads, ?_, h.books.processed, h.books.used⟩,
    hOnward.control rfl h.control, h.promises.onward rfl List.prefix_rfl rfl rfl rfl rfl⟩
  · exact hRing.writeSlot hSize hHead hRoom
  · intro head' hEq
    cases hEq
    exact hHead

theorem Inv.publish (h : Inv cpus n base c x) (hSize : Sized n base) {head : Nat} (hWriting : x.writing = some head) :
    Inv cpus n base c { x with
      dev := x.dev.setMem (store x.mem x.dev.vq.availIdxAddr 2 ((load x.mem x.dev.vq.availIdxAddr 2 + 1) % 2 ^ 16))
      writing := none
      published := x.published ++ [head] } := by
  have hLe := hSize.le
  have hRing := h.books.ring
  rw [hWriting] at hRing
  rw [h.layout.availIdxAddr hSize]
  have hMore : x.published <+: x.published ++ [head] := List.prefix_append _ _
  have hOnward : Onward n base c x { x with
      dev := x.dev.setMem (store x.mem (availIdxAt n base) 2 ((load x.mem (availIdxAt n base) 2 + 1) % 2 ^ 16))
      writing := none
      published := x.published ++ [head] } := by
    refine ⟨hMore, rfl, rfl, rfl, ?_⟩
    apply load_store_of_disjoint
    rw [elemAt, availIdxAt]
    omega
  refine ⟨h.layout, h.image, h.turns, ⟨hRing.publish hSize, ?_, ?_, h.books.processed.trans hMore,
    h.books.used.trans hMore⟩, hOnward.control rfl h.control, h.promises.onward rfl hMore rfl rfl rfl rfl⟩
  · intro head' hMem
    obtain hMem | hMem := List.mem_append.mp hMem
    · exact h.books.heads head' hMem
    · rw [List.mem_singleton.mp hMem]
      exact h.books.writing_lt head hWriting
  · intro head' hEq
    cases hEq

theorem load_elem_congr {m m' : Mem} (hSize : Sized n base) (hSame : ∀ b, RingByte n base b → m' b = m b)
    (i : Nat) :
    load m' (elemAt n base i) 4 = load m (elemAt n base i) 4 := by
  have hLt := hSize.mod_lt i
  apply load_congr
  intro k hk
  exact hSame _ (.inr (by rw [elemAt]; omega))

theorem Inv.guest (h : Inv cpus n base c x) (hSize : Sized n base) {m : Mem}
    (hSame : ∀ b, RingByte n base b → m b = x.mem b) : Inv cpus n base c { x with dev := x.dev.setMem m } := by
  have hOnward : Onward n base c x { x with dev := x.dev.setMem m } :=
    ⟨List.prefix_rfl, rfl, rfl, rfl, load_elem_congr hSize hSame _⟩
  exact ⟨h.layout, h.image, h.turns,
    ⟨h.books.ring.congr hSize hSame, h.books.heads, h.books.writing_lt, h.books.processed, h.books.used⟩,
    hOnward.control rfl h.control, h.promises.onward rfl List.prefix_rfl rfl rfl rfl rfl⟩

/-- The program counter of one vcpu moves on without passing or giving up the lock. -/
theorem Control.update (h : Control n base c x) {cpu : Nat} (pc : Pc) (hOld : (x.pcs cpu).holds = false)
    (hNew : pc.holds = false) {x' : Machine} (hOnward : Onward n base c x x')
    (hPcs : x'.pcs = Function.update x.pcs cpu pc) : Control n base c x' := by
  refine ⟨?_, ?_⟩
  · intro b
    rw [hPcs]
    obtain rfl | hNe := eq_or_ne b cpu
    · rw [Function.update_self]
      exact phase_of_not_holds hNew
    · rw [Function.update_of_ne hNe]
      exact hOnward.phase (h.phase b)
  · intro hNone
    apply hOnward.settled
    apply h.rest
    intro b
    obtain rfl | hNe := eq_or_ne b cpu
    · exact hOld
    · have hb := hNone b
      rwa [hPcs, Function.update_of_ne hNe] at hb

theorem Inv.notify (h : Inv cpus n base c x) {cpu : Nat} (hCpu : cpu < cpus) (hIdle : x.pcs cpu = .idle) :
    Inv cpus n base c { x with
      pcs := Function.update x.pcs cpu .entry
      target := Function.update x.target cpu x.published.length } := by
  obtain ⟨queue, hTurns⟩ := h.turns
  have hHolds : (x.pcs cpu).holds = false := by
    rw [hIdle]
    rfl
  refine ⟨h.layout, h.image, ⟨queue, hTurns.keep hCpu ?_ ?_ ?_⟩,
    ⟨h.books.ring, h.books.heads, h.books.writing_lt,
    h.books.processed, h.books.used⟩, h.control.update .entry hHolds rfl
    ⟨List.prefix_rfl, rfl, rfl, rfl, rfl⟩ rfl, ?_, ?_, h.promises.bumped_le, ?_⟩
  · rw [hIdle]
    rfl
  · intro hEntry
    cases hEntry
  · intro t ht
    cases ht
  · intro b
    obtain rfl | hNe := eq_or_ne b cpu
    · exact (Function.update_self b _ _).le
    · exact (Function.update_of_ne hNe _ _).le.trans (h.promises.target_le b)
  · intro b hb
    obtain rfl | hNe := eq_or_ne b cpu
    · simp [Function.update_self] at hb
    · dsimp only at hb ⊢
      rw [Function.update_of_ne hNe] at hb ⊢
      exact h.promises.target_used b hb
  · intro b hb hNot
    dsimp only at hb hNot
    obtain rfl | hNe := eq_or_ne b cpu
    · apply h.promises.bumped_done b hHolds
      rw [hIdle]
      exact Pc.noConfusion
    · rw [Function.update_of_ne hNe] at hb hNot
      exact h.promises.bumped_done b hb hNot

end

def Machine.move (x : Machine) (cpu : Nat) (pc : Pc) (s : Backend) : Machine :=
  { x with pcs := Function.update x.pcs cpu pc, dev := s }

section
variable {cpus n base c : Nat} {x x' : Machine} {cpu : Nat}

theorem Control.at (h : Control n base c x) {pc : Pc} (hPc : x.pcs cpu = pc) : Phase n base c x pc := by
  rw [← hPc]
  exact h.phase cpu

theorem Inv.busy (h : Inv cpus n base c x) {pc : Pc} (hPc : x.pcs cpu = pc) (hNot : pc ≠ .idle) : cpu < cpus := by
  obtain ⟨queue, hTurns⟩ := h.turns
  apply hTurns.lt
  rw [hPc]
  exact hNot

theorem Control.holder {queue : List Nat} (hTurns : Turns cpus x.pcs x.dev.vq.virtqLock queue)
    (hHolds : (x.pcs cpu).holds = true) {pc : Pc} (hPcs : x'.pcs = Function.update x.pcs cpu pc)
    (hPhase : Phase n base c x' pc) (hRest : pc.holds = false → Settled c x') : Control n base c x' := by
  refine ⟨?_, ?_⟩
  · intro b
    rw [hPcs]
    obtain rfl | hNe := eq_or_ne b cpu
    · rw [Function.update_self]
      exact hPhase
    · rw [Function.update_of_ne hNe]
      apply phase_of_not_holds
      cases hb : (x.pcs b).holds with
      | false => rfl
      | true => exact (hNe (hTurns.holder_unique hb hHolds)).elim
  · intro hNone
    have hSelf := hNone cpu
    rw [hPcs, Function.update_self] at hSelf
    exact hRest hSelf

theorem Promises.move (h : Promises x) {pc : Pc} {s : Backend} (hSignals : s.signals = x.dev.signals)
    (hTarget : pc = .idle ∨ pc = .unlock ∨ pc = .signal → x.target cpu ≤ x.used.length)
    (hDone : pc.holds = false → pc ≠ .signal → x.bumped cpu ≤ x.dev.signals.length) :
    Promises (x.move cpu pc s) := by
  refine ⟨h.target_le, ?_, ?_, ?_⟩
  · intro b hb
    obtain rfl | hNe := eq_or_ne b cpu
    · change Function.update x.pcs b pc b = _ ∨ Function.update x.pcs b pc b = _ ∨
        Function.update x.pcs b pc b = _ at hb
      rw [Function.update_self] at hb
      exact hTarget hb
    · change Function.update x.pcs cpu pc b = _ ∨ Function.update x.pcs cpu pc b = _ ∨
        Function.update x.pcs cpu pc b = _ at hb
      rw [Function.update_of_ne hNe] at hb
      exact h.target_used b hb
  · intro b
    change x.bumped b ≤ s.signals.length + 1
    rw [hSignals]
    exact h.bumped_le b
  · intro b hb hNot
    change x.bumped b ≤ s.signals.length
    change (Function.update x.pcs cpu pc b).holds = false at hb
    change Function.update x.pcs cpu pc b ≠ .signal at hNot
    rw [hSignals]
    obtain rfl | hNe := eq_or_ne b cpu
    · rw [Function.update_self] at hb hNot
      exact hDone hb hNot
    · rw [Function.update_of_ne hNe] at hb hNot
      exact h.bumped_done b hb hNot

theorem Promises.inside (h : Promises x) (pc : Pc) {s : Backend} (hSignals : s.signals = x.dev.signals)
    (hHolds : pc.holds = true) (hNot : pc ≠ .unlock) : Promises (x.move cpu pc s) := by
  apply h.move hSignals
  · rintro (rfl | rfl | rfl)
    · cases hHolds
    · exact (hNot rfl).elim
    · cases hHolds
  · intro hBad
    rw [hHolds] at hBad
    cases hBad

theorem Promises.waiting (h : Promises x) {old : Pc} (hPc : x.pcs cpu = old) (hOld : old.holds = false)
    (hNot : old ≠ .signal) (pc : Pc) {s : Backend} (hSignals : s.signals = x.dev.signals)
    (hNew : ¬(pc = .idle ∨ pc = .unlock ∨ pc = .signal)) : Promises (x.move cpu pc s) := by
  apply h.move hSignals
  · exact fun hBad => (hNew hBad).elim
  · intro _ _
    apply h.bumped_done
    · rw [hPc]
      exact hOld
    · rw [hPc]
      exact hNot

/-- The invariant after a step of the vcpu past the lock that stays there. -/
theorem Inv.holder (h : Inv cpus n base c x) {old : Pc} (hPc : x.pcs cpu = old) (hOld : old.holds = true) (pc : Pc)
    (hPcs : x'.pcs = Function.update x.pcs cpu pc) (hNew : pc.holds = true)
    (hLock : x'.dev.vq.virtqLock = x.dev.vq.virtqLock) (hLayout : Layout n base x'.dev.vq)
    (hImage : x'.dev.ramdiskStart = x.dev.ramdiskStart) (hBooks : Books n base c x') (hPhase : Phase n base c x' pc)
    (hPromises : Promises x') : Inv cpus n base c x' := by
  obtain ⟨queue, hTurns⟩ := h.turns
  rw [← hPc] at hOld
  have hBusy : cpu < cpus := by
    apply h.busy rfl
    intro hIdle
    rw [hIdle] at hOld
    cases hOld
  refine ⟨hLayout, ?_, ⟨queue, ?_⟩, hBooks, Control.holder hTurns hOld hPcs hPhase ?_, hPromises⟩
  · rw [hImage]
    exact h.image
  · rw [hPcs, hLock]
    apply hTurns.keep hBusy
    · rw [Pc.inLine_of_holds hNew, Pc.inLine_of_holds hOld]
    · exact fun _ => hOld
    · intro t ht
      rw [Pc.ticket_of_holds hNew] at ht
      cases ht
  · intro hNot
    rw [hNew] at hNot
    cases hNot

theorem Books.move (h : Books n base c x) {pc : Pc} {s : Backend} (hMem : s.host.mem = x.mem) :
    Books n base c (x.move cpu pc s) := by
  refine ⟨?_, h.heads, h.writing_lt, h.processed, h.used⟩
  change Ring n base c s.host.mem x.published x.used x.writing
  rw [hMem]
  exact h.ring

theorem Inv.test (h : Inv cpus n base c x) (hSize : Sized n base) (hPc : x.pcs cpu = .test) :
    Inv cpus n base c (x.move cpu (if (virtqAvailable x.dev).1 then .fetch else .unlock) (virtqAvailable x.dev).2) := by
  have hSettled : Settled c x := h.control.at hPc
  have hLe := hSize.le
  have hIdx : (virtqAvailable x.dev).1 = (x.dev.vq.availIdx != load x.mem (availIdxAt n base) 2) := by
    rw [← h.layout.availIdxAddr hSize]
    rfl
  rw [h.books.ring.availIdx, hSettled.availIdx] at hIdx
  have hUsed := h.books.ring.le
  have hRoom := h.books.ring.room
  rw [hIdx]
  cases hMore : (c + x.used.length) % 2 ^ 16 != (c + x.published.length) % 2 ^ 16 with
  | true =>
    have hNe := bne_iff_ne.mp hMore
    have hLt : x.used.length < x.published.length := by
      obtain hEq | hLt := Nat.eq_or_lt_of_le hUsed
      · rw [hEq] at hNe
        exact (hNe rfl).elim
      · exact hLt
    exact h.holder hPc rfl .fetch rfl rfl rfl h.layout rfl (h.books.move rfl)
      ⟨⟨hSettled.count, hSettled.availIdx⟩, hLt⟩ (h.promises.inside .fetch rfl rfl Pc.noConfusion)
  | false =>
    have hEq : (c + x.used.length) % 2 ^ 16 = (c + x.published.length) % 2 ^ 16 := by simpa using hMore
    -- at most 64 requests are under way, so equal indices mean equal counts
    have hAll : x.published.length = x.used.length := by omega
    refine h.holder hPc rfl .unlock rfl rfl rfl h.layout rfl (h.books.move rfl) ⟨hSettled.count, hSettled.availIdx⟩
      (h.promises.move rfl ?_ ?_)
    · intro _
      rw [← hAll]
      exact h.promises.target_le cpu
    · intro hBad
      cases hBad

theorem Inv.fetch (h : Inv cpus n base c x) (hSize : Sized n base) (hPc : x.pcs cpu = .fetch) :
    Inv cpus n base c (x.move cpu (.process (nextHead x.dev).1) (nextHead x.dev).2) := by
  obtain ⟨hSettled, hLt⟩ := h.control.at hPc
  have hGet : x.published[x.used.length]? = some x.published[x.used.length] := List.getElem?_eq_getElem hLt
  have hHead : (nextHead x.dev).1 = x.published[x.used.length] := by
    have hSlot := h.books.ring.slots _ _ (Nat.le_refl _) hGet
    rw [← slotAt_wrap hSize, ← hSettled.availIdx, ← h.layout.availAddr hSize] at hSlot
    exact hSlot
  refine h.holder hPc rfl (.process (nextHead x.dev).1) rfl rfl rfl h.layout rfl (h.books.move rfl)
    ⟨⟨hSettled.count, hSettled.availIdx⟩, ?_⟩ (h.promises.inside _ rfl rfl Pc.noConfusion)
  · rw [hHead]
    exact hGet

theorem concat_isPrefix {l l' : List Nat} {a : Nat} (h : l <+: l') (ha : l'[l.length]? = some a) : l ++ [a] <+: l' := by
  obtain ⟨rest, rfl⟩ := h
  rw [List.getElem?_append_right (Nat.le_refl _), Nat.sub_self] at ha
  cases rest with
  | nil => cases ha
  | cons b rest =>
    cases ha
    exact ⟨rest, by rw [List.append_assoc]; rfl⟩

theorem Apart.same {s s' : Backend} (h : Apart n base s s') (hLogged : Logged s s') (b : Nat)
    (hb : RingByte n base b) : s'.host.mem b = s.host.mem b := by
  obtain ⟨l, hl, hSame⟩ := hLogged.writes
  apply hSame
  intro a ha hWrite
  exact h l hl a ha hWrite b hb

theorem Inv.process (h : Inv cpus n base c x) (hSize : Sized n base) {head len : Nat} {s : Backend}
    (hPc : x.pcs cpu = .process head) (hApart : Apart n base x.dev s)
    (hProcess : virtioBlkProcessDesc x.dev head = .ok (len, s)) :
    Inv cpus n base c { x.move cpu (.setId head len) s with processed := x.processed ++ [head] } := by
  obtain ⟨hSettled, hGet⟩ := h.control.at hPc
  have hLogged := logged_processDesc h.image hProcess
  have hPromises : Promises (x.move cpu (.setId head len) s) :=
    h.promises.inside _ hLogged.signals rfl Pc.noConfusion
  refine h.holder hPc rfl (.setId head len) rfl rfl (congrArg VirtQueue.virtqLock hLogged.vq) ?_ hLogged.disk
    ⟨h.books.ring.congr hSize (hApart.same hLogged), h.books.heads, h.books.writing_lt, ?_, h.books.used⟩
    ⟨?_, ?_, hGet⟩ ⟨hPromises.target_le, hPromises.target_used, hPromises.bumped_le, hPromises.bumped_done⟩
  · change Layout n base s.vq
    rw [hLogged.vq]
    exact h.layout
  · apply concat_isPrefix h.books.processed
    rw [hSettled.count]
    exact hGet
  · change (x.processed ++ [head]).length = x.used.length + 1
    rw [List.length_append, List.length_singleton, hSettled.count]
  · change s.vq.availIdx = _
    rw [hLogged.vq]
    exact hSettled.availIdx

theorem Inv.elemAddr (h : Inv cpus n base c x) (hSize : Sized n base) :
    x.dev.vq.usedAddr (load x.mem x.dev.vq.usedIdxAddr 2) = elemAt n base (c + x.used.length) := by
  rw [h.layout.usedAddr hSize, h.layout.usedIdxAddr hSize, h.books.ring.usedIdx, elemAt_wrap hSize]

theorem setUsedId_mem (s : Backend) (descIdx : Nat) : (setUsedId s descIdx).host.mem =
    store s.host.mem (s.vq.usedAddr (load s.host.mem s.vq.usedIdxAddr 2)) 4 descIdx := rfl

theorem setUsedLen_mem (s : Backend) (len : Nat) : (setUsedLen s len).host.mem =
    store s.host.mem (u64 (s.vq.usedAddr (load s.host.mem s.vq.usedIdxAddr 2) + 4)) 4 len := rfl

theorem bumpUsedIdx_mem (s : Backend) : (bumpUsedIdx s).host.mem =
    store s.host.mem s.vq.usedIdxAddr 2 ((load s.host.mem s.vq.usedIdxAddr 2 + 1) % 2 ^ 16) := rfl

theorem Inv.setId (h : Inv cpus n base c x) (hSize : Sized n base) {head len : Nat}
    (hPc : x.pcs cpu = .setId head len) :
    Inv cpus n base c (x.move cpu (.setLen len) (setUsedId x.dev head)) := by
  have hFlight : InFlight c x head := h.control.at hPc
  have hLt : head < 2 ^ 16 := h.books.heads head (List.mem_of_getElem? hFlight.head)
  have hMem : (setUsedId x.dev head).host.mem = store x.mem (elemAt n base (c + x.used.length)) 4 head := by
    rw [← h.elemAddr hSize]
    exact setUsedId_mem x.dev head
  refine h.holder hPc rfl (.setLen len) rfl rfl rfl h.layout rfl
    ⟨?_, h.books.heads, h.books.writing_lt, h.books.processed, h.books.used⟩
    ⟨head, ⟨hFlight.count, hFlight.availIdx, hFlight.head⟩, ?_⟩ (h.promises.inside _ rfl rfl Pc.noConfusion)
  · change Ring n base c (setUsedId x.dev head).host.mem x.published x.used x.writing
    rw [hMem]
    exact h.books.ring.writeElem hSize (c + x.used.length) 0 head (by decide)
  · change load (setUsedId x.dev head).host.mem _ 4 = head
    rw [hMem]
    exact load_store (Nat.lt_trans hLt (by decide))

theorem Inv.setLen (h : Inv cpus n base c x) (hSize : Sized n base) {len : Nat} (hPc : x.pcs cpu = .setLen len) :
    Inv cpus n base c (x.move cpu .setIdx (setUsedLen x.dev len)) := by
  obtain ⟨head, hFlight, hElem⟩ := h.control.at hPc
  have hLe := hSize.le
  have hBound := hSize.bound
  have hLt := hSize.mod_lt (c + x.used.length)
  have hMem : (setUsedLen x.dev len).host.mem = store x.mem (elemAt n base (c + x.used.length) + 4) 4 len := by
    rw [setUsedLen_mem]
    change store x.mem (u64 (x.dev.vq.usedAddr (load x.mem x.dev.vq.usedIdxAddr 2) + 4)) 4 len = _
    rw [h.elemAddr hSize, u64_of_lt (by rw [elemAt]; omega)]
  refine h.holder hPc rfl .setIdx rfl rfl rfl h.layout rfl
    ⟨?_, h.books.heads, h.books.writing_lt, h.books.processed, h.books.used⟩
    ⟨head, ⟨hFlight.count, hFlight.availIdx, hFlight.head⟩, ?_⟩ (h.promises.inside _ rfl rfl Pc.noConfusion)
  · change Ring n base c (setUsedLen x.dev len).host.mem x.published x.used x.writing
    rw [hMem]
    exact h.books.ring.writeElem hSize (c + x.used.length) 4 len (by decide)
  · change load (setUsedLen x.dev len).host.mem _ 4 = head
    rw [hMem, ← hElem]
    exact load_store_of_disjoint (.inl (Nat.le_refl _))

theorem Inv.setIdx (h : Inv cpus n base c x) (hSize : Sized n base) (hPc : x.pcs cpu = .setIdx) :
    Inv cpus n base c { x.move cpu .next (bumpUsedIdx x.dev) with
      used := x.used ++ [x.nextElem]
      bumped := Function.update x.bumped cpu (x.dev.signals.length + 1) } := by
  obtain ⟨head, hFlight, hElem⟩ := h.control.at hPc
  have hLt : x.used.length < x.published.length := (List.getElem?_eq_some_iff.mp hFlight.head).1
  have hId : x.nextElem.1 = head := by
    rw [← hElem, ← h.elemAddr hSize]
    rfl
  have hMem : (bumpUsedIdx x.dev).host.mem =
      store x.mem (usedIdxAt base) 2 ((load x.mem (usedIdxAt base) 2 + 1) % 2 ^ 16) := by
    rw [← h.layout.usedIdxAddr hSize]
    exact bumpUsedIdx_mem x.dev
  have hLen : (x.used ++ [x.nextElem]).length = x.used.length + 1 := List.length_append
  refine h.holder hPc rfl .next rfl rfl rfl h.layout rfl
    ⟨?_, h.books.heads, h.books.writing_lt, h.books.processed, ?_⟩
    ⟨x.used.length, hLen, hFlight.count, hFlight.availIdx⟩ ⟨h.promises.target_le, ?_, ?_, ?_⟩
  · change Ring n base c (bumpUsedIdx x.dev).host.mem x.published (x.used ++ [x.nextElem]) x.writing
    rw [hMem]
    exact h.books.ring.complete hSize x.nextElem hLt
  · change (x.used ++ [x.nextElem]).map Prod.fst <+: x.published
    rw [List.map_append, List.map_singleton, hId]
    apply concat_isPrefix h.books.used
    rw [List.length_map]
    exact hFlight.head
  · intro b hb
    change x.target b ≤ (x.used ++ [x.nextElem]).length
    change Function.update x.pcs cpu .next b = _ ∨ Function.update x.pcs cpu .next b = _ ∨
      Function.update x.pcs cpu .next b = _ at hb
    obtain rfl | hNe := eq_or_ne b cpu
    · simp [Function.update_self] at hb
    · rw [Function.update_of_ne hNe] at hb
      have hOld := h.promises.target_used b hb
      omega
  · intro b
    change Function.update x.bumped cpu (x.dev.signals.length + 1) b ≤ x.dev.signals.length + 1
    obtain rfl | hNe := eq_or_ne b cpu
    · rw [Function.update_self]
    · rw [Function.update_of_ne hNe]
      exact h.promises.bumped_le b
  · intro b hb hNot
    change Function.update x.bumped cpu (x.dev.signals.length + 1) b ≤ x.dev.signals.length
    change (Function.update x.pcs cpu .next b).holds = false at hb
    change Function.update x.pcs cpu .next b ≠ .signal at hNot
    obtain rfl | hNe := eq_or_ne b cpu
    · rw [Function.update_self] at hb
      cases hb
    · rw [Function.update_of_ne hNe] at hb hNot ⊢
      exact h.promises.bumped_done b hb hNot

theorem Inv.next (h : Inv cpus n base c x) (hPc : x.pcs cpu = .next) :
    Inv cpus n base c (x.move cpu .test (bumpAvailIdx x.dev)) := by
  obtain ⟨k, hUsed, hProcessed, hIdx⟩ := h.control.at hPc
  refine h.holder hPc rfl .test rfl rfl rfl ⟨h.layout.vringNum, h.layout.avail, h.layout.used⟩ rfl
    (h.books.move rfl) ⟨hProcessed.trans hUsed.symm, ?_⟩ (h.promises.inside _ rfl rfl Pc.noConfusion)
  · change (x.dev.vq.availIdx + 1) % 2 ^ 16 = (c + x.used.length) % 2 ^ 16
    rw [hIdx, hUsed]
    omega

theorem Inv.unlock (h : Inv cpus n base c x) (hPc : x.pcs cpu = .unlock) :
    Inv cpus n base c (x.move cpu .signal (x.dev.setLock x.dev.vq.virtqLock.unlock)) := by
  obtain ⟨queue, hTurns⟩ := h.turns
  have hHolds : (x.pcs cpu).holds = true := by
    rw [hPc]
    rfl
  have hSettled : Settled c x := h.control.at hPc
  refine ⟨⟨h.layout.vringNum, h.layout.avail, h.layout.used⟩, h.image,
    hTurns.leave (h.busy hPc Pc.noConfusion) hPc,
    h.books.move rfl, Control.holder hTurns hHolds rfl trivial fun _ => ⟨hSettled.count, hSettled.availIdx⟩,
    h.promises.move rfl ?_ ?_⟩
  · intro _
    exact h.promises.target_used cpu (.inr (.inl hPc))
  · intro _ hNot
    exact (hNot rfl).elim

/-- A step of a vcpu outside the lock that stays outside. -/
theorem Inv.outside (h : Inv cpus n base c x) {old : Pc} (hPc : x.pcs cpu = old) (hOld : old.holds = false) (pc : Pc)
    {s : Backend} (hNew : pc.holds = false)
    (hTurns : ∃ queue, Turns cpus (Function.update x.pcs cpu pc) s.vq.virtqLock queue)
    (hLayout : Layout n base s.vq) (hImage : s.ramdiskStart = x.dev.ramdiskStart)
    (hMem : s.host.mem = x.mem) (hIdx : s.vq.availIdx = x.dev.vq.availIdx) (hPromises : Promises (x.move cpu pc s)) :
    Inv cpus n base c (x.move cpu pc s) := by
  rw [← hPc] at hOld
  refine ⟨hLayout, ?_, hTurns, h.books.move hMem, h.control.update pc hOld hNew
    ⟨List.prefix_rfl, rfl, rfl, hIdx, ?_⟩ rfl, hPromises⟩
  · change s.ramdiskStart + _ < _
    rw [hImage]
    exact h.image
  · change load s.host.mem _ 4 = _
    rw [hMem]

/-- Such a step leaves the line as it is, unless it draws a ticket. -/
theorem Inv.outside_turns (h : Inv cpus n base c x) {old : Pc} (hPc : x.pcs cpu = old) (hBusy : old ≠ .idle) (pc : Pc)
    (hNew : pc.holds = false) (hIn : pc.inLine = old.inLine) (hTicket : pc.ticket = none ∨ pc = old) :
    ∃ queue, Turns cpus (Function.update x.pcs cpu pc) x.dev.vq.virtqLock queue := by
  obtain ⟨queue, hTurns⟩ := h.turns
  refine ⟨queue, hTurns.keep (h.busy hPc hBusy) ?_ ?_ ?_⟩
  · rw [hPc]
    exact hIn
  · intro hBad
    rw [hNew] at hBad
    cases hBad
  · intro t ht
    obtain hNone | rfl := hTicket
    · rw [hNone] at ht
      cases ht
    · rw [hPc]
      exact ht

theorem Inv.entry (h : Inv cpus n base c x) (hPc : x.pcs cpu = .entry) :
    Inv cpus n base c (x.move cpu .lock (reqEntry x.dev)) :=
  h.outside hPc rfl .lock rfl (h.outside_turns hPc Pc.noConfusion .lock rfl rfl (.inl rfl)) h.layout rfl rfl rfl
    (h.promises.waiting hPc rfl Pc.noConfusion .lock rfl (by simp))

theorem Inv.lock (h : Inv cpus n base c x) (hPc : x.pcs cpu = .lock) :
    Inv cpus n base c (x.move cpu (.wait x.dev.vq.virtqLock.takeTicket.1)
      (x.dev.setLock x.dev.vq.virtqLock.takeTicket.2)) := by
  obtain ⟨queue, hTurns⟩ := h.turns
  exact h.outside hPc rfl (.wait x.dev.vq.virtqLock.takeTicket.1) rfl
    ⟨_, hTurns.draw (h.busy hPc Pc.noConfusion) hPc⟩ ⟨h.layout.vringNum, h.layout.avail, h.layout.used⟩
    rfl rfl rfl (h.promises.waiting hPc rfl Pc.noConfusion _ rfl (by simp))

theorem Inv.granted (h : Inv cpus n base c x) (hCpus : cpus < 2 ^ 32)
    (hPc : x.pcs cpu = .wait x.dev.vq.virtqLock.next) :
    Inv cpus n base c (x.move cpu .test x.dev) := by
  obtain ⟨queue, hTurns⟩ := h.turns
  -- the ticket is served, so the vcpu before has unlocked and left nothing under way
  have hNone := hTurns.none_holds hCpus hPc
  have hSettled := h.control.rest hNone
  refine ⟨h.layout, h.image, ⟨queue, hTurns.grant hCpus (h.busy hPc Pc.noConfusion) hPc⟩, h.books.move rfl,
    ⟨?_, ?_⟩, h.promises.inside .test rfl rfl Pc.noConfusion⟩
  · intro b
    change Phase n base c _ (Function.update x.pcs cpu .test b)
    obtain rfl | hNe := eq_or_ne b cpu
    · rw [Function.update_self]
      exact ⟨hSettled.count, hSettled.availIdx⟩
    · rw [Function.update_of_ne hNe]
      exact phase_of_not_holds (hNone b)
  · intro _
    exact ⟨hSettled.count, hSettled.availIdx⟩

theorem Inv.wait (h : Inv cpus n base c x) (hCpus : cpus < 2 ^ 32) {ticket : Nat} (hPc : x.pcs cpu = .wait ticket) :
    Inv cpus n base c (x.move cpu (if x.dev.vq.virtqLock.granted ticket then .test else .wait ticket) x.dev) := by
  cases hGranted : x.dev.vq.virtqLock.granted ticket with
  | true =>
    rw [beq_iff_eq.mp hGranted] at hPc
    exact h.granted hCpus hPc
  | false =>
    exact h.outside hPc rfl (.wait ticket) rfl (h.outside_turns hPc Pc.noConfusion _ rfl rfl (.inr rfl)) h.layout
      rfl rfl rfl (h.promises.waiting hPc rfl Pc.noConfusion _ rfl (by simp))

theorem Inv.signal (h : Inv cpus n base c x) (hPc : x.pcs cpu = .signal) :
    Inv cpus n base c (x.move cpu .idle (virtioSignalVq x.dev)) := by
  refine h.outside hPc rfl .idle rfl (h.outside_turns hPc Pc.noConfusion .idle rfl rfl (.inl rfl)) h.layout rfl rfl rfl
    ⟨h.promises.target_le, ?_, ?_, ?_⟩
  · intro b hb
    change Function.update x.pcs cpu .idle b = _ ∨ Function.update x.pcs cpu .idle b = _ ∨
      Function.update x.pcs cpu .idle b = _ at hb
    obtain rfl | hNe := eq_or_ne b cpu
    · exact h.promises.target_used b (.inr (.inr hPc))
    · rw [Function.update_of_ne hNe] at hb
      exact h.promises.target_used b hb
  · intro b
    exact Nat.le_succ_of_le (h.promises.bumped_le b)
  · intro b _ _
    exact h.promises.bumped_le b

theorem note_eq_move (x : Machine) (cpu : Nat) (pc : Pc) (s : Backend)
    (hProcess : ∀ head, x.pcs cpu ≠ .process head) (hSetIdx : x.pcs cpu ≠ .setIdx) :
    x.note cpu pc s = x.move cpu pc s := by
  unfold Machine.note Machine.move
  cases hPc : x.pcs cpu with
  | process head => exact (hProcess head hPc).elim
  | setIdx => exact (hSetIdx hPc).elim
  | _ => rfl

theorem Inv.handler (h : Inv cpus n base c x) (hSize : Sized n base) (hCpus : cpus < 2 ^ 32) {pc : Pc} {s : Backend}
    (hBusy : x.pcs cpu ≠ .idle) (hApart : ∀ head, x.pcs cpu = .process head → Apart n base x.dev s)
    (hStep : handlerStep x.dev (x.pcs cpu) = .ok (pc, s)) : Inv cpus n base c (x.note cpu pc s) := by
  -- only processing a head and advancing the used index are noted in the histories
  have hMove := note_eq_move x cpu pc s
  generalize hPc : x.pcs cpu = old at hStep hMove
  cases old with
  | idle => exact (hBusy hPc).elim
  | process head =>
    obtain ⟨⟨len, s'⟩, hProcess, hEq⟩ := bind_eq_ok.mp hStep
    cases hEq
    have hNext := h.process hSize hPc (hApart head hPc) hProcess
    unfold Machine.note
    rw [hPc]
    exact hNext
  | setIdx =>
    cases hStep
    have hNext := h.setIdx hSize hPc
    unfold Machine.note
    rw [hPc]
    exact hNext
  | entry =>
    rw [hMove (by simp) (by simp)]
    cases hStep
    exact h.entry hPc
  | lock =>
    rw [hMove (by simp) (by simp)]
    cases hStep
    exact h.lock hPc
  | wait ticket =>
    rw [hMove (by simp) (by simp)]
    cases hStep
    exact h.wait hCpus hPc
  | test =>
    rw [hMove (by simp) (by simp)]
    cases hStep
    exact h.test hSize hPc
  | fetch =>
    rw [hMove (by simp) (by simp)]
    cases hStep
    exact h.fetch hSize hPc
  | setId head len =>
    rw [hMove (by simp) (by simp)]
    cases hStep
    exact h.setId hSize hPc
  | setLen len =>
    rw [hMove (by simp) (by simp)]
    cases hStep
    exact h.setLen hSize hPc
  | next =>
    rw [hMove (by simp) (by simp)]
    cases hStep
    exact h.next hPc
  | unlock =>
    rw [hMove (by simp) (by simp)]
    cases hStep
    exact h.unlock hPc
  | signal =>
    rw [hMove (by simp) (by simp)]
    cases hStep
    exact h.signal hPc

theorem Inv.step (h : Inv cpus n base c x) (hSize : Sized n base) (hCpus : cpus < 2 ^ 32)
    (hStep : Step cpus n base x x') : Inv cpus n base c x' := by
  cases hStep with
  | slot hNone hRoom hHead => exact h.slot hSize hNone hRoom hHead
  | publish hWriting => exact h.publish hSize hWriting
  | guest hSame => exact h.guest hSize hSame
  | notify hCpu hIdle => exact h.notify hCpu hIdle
  | handler hBusy hApart hStep => exact h.handler hSize hCpus hBusy hApart hStep

theorem Start.inv (h : Start n base c x) (hSize : Sized n base) : Inv cpus n base c x := by
  have hNil : x.published = [] := h.published
  have hLt : c < 2 ^ 16 := by
    rw [← h.availMem]
    exact load_lt _ _ 2
  have hSettled : Settled c x := by
    refine ⟨?_, ?_⟩
    · rw [h.processed, h.used]
      rfl
    · rw [h.availIdx, h.used]
      exact (Nat.mod_eq_of_lt hLt).symm
  refine ⟨h.layout, h.image, ⟨[], ?_⟩, ⟨?_, ?_, ?_, ?_, ?_⟩, ⟨?_, fun _ => hSettled⟩,
    ⟨?_, ?_, ?_, ?_⟩⟩
  · exact turns_nil (fun cpu => by rw [h.idle cpu]; rfl)
      (fun cpu hBusy => (hBusy (h.idle cpu)).elim) h.unlocked h.next_lt
  · refine ⟨?_, ?_, ?_, ?_, ?_, ?_⟩
    · rw [← h.layout.availIdxAddr hSize, h.availMem, hNil]
      exact (Nat.mod_eq_of_lt hLt).symm
    · rw [← h.layout.usedIdxAddr hSize, h.usedMem, h.used]
      exact (Nat.mod_eq_of_lt hLt).symm
    · intro k head _ hGet
      rw [hNil] at hGet
      cases hGet
    · intro head hBad
      rw [h.writing] at hBad
      cases hBad
    · rw [hNil, h.used]
      exact Nat.le_refl 0
    · rw [hNil]
      exact Nat.zero_le _
  · intro head hMem
    rw [hNil] at hMem
    cases hMem
  · intro head hBad
    rw [h.writing] at hBad
    cases hBad
  · rw [h.processed]
    exact List.nil_prefix
  · rw [h.used]
    exact List.nil_prefix
  · intro cpu
    rw [h.idle cpu]
    trivial
  · intro cpu
    rw [h.target cpu]
    exact Nat.zero_le _
  · intro cpu _
    rw [h.target cpu]
    exact Nat.zero_le _
  · intro cpu
    rw [h.bumped cpu]
    exact Nat.zero_le _
  · intro cpu _ _
    rw [h.bumped cpu]
    exact Nat.zero_le _

/-- Heads are processed and returned in the order they were published, each once; the used index
counts what was returned; a vcpu back from the handler leaves everything published before its
notification returned, and an interrupt raised after the last element it returned. -/
structure ExactlyOnce (c : Nat) (x : Machine) : Prop where
  processed : x.processed <+: x.published
  used : x.used.map Prod.fst <+: x.published
  usedIdx : load x.mem x.dev.vq.usedIdxAddr 2 = (c + x.used.length) % 2 ^ 16
  atMostOne : x.used.length ≤ x.processed.length ∧ x.processed.length ≤ x.used.length + 1
  settled : (∀ cpu, (x.pcs cpu).holds = false) → x.processed.length = x.used.length
  complete : ∀ cpu, x.pcs cpu = .idle → x.target cpu ≤ x.used.length
  signalled : ∀ cpu, x.pcs cpu = .idle → x.bumped cpu ≤ x.dev.signals.length

theorem Phase.count {pc : Pc} (h : Phase n base c x pc) (hHolds : pc.holds = true) :
    x.used.length ≤ x.processed.length ∧ x.processed.length ≤ x.used.length + 1 := by
  cases pc with
  | test =>
    have hCount := Settled.count h
    omega
  | unlock =>
    have hCount := Settled.count h
    omega
  | fetch =>
    have hCount := h.1.count
    omega
  | process head =>
    have hCount := h.1.count
    omega
  | setId head len =>
    have hCount := InFlight.count h
    omega
  | setLen len =>
    obtain ⟨_, hFlight, _⟩ := h
    have hCount := hFlight.count
    omega
  | setIdx =>
    obtain ⟨_, hFlight, _⟩ := h
    have hCount := hFlight.count
    omega
  | next =>
    obtain ⟨k, hUsed, hProcessed, _⟩ := h
    omega
  | idle => cases hHolds
  | entry => cases hHolds
  | lock => cases hHolds
  | wait ticket => cases hHolds
  | signal => cases hHolds

theorem Inv.exactlyOnce (h : Inv cpus n base c x) (hSize : Sized n base) : ExactlyOnce c x := by
  refine ⟨h.books.processed, h.books.used, ?_, ?_, fun hNone => (h.control.rest hNone).count, ?_, ?_⟩
  · rw [h.layout.usedIdxAddr hSize]
    exact h.books.ring.usedIdx
  · by_cases hHolder : ∃ cpu, (x.pcs cpu).holds = true
    · obtain ⟨cpu, hHolds⟩ := hHolder
      exact (h.control.phase cpu).count hHolds
    · have hSettled := h.control.rest fun cpu => Bool.eq_false_iff.mpr fun hHolds => hHolder ⟨cpu, hHolds⟩
      have hCount := hSettled.count
      omega
  · intro cpu hIdle
    exact h.promises.target_used cpu (.inl hIdle)
  · intro cpu hIdle
    apply h.promises.bumped_done cpu
    · rw [hIdle]
      rfl
    · rw [hIdle]
      exact Pc.noConfusion

/-- Over every interleaving of the driver with the handlers of fewer than `2 ^ 32` vcpus. -/
theorem requests_exactly_once {x₀ : Machine} (hSize : Sized n base) (hCpus : cpus < 2 ^ 32)
    (hStart : Start n base c x₀) (hRun : Relation.ReflTransGen (Step cpus n base) x₀ x) : ExactlyOnce c x := by
  have hStep : ∀ y z, Inv cpus n base c y → Step cpus n base y z → Inv cpus n base c z :=
    fun _ _ h hStep => h.step hSize hCpus hStep
  exact (Library.Run.invariant hStep (hStart.inv hSize) hRun).exactlyOnce hSize

end

inductive Move
  | slot (head : Nat)
  | publish
  | notify (cpu : Nat)
  | run (cpu : Nat)

/-- The step of vcpu `cpu` to `s` is not one of a request that writes. -/
def Machine.quiet (x : Machine) (cpu : Nat) (s : Backend) : Bool :=
  match x.pcs cpu with
  | .process _ => (s.accesses.take (s.accesses.length - x.dev.accesses.length)).all fun a => !a.write
  | _ => true

def Machine.act (cpus n : Nat) (x : Machine) : Move → Option Machine
  | .slot head =>
    if x.writing = none ∧ x.published.length < x.used.length + n ∧ head < 2 ^ 16 then
      some { x with
        dev := x.dev.setMem (store x.mem (x.dev.vq.availAddr (load x.mem x.dev.vq.availIdxAddr 2)) 2 head)
        writing := some head }
    else none
  | .publish =>
    x.writing.map fun head => { x with
      dev := x.dev.setMem (store x.mem x.dev.vq.availIdxAddr 2 ((load x.mem x.dev.vq.availIdxAddr 2 + 1) % 2 ^ 16))
      writing := none
      published := x.published ++ [head] }
  | .notify cpu =>
    if cpu < cpus ∧ x.pcs cpu = .idle then
      some { x with
        pcs := Function.update x.pcs cpu .entry
        target := Function.update x.target cpu x.published.length }
    else none
  | .run cpu =>
    match handlerStep x.dev (x.pcs cpu) with
    | .ok (pc, s) => if x.pcs cpu ≠ .idle ∧ x.quiet cpu s = true then some (x.note cpu pc s) else none
    | .error _ => none

theorem Machine.quiet_apart {x : Machine} {cpu n base head : Nat} {s : Backend} (h : x.quiet cpu s = true)
    (hPc : x.pcs cpu = .process head) : Apart n base x.dev s := by
  intro l hl a ha hWrite
  have hTake : s.accesses.take (s.accesses.length - x.dev.accesses.length) = l := by
    rw [hl, List.length_append, Nat.add_sub_cancel, List.take_left]
  rw [quiet, hPc] at h
  dsimp only at h
  rw [hTake] at h
  have hRead := List.all_eq_true.mp h a ha
  rw [hWrite] at hRead
  cases hRead

theorem Machine.act_step {cpus n base : Nat} {x y : Machine} {e : Move} (h : x.act cpus n e = some y) :
    Step cpus n base x y := by
  cases e with
  | slot head =>
    obtain ⟨⟨hNone, hRoom, hHead⟩, ⟨⟩⟩ := Option.ite_none_right_eq_some.mp h
    exact .slot hNone hRoom hHead
  | publish =>
    obtain ⟨head, hWriting, rfl⟩ := Option.map_eq_some_iff.mp h
    exact .publish hWriting
  | notify cpu =>
    obtain ⟨⟨hCpu, hIdle⟩, ⟨⟩⟩ := Option.ite_none_right_eq_some.mp h
    exact .notify hCpu hIdle
  | run cpu =>
    rw [act] at h
    cases hStep : handlerStep x.dev (x.pcs cpu) with
    | error e =>
      rw [hStep] at h
      cases h
    | ok r =>
      rw [hStep] at h
      obtain ⟨⟨hBusy, hQuiet⟩, ⟨⟩⟩ := Option.ite_none_right_eq_some.mp h
      exact .handler hBusy (fun _ hPc => Machine.quiet_apart hQuiet hPc) hStep

theorem moves_run {cpus n base : Nat} {x y : Machine} (moves : List Move)
    (h : moves.foldlM (Machine.act cpus n) x = some y) : Relation.ReflTransGen (Step cpus n base) x y := by
  induction moves generalizing x with
  | nil =>
    cases h
    exact .refl
  | cons e moves ih =>
    obtain ⟨z, hMove, hRest⟩ := Option.bind_eq_some_iff.mp h
    exact (ih hRest).head (Machine.act_step hMove)

/-- A queue of two at host address 0x1000, in memory that is all zero. -/
def emptyQueue : Machine where
  pcs := fun _ => .idle
  dev := {
    host := ⟨fun _ => 0, ⟨fun _ => 0, 0, 0, 0⟩, []⟩
    stage2Pt := 0
    ramdiskStart := 0x10000000
    guestPagesz := 4096
    queueSel := 0
    vq := ⟨.init, 2, 0x1000, 0x1000, 0, 0x1000, 0x1020, 0x2000⟩
    signals := []
    accesses := [] }
  writing := none
  published := []
  processed := []
  used := []
  target := fun _ => 0
  bumped := fun _ => 0

theorem emptyQueue_start : Start 2 0x1000 0 emptyQueue where
  layout := ⟨rfl, rfl, rfl⟩
  image := by decide
  idle := fun _ => rfl
  unlocked := rfl
  next_lt := by decide
  availIdx := rfl
  availMem := by decide
  usedMem := by decide
  writing := rfl
  published := rfl
  processed := rfl
  used := rfl
  target := fun _ => rfl
  bumped := fun _ => rfl

/-- Vcpu 0 serves head 1. It has made its last test when head 0 is published and vcpu 1 is notified, which
waits for the lock and serves head 0. Each head is a chain of one descriptor. -/
def twoMoves : List Move :=
  [.slot 1, .publish, .notify 0] ++ List.replicate 11 (.run 0) ++ [.slot 0, .publish, .notify 1] ++
    List.replicate 3 (.run 1) ++ List.replicate 2 (.run 0) ++ List.replicate 11 (.run 1)

theorem twoMoves_result : ((twoMoves.foldlM (Machine.act 2 2) emptyQueue).map fun x =>
    (x.published, x.processed, x.used, x.pcs 0, x.pcs 1)) =
      some ([1, 0], [1, 0], [(1, 1), (0, 1)], .idle, .idle) := by
  decide +kernel

theorem requests_exactly_once_twoHeads : ∃ x, Relation.ReflTransGen (Step 2 2 0x1000) emptyQueue x ∧
    x.published = [1, 0] ∧ x.processed = [1, 0] ∧ x.used = [(1, 1), (0, 1)] ∧ x.pcs 0 = .idle ∧
    x.pcs 1 = .idle ∧
    ExactlyOnce 0 x := by
  obtain ⟨x, hMoves, hResult⟩ := Option.map_eq_some_iff.mp twoMoves_result
  have hRun : Relation.ReflTransGen (Step 2 2 0x1000) emptyQueue x := moves_run twoMoves hMoves
  simp only [Prod.mk.injEq] at hResult
  obtain ⟨hPublished, hProcessed, hUsed, hFirst, hSecond⟩ := hResult
  exact ⟨x, hRun, hPublished, hProcessed, hUsed, hFirst, hSecond,
    requests_exactly_once ⟨⟨1, by decide, by decide, rfl⟩, by decide⟩ (by decide) emptyQueue_start hRun⟩

end HyperPoc.Virtio.Completion
