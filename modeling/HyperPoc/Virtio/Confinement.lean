import HyperPoc.Virtio.BlockDevice
import HyperPoc.Virtio.Handler

/-! # Confinement of the backend

The guest writes the window's registers and its own memory as it likes. Each handler step reaches
host memory at addresses made from what it finds there. The backend checks none of them; this module
says what they have to be for the backend to stay within the guest's frames and the image.
-/
namespace HyperPoc.Virtio
open Library.Memory Library.Run Stage2
set_option autoImplicit false

/-- The `n` bytes at host address `a` all lie in mapped frames or in the image. -/
def Backed (s : Backend) (a n : Nat) : Prop :=
  ∀ i, i < n → Confined s.host.mem s.stage2Pt s.ramdiskStart (a + i)

def Backend.Space (s : Backend) (node : Nat → Nat → Option Nat) : Prop :=
  Virtio.Space s.host.mem s.stage2Pt s.ramdiskStart node

/-- From `s` to `s'` only backed bytes have been touched. -/
structure Keeps (s s' : Backend) : Prop where
  root : s'.stage2Pt = s.stage2Pt
  disk : s'.ramdiskStart = s.ramdiskStart
  same : ∀ b, ¬Confined s.host.mem s.stage2Pt s.ramdiskStart b → s'.host.mem b = s.host.mem b
  touched : ∃ l, s'.accesses = l ++ s.accesses ∧ ∀ a ∈ l, Backed s a.addr a.size

section
variable {s s₁ s₂ : Backend} {node : Nat → Nat → Option Nat}

theorem Keeps.space (h : Keeps s s₁) (hSpace : s.Space node) : s₁.Space node := by
  rw [Backend.Space, h.root, h.disk]
  exact (hSpace.of_confined h.same).1

theorem Keeps.confined_iff (h : Keeps s s₁) (hSpace : s.Space node) (b : Nat) :
    Confined s₁.host.mem s₁.stage2Pt s₁.ramdiskStart b ↔ Confined s.host.mem s.stage2Pt s.ramdiskStart b := by
  rw [h.root, h.disk, Confined, Confined, guestByte_congr (hSpace.of_confined h.same).2]

theorem Keeps.backed_iff (h : Keeps s s₁) (hSpace : s.Space node) (a n : Nat) : Backed s₁ a n ↔ Backed s a n := by
  simp only [Backed, h.confined_iff hSpace]

theorem Keeps.trans (h : Keeps s s₁) (hSpace : s.Space node) (h' : Keeps s₁ s₂) : Keeps s s₂ := by
  obtain ⟨l, hl, hBacked⟩ := h.touched
  obtain ⟨l', hl', hBacked'⟩ := h'.touched
  refine ⟨h'.root.trans h.root, h'.disk.trans h.disk, ?_, l' ++ l, ?_, ?_⟩
  · intro b hb
    rw [h'.same b fun hc => hb ((h.confined_iff hSpace b).mp hc), h.same b hb]
  · rw [hl', hl, List.append_assoc]
  · intro a ha
    obtain ha | ha := List.mem_append.mp ha
    · exact (h.backed_iff hSpace _ _).mp (hBacked' a ha)
    · exact hBacked a ha

theorem keeps_of_eq (hRoot : s₁.stage2Pt = s.stage2Pt) (hDisk : s₁.ramdiskStart = s.ramdiskStart)
    (hMem : s₁.host.mem = s.host.mem) (hAccesses : s₁.accesses = s.accesses) : Keeps s s₁ := by
  refine ⟨hRoot, hDisk, fun b _ => by rw [hMem], [], hAccesses, ?_⟩
  intro a ha
  cases ha

theorem keeps_after {l : List Access} (h : ∀ a ∈ l, Backed s a.addr a.size) : Keeps s (s.after l) :=
  ⟨rfl, rfl, fun _ _ => rfl, l, rfl, h⟩

theorem keeps_record {a n : Nat} (write : Bool) (h : Backed s a n) : Keeps s (s.record write a n) := by
  rw [Backend.record_eq]
  apply keeps_after
  intro x hx
  rw [List.mem_singleton.mp hx]
  exact h

theorem keeps_setMem {m : Mem} (h : ∀ b, ¬Confined s.host.mem s.stage2Pt s.ramdiskStart b → m b = s.host.mem b) :
    Keeps s (s.setMem m) := by
  refine ⟨rfl, rfl, h, [], rfl, ?_⟩
  intro a ha
  cases ha

theorem keeps_put {a n v : Nat} (hSpace : s.Space node) (h : Backed s a n) : Keeps s (s.put a n v) := by
  apply (keeps_record true h).trans hSpace
  apply keeps_setMem
  intro b hb
  apply store_sameOutside s.host.mem a n v
  by_contra hIn
  apply hb
  have hConfined := h (b - a) (by omega)
  rwa [Nat.add_sub_cancel' (by omega)] at hConfined

theorem backed_block {blk : Nat} (hSpace : s.Space node) (hBlk : blk < fsimgSize) :
    Backed s (u64 (s.ramdiskStart + blk * blockSize)) blockSize := by
  intro i hi
  right
  rw [hSpace.diskAddr hBlk]
  exact inImage_of_block hBlk (by omega) (by omega)

theorem keeps_ramdiskRw {blk buf : Nat} {isWrite : Bool} (hSpace : s.Space node)
    (hBuf : blk < fsimgSize → Backed s buf blockSize) : Keeps s (ramdiskRw s blk buf isWrite).2 := by
  have hSame : ∀ b, ¬Confined s.host.mem s.stage2Pt s.ramdiskStart b →
      (ramdiskRw s blk buf isWrite).2.host.mem b = s.host.mem b := ramdiskRw_same hSpace hBuf
  obtain hBlk | hGe := Nat.lt_or_ge blk fsimgSize
  · have hDisk := backed_block hSpace hBlk
    cases isWrite with
    | true =>
      rw [ramdiskRw_write hBlk] at hSame ⊢
      refine ⟨rfl, rfl, hSame, [_, _], rfl, ?_⟩
      simp only [List.forall_mem_cons]
      exact ⟨hDisk, hBuf hBlk, List.forall_mem_nil _⟩
    | false =>
      rw [ramdiskRw_read hBlk] at hSame ⊢
      refine ⟨rfl, rfl, hSame, [_, _], rfl, ?_⟩
      simp only [List.forall_mem_cons]
      exact ⟨hBuf hBlk, hDisk, List.forall_mem_nil _⟩
  · rw [ramdiskRw_ge hGe]
    exact keeps_of_eq rfl rfl rfl rfl

end

/-- The chain at `head` fits into the local array and lies in backed memory. If it is a request, its
three addresses are mapped and what is moved through them is backed. -/
structure RequestReady (s : Backend) (head : Nat) : Prop where
  ends : s.vq.EndsWithin s.host.mem (min s.vq.vringNum (2 ^ 16)) head
  descs : ∀ i, InChain s.vq s.host.mem head i → Backed s (s.vq.descAddr i) 16
  request : ∀ second third, ThreeChain s.vq s.host.mem head second third → ∃ t₀ t₂,
    archWalk s.host.mem s.stage2Pt (s.vq.descAt s.host.mem head).addr = some t₀ ∧
    Backed s (t₀.pa + 8) 8 ∧ Backed s t₀.pa 4 ∧
    archWalk s.host.mem s.stage2Pt (s.vq.descAt s.host.mem third).addr = some t₂ ∧
    (load s.host.mem (t₀.pa + 8) 8 / 2 < fsimgSize → ∃ t₁,
      archWalk s.host.mem s.stage2Pt (s.vq.descAt s.host.mem second).addr = some t₁ ∧ Backed s t₁.pa blockSize)

/-- What a handler step needs of the state it is taken in. -/
def Ready (s : Backend) : Pc → Prop
  | .entry | .test => Backed s s.vq.availIdxAddr 2
  | .fetch => Backed s (s.vq.availAddr s.vq.availIdx) 2
  | .process descIdx => RequestReady s descIdx
  | .setId _ _ => Backed s s.vq.usedIdxAddr 2 ∧
      Backed s (s.vq.usedAddr (load s.host.mem s.vq.usedIdxAddr 2)) 4
  | .setLen _ => Backed s s.vq.usedIdxAddr 2 ∧
      Backed s (u64 (s.vq.usedAddr (load s.host.mem s.vq.usedIdxAddr 2) + 4)) 4
  | .setIdx => Backed s s.vq.usedIdxAddr 2
  | .idle | .lock | .wait _ | .next | .unlock | .signal => True

section
variable {s : Backend} {node : Nat → Nat → Option Nat} {head second third : Nat}

theorem readsChain_visits (h : ThreeChain s.vq s.host.mem head second third) : ReadsChain s.vq s.host.mem head
    (visit s.vq third ++ (visit s.vq second ++ visit s.vq head)) := by
  rw [← List.append_assoc]
  apply ReadsChain.of_successor _ h.first
  exact (readsChain_visit _ _ _).of_successor h.middle

theorem RequestReady.reads (h : RequestReady s head) {l : List Access} (hl : ReadsChain s.vq s.host.mem head l) :
    ∀ a ∈ l, Backed s a.addr a.size := by
  intro a ha
  obtain ⟨i, hi, rfl⟩ := hl a ha
  exact h.descs i hi

theorem guestToHost_returns (hSpace : s.Space node) (ipa : Nat) : ∃ pa, virtioGuestToHost s ipa = .ok pa :=
  ⟨_, hSpace.tree.ipa2pa_eq ipa⟩

theorem RequestReady.blkReq (h : RequestReady s head) (hSpace : s.Space node)
    (hChain : ThreeChain s.vq s.host.mem head second third) : ∃ s', processBlkReq s (s.vq.descAt s.host.mem head)
      (s.vq.descAt s.host.mem second) (s.vq.descAt s.host.mem third) = .ok s' ∧ Keeps s s' := by
  obtain ⟨t₀, t₂, hReq, hSector, hType, hStatus, hBuffer⟩ := h.request second third hChain
  obtain ⟨buf, hBufAddr⟩ := guestToHost_returns hSpace (s.vq.descAt s.host.mem second).addr
  have hBuf : load s.host.mem (t₀.pa + 8) 8 / 2 < fsimgSize → Backed s buf blockSize := by
    intro hBlk
    obtain ⟨t₁, hWalk, hBacked⟩ := hBuffer hBlk
    rw [hSpace.guestToHost hWalk] at hBufAddr
    cases hBufAddr
    exact hBacked
  have hSame : ∀ b, ¬Confined s.host.mem s.stage2Pt s.ramdiskStart b →
      (transfer s t₀.pa buf).2.host.mem b = s.host.mem b :=
    ramdiskRw_same (s := (s.record false (t₀.pa + 8) 8).record false t₀.pa 4) hSpace hBuf
  refine ⟨_, processBlkReq_eq hSpace hReq hBufAddr hStatus hSame, ?_⟩
  have hHeader : Keeps s ((s.record false (t₀.pa + 8) 8).record false t₀.pa 4) :=
    (keeps_record false hSector).trans hSpace (keeps_record false hType)
  have hMoved : Keeps s (transfer s t₀.pa buf).2 := hHeader.trans hSpace (keeps_ramdiskRw hSpace hBuf)
  apply hMoved.trans hSpace (keeps_put (hMoved.space hSpace) _)
  intro i hi
  rw [hMoved.confined_iff hSpace, Nat.lt_one_iff.mp hi]
  exact .inl (guestByte_of_walk hStatus)

theorem RequestReady.after (h : RequestReady s head) (l : List Access) : RequestReady (s.after l) head :=
  ⟨h.ends, h.descs, h.request⟩

/-- A ready request is carried out and touches backed bytes only. -/
theorem RequestReady.process (h : RequestReady s head) (hSpace : s.Space node) :
    ∃ len s', virtioBlkProcessDesc s head = .ok (len, s') ∧ Keeps s s' := by
  have hReturns : ∃ r, chainLoop (s.vq.vringNum % 2 ^ 16) (2 ^ 16) s head (fun _ => ⟨0, 0, 0, 0⟩) 0 = .ok r :=
    chainLoop_returns h.ends (Nat.min_le_right _ _) (by omega) (by omega)
  obtain ⟨⟨desc, len, s₁⟩, hLoop⟩ := hReturns
  obtain rfl | hLen := eq_or_ne len 3
  · obtain ⟨hNum, second, third, hChain⟩ := threeChain_of_chainLoop (by decide) (by decide) hLoop
    obtain ⟨s', hReq, hKeeps⟩ := (h.after (visit s.vq third ++ (visit s.vq second ++ visit s.vq head))).blkReq
      hSpace hChain
    refine ⟨3, s', ?_, (keeps_after (h.reads (readsChain_visits hChain))).trans hSpace hKeeps⟩
    rw [hChain.process_eq hNum]
    exact bind_eq_ok.mpr ⟨s', hReq, rfl⟩
  · obtain ⟨_, l, rfl, hReads⟩ := chainLoop_spec hLoop
    refine ⟨len, _, ?_, keeps_after (h.reads hReads)⟩
    unfold virtioBlkProcessDesc
    apply bind_eq_ok.mpr ⟨_, hLoop, _⟩
    exact if_pos hLen

end

theorem virtioMmioWrite_keeps {n offset val : Nat} {s s' : Backend} (hOffset : offset ≠ 0x50)
    (h : virtioMmioWrite n s offset val = .ok s') : Keeps s s' := by
  unfold virtioMmioWrite at h
  split at h
  case h_2 =>
    split at h
    · cases h
    · cases h
      exact keeps_of_eq rfl rfl rfl rfl
  case h_6 =>
    obtain ⟨pa, _, hEq⟩ := bind_eq_ok.mp h
    cases hEq
    exact keeps_of_eq rfl rfl rfl rfl
  case h_8 => exact (hOffset rfl).elim
  all_goals
    cases h <;> exact keeps_of_eq rfl rfl rfl rfl

/-- A handler step taken in a state it is ready for returns, and touches backed bytes only. -/
theorem handlerStep_keeps {s : Backend} {node : Nat → Nat → Option Nat} {pc : Pc} (hSpace : s.Space node)
    (hReady : Ready s pc) : ∃ pc' s', handlerStep s pc = .ok (pc', s') ∧ Keeps s s' := by
  cases pc with
  | entry => exact ⟨_, _, rfl, keeps_record false hReady⟩
  | test => exact ⟨_, _, rfl, keeps_record false hReady⟩
  | fetch => exact ⟨_, _, rfl, keeps_record false hReady⟩
  | process descIdx =>
    obtain ⟨len, s', hProcess, hKeeps⟩ := hReady.process hSpace
    exact ⟨_, _, bind_eq_ok.mpr ⟨_, hProcess, rfl⟩, hKeeps⟩
  | setId descIdx descLen =>
    obtain ⟨hIdx, hElem⟩ := hReady
    exact ⟨_, _, rfl, (keeps_record false hIdx).trans hSpace (keeps_put hSpace hElem)⟩
  | setLen descLen =>
    obtain ⟨hIdx, hElem⟩ := hReady
    exact ⟨_, _, rfl, (keeps_record false hIdx).trans hSpace (keeps_put hSpace hElem)⟩
  | setIdx => exact ⟨_, _, rfl, (keeps_record false hReady).trans hSpace (keeps_put hSpace hReady)⟩
  | idle => exact ⟨_, _, rfl, keeps_of_eq rfl rfl rfl rfl⟩
  | lock => exact ⟨_, _, rfl, keeps_of_eq rfl rfl rfl rfl⟩
  | wait ticket => exact ⟨_, _, rfl, keeps_of_eq rfl rfl rfl rfl⟩
  | next => exact ⟨_, _, rfl, keeps_of_eq rfl rfl rfl rfl⟩
  | unlock => exact ⟨_, _, rfl, keeps_of_eq rfl rfl rfl rfl⟩
  | signal => exact ⟨_, _, rfl, keeps_of_eq rfl rfl rfl rfl⟩

/-- What the vcpus of the VM do: they write their memory and the registers of the window, and those
that have trapped on a notification go through the handler. -/
inductive Event
  | guest (m : Mem)
  | read (offset val : Nat)
  | write (offset val : Nat)
  | notify (cpu : Nat)
  | handler (cpu : Nat)

inductive Step (x : System) : Event → System → Prop
  | guest {m : Mem} (hSame : ∀ b, ¬GuestByte x.dev.host.mem x.dev.stage2Pt b → m b = x.dev.host.mem b) :
    Step x (.guest m) { x with dev := x.dev.setMem m }
  | read {offset val v : Nat} (hRead : virtioMmioRead offset val = .ok v) : Step x (.read offset val) x
  | write {offset val n : Nat} {s : Backend} (hOffset : offset ≠ 0x50)
    (hWrite : virtioMmioWrite n x.dev offset val = .ok s) : Step x (.write offset val) { x with dev := s }
  | notify {cpu : Nat} (hIdle : x.pcs cpu = .idle) :
    Step x (.notify cpu) { x with pcs := Function.update x.pcs cpu .entry }
  | handler {cpu : Nat} {pc : Pc} {s : Backend} (hStep : handlerStep x.dev (x.pcs cpu) = .ok (pc, s)) :
    Step x (.handler cpu) ⟨Function.update x.pcs cpu pc, s⟩

/-- The condition on a step: a handler finds what it is about to use backed. -/
def Allowed (x : System) : Event → Prop
  | .handler cpu => Ready x.dev (x.pcs cpu)
  | _ => True

def AllowedStep (x y : System) : Prop := ∃ e, Allowed x e ∧ Step x e y

theorem AllowedStep.keeps {x y : System} {node : Nat → Nat → Option Nat} (hSpace : x.dev.Space node)
    (h : AllowedStep x y) : Keeps x.dev y.dev := by
  obtain ⟨e, hAllowed, hStep⟩ := h
  cases hStep with
  | guest hSame => exact keeps_setMem fun b hb => hSame b fun hGuest => hb (.inl hGuest)
  | read _ => exact keeps_of_eq rfl rfl rfl rfl
  | write hOffset hWrite => exact virtioMmioWrite_keeps hOffset hWrite
  | notify _ => exact keeps_of_eq rfl rfl rfl rfl
  | handler hStep =>
    obtain ⟨_, _, hEq, hKeeps⟩ := handlerStep_keeps hSpace hAllowed
    rw [hStep] at hEq
    cases hEq
    exact hKeeps

structure Inside (node : Nat → Nat → Option Nat) (s : Backend) : Prop where
  space : s.Space node
  backed : ∀ a ∈ s.accesses, Backed s a.addr a.size

theorem Inside.step {x y : System} {node : Nat → Nat → Option Nat} (h : Inside node x.dev)
    (hStep : AllowedStep x y) : Inside node y.dev := by
  -- accesses made earlier stay backed, as no step changes the tables
  have hKeeps := hStep.keeps h.space
  obtain ⟨l, hl, hBacked⟩ := hKeeps.touched
  refine ⟨hKeeps.space h.space, ?_⟩
  intro a ha
  rw [hl] at ha
  rw [hKeeps.backed_iff h.space]
  obtain ha | ha := List.mem_append.mp ha
  · exact hBacked a ha
  · exact h.backed a ha

/-- In a run whose handler steps are all taken in states they are ready for, the backend has only
touched bytes of mapped frames and of the image, and no handler step fails. -/
theorem backend_confined {x₀ x : System} {node : Nat → Nat → Option Nat} (hSpace : x₀.dev.Space node)
    (hFresh : x₀.dev.accesses = []) (hRun : Relation.ReflTransGen AllowedStep x₀ x) :
    (∀ a ∈ x.dev.accesses, Backed x.dev a.addr a.size) ∧
    ∀ cpu, Allowed x (.handler cpu) → ∃ y, Step x (.handler cpu) y := by
  have hStart : Inside node x₀.dev := by
    refine ⟨hSpace, ?_⟩
    intro a ha
    rw [hFresh] at ha
    cases ha
  have hStep : ∀ y z : System, Inside node y.dev → AllowedStep y z → Inside node z.dev := fun _ _ => Inside.step
  have hInside := Library.Run.invariant hStep hStart hRun
  refine ⟨hInside.backed, ?_⟩
  intro cpu hAllowed
  obtain ⟨pc, s, hStep, _⟩ := handlerStep_keeps hInside.space hAllowed
  exact ⟨_, .handler hStep⟩

def pageBackend (m page : Mem) (q : VirtQueue) (l : List Access) : Backend where
  host := ⟨withPage m page 0x40001000, bootHypervisor.host.allocator, []⟩
  stage2Pt := 0x40000000
  ramdiskStart := 0x10000000
  guestPagesz := 0
  queueSel := 0
  vq := q
  signals := []
  accesses := l

def bootQueue : VirtQueue := ⟨.init, 0, 0, 0, 0, 0, 0, 0⟩

def sizedQueue : VirtQueue := ⟨.init, 8, 0, 0, 0, 0, 0, 0⟩

def heldQueue : VirtQueue := ⟨⟨1, 0⟩, 8, 0x80000000, 0x40001000, 0, 0x40001000, 0x40001080, 0x40002000⟩

section
variable {x₀ x : System}

theorem run_write {pcs : Nat → Pc} {s : Backend} (offset val : Nat) (t : Backend)
    (hRun : Relation.ReflTransGen AllowedStep x₀ ⟨pcs, s⟩) (hOffset : offset ≠ 0x50)
    (hWrite : virtioMmioWrite 0 s offset val = .ok t) : Relation.ReflTransGen AllowedStep x₀ ⟨pcs, t⟩ :=
  hRun.tail ⟨.write offset val, trivial, .write hOffset hWrite⟩

theorem run_notify (cpu : Nat) (hRun : Relation.ReflTransGen AllowedStep x₀ x) (hIdle : x.pcs cpu = .idle) :
    ∃ y, Relation.ReflTransGen AllowedStep x₀ y ∧ y.pcs cpu = .entry ∧ y.dev = x.dev :=
  ⟨_, hRun.tail ⟨.notify cpu, trivial, .notify hIdle⟩, Function.update_self _ _ _, rfl⟩

theorem run_handler {cpu : Nat} {pc : Pc} {s : Backend} (pc' : Pc) (t : Backend)
    (hRun : Relation.ReflTransGen AllowedStep x₀ x) (hPc : x.pcs cpu = pc) (hDev : x.dev = s)
    (hReady : Ready s pc) (hStep : handlerStep s pc = .ok (pc', t)) :
    ∃ y, Relation.ReflTransGen AllowedStep x₀ y ∧ y.pcs cpu = pc' ∧ y.dev = t := by
  subst hPc hDev
  exact ⟨_, hRun.tail ⟨.handler cpu, hReady, .handler hStep⟩, Function.update_self _ _ _, rfl⟩

end

section
variable {m page : Mem} {node : Nat → Nat → Option Nat}

theorem backed_page (hSpace : Space m 0x40000000 0x10000000 node)
    (hWalk : archWalk m 0x40000000 0x80000000 = some ⟨0x400014c7, 0x40001000⟩) (q : VirtQueue) (l : List Access)
    (k n : Nat) (h : k + n ≤ 4096) : Backed (pageBackend m page q l) (0x40001000 + k) n := by
  intro i hi
  left
  have hByte := guestByte_of_walk (withPage_walk page hSpace hWalk (k + i) (by omega))
  rwa [← Nat.add_assoc] at hByte

/-- The queue that `vq_ring_init` leaves for a ring at host address `pa`. -/
def VirtQueue.ringAt (q : VirtQueue) (ipa pa : Nat) : VirtQueue :=
  { q with
    virtqLock := .init
    vringIpa := ipa
    vringPa := pa
    avail := u64 (pa + q.vringNum * 16)
    desc := pa
    used := u64 (pa + pageSize) }

theorem pageBackend_init (hSpace : Space m 0x40000000 0x10000000 node)
    (hWalk : archWalk m 0x40000000 0x80000000 = some ⟨0x400014c7, 0x40001000⟩) (q : VirtQueue) (l : List Access) :
    virtioMmioWrite 0 (pageBackend m page q l) 0x40 0x80000 =
      .ok (pageBackend m page (q.ringAt 0x80000000 0x40001000) l) := by
  have hPa : virtioGuestToHost (pageBackend m page q l) 0x80000000 = .ok 0x40001000 :=
    Space.guestToHost (s := pageBackend m page q l) (withPage_space page hSpace hWalk).1
      (withPage_walk page hSpace hWalk 0 (by decide))
  change vqRingInit _ 0x80000000 = _
  rw [vqRingInit, hPa]
  rfl

/-- The guest sets up a queue of 8 in its first page and notifies; the handler fetches head 0. -/
theorem run_to_process (hSpace : Space m 0x40000000 0x10000000 node)
    (hWalk : archWalk m 0x40000000 0x80000000 = some ⟨0x400014c7, 0x40001000⟩)
    (hIdx : load page 130 2 = 1) (hHead : load page 132 2 = 0) : ∃ x l,
      Relation.ReflTransGen AllowedStep ⟨fun _ => .idle, pageBackend m page bootQueue []⟩ x ∧
      x.pcs 0 = .process 0 ∧
      x.dev = pageBackend m page heldQueue l := by
  have hBacked : ∀ q l k n, k + n ≤ 4096 → Backed (pageBackend m page q l) (0x40001000 + k) n :=
    backed_page hSpace hWalk
  have hLoad := load_withPage m page 0x40001000
  have hInit : virtioMmioWrite 0 (pageBackend m page sizedQueue []) 0x40 0x80000 =
      .ok (pageBackend m page smallQueue []) := pageBackend_init hSpace hWalk sizedQueue []
  have hMore : (smallQueue.availIdx != load (withPage m page 0x40001000) (0x40001000 + 130) 2) = true := by
    rw [hLoad 130 2 (by decide), hIdx]
    rfl
  have hFirst := hLoad 132 2 (by decide)
  rw [hHead] at hFirst
  have hStart : Relation.ReflTransGen AllowedStep ⟨fun _ => .idle, pageBackend m page bootQueue []⟩
      ⟨fun _ => .idle, pageBackend m page bootQueue []⟩ := .refl
  have hSized := run_write 0x38 8 (pageBackend m page sizedQueue []) hStart (by decide) rfl
  obtain ⟨x, hRun, hPc, hDev⟩ := run_notify 0 (run_write _ _ _ hSized (by decide) hInit) rfl
  obtain ⟨x, hRun, hPc, hDev⟩ := run_handler _ _ hRun hPc hDev (hBacked smallQueue [] 130 2 (by decide)) rfl
  obtain ⟨x, hRun, hPc, hDev⟩ := run_handler (.wait 0) (pageBackend m page heldQueue _) hRun hPc hDev trivial rfl
  obtain ⟨x, hRun, hPc, hDev⟩ := run_handler .test _ hRun hPc hDev trivial rfl
  obtain ⟨x, hRun, hPc, hDev⟩ := run_handler _ _ hRun hPc hDev (hBacked heldQueue _ 130 2 (by decide))
    (congrArg (fun more : Bool => Except.ok (if more then Pc.fetch else Pc.unlock, _)) hMore)
  obtain ⟨x, hRun, hPc, hDev⟩ := run_handler _ _ hRun hPc hDev (hBacked heldQueue _ 132 2 (by decide)) rfl
  refine ⟨x, _, hRun, hPc.trans ?_, hDev⟩
  exact congrArg Pc.process hFirst

end

/-- A write request reads its buffer wherever software translation has put it. -/
theorem processBlkReq_write {s : Backend} {node : Nat → Nat → Option Nat} {d₀ d₁ d₂ : VirtqDesc}
    {t₀ t₂ : Translation} {buf : Nat} (hSpace : s.Space node)
    (hReq : archWalk s.host.mem s.stage2Pt d₀.addr = some t₀) (hBufAddr : virtioGuestToHost s d₁.addr = .ok buf)
    (hStatus : archWalk s.host.mem s.stage2Pt d₂.addr = some t₂)
    (hType : load s.host.mem t₀.pa 4 = virtioBlkTOut) (hBlk : load s.host.mem (t₀.pa + 8) 8 / 2 < fsimgSize) :
    ∃ s', processBlkReq s d₀ d₁ d₂ = .ok s' ∧ ⟨false, buf, blockSize⟩ ∈ s'.accesses ∧
      s'.stage2Pt = s.stage2Pt ∧ s'.ramdiskStart = s.ramdiskStart ∧
      ∀ ipa, archWalk s'.host.mem s.stage2Pt ipa = archWalk s.host.mem s.stage2Pt ipa := by
  have hTransfer : transfer s t₀.pa buf = ramdiskRw ((s.record false (t₀.pa + 8) 8).record false t₀.pa 4)
      (load s.host.mem (t₀.pa + 8) 8 / 2) buf true := by
    rw [transfer, hType]
    rfl
  have hSame : ∀ b, ¬Confined s.host.mem s.stage2Pt s.ramdiskStart b →
      (transfer s t₀.pa buf).2.host.mem b = s.host.mem b := by
    rw [hTransfer]
    exact ramdiskRw_write_same (s := (s.record false (t₀.pa + 8) 8).record false t₀.pa 4) hSpace
  obtain ⟨hRoot, hDisk⟩ := transfer_fixed s t₀.pa buf
  refine ⟨_, processBlkReq_eq hSpace hReq hBufAddr hStatus hSame, ?_, hRoot, hDisk, ?_⟩
  · rw [hTransfer, ramdiskRw_write hBlk]
    exact .tail _ (.tail _ (.head _))
  · apply (hSpace.of_confined ?_).2
    intro b hb
    refine (store_sameOutside _ t₂.pa 1 _ b ?_).trans (hSame b hb)
    have hNe : b ≠ t₂.pa := by
      rintro rfl
      exact hb (.inl (guestByte_of_walk hStatus))
    omega

theorem ThreeChain.endsWithin {q : VirtQueue} {m : Mem} {head second third n : Nat}
    (h : ThreeChain q m head second third) (hn : 3 ≤ n) : q.EndsWithin m n head := by
  obtain ⟨n, rfl⟩ := Nat.exists_eq_add_of_le' hn
  intro i hi
  cases h.first.symm.trans hi
  intro j hj
  cases h.middle.symm.trans hj
  intro k hk
  cases h.last.symm.trans hk

theorem ThreeChain.unique {q : VirtQueue} {m : Mem} {head second third second' third' : Nat}
    (h : ThreeChain q m head second third) (h' : ThreeChain q m head second' third') :
    second' = second ∧ third' = third := by
  cases h.first.symm.trans h'.first
  cases h.middle.symm.trans h'.middle
  exact ⟨rfl, rfl⟩

theorem ringPage_ready {m : Mem} {node : Nat → Nat → Option Nat} (hSpace : Space m 0x40000000 0x10000000 node)
    (hWalk : archWalk m 0x40000000 0x80000000 = some ⟨0x400014c7, 0x40001000⟩) (l : List Access) :
    RequestReady (pageBackend m ringPage heldQueue l) 0 := by
  have hBacked : ∀ k n, k + n ≤ 4096 → Backed (pageBackend m ringPage heldQueue l) (0x40001000 + k) n :=
    backed_page hSpace hWalk heldQueue l
  have hPage := withPage_walk ringPage hSpace hWalk
  have hDesc : ∀ i, i < 8 → heldQueue.descAt (withPage m ringPage 0x40001000) i = loadDesc ringPage (16 * i) :=
    smallQueue_desc m ringPage
  have hChain : ThreeChain heldQueue (withPage m ringPage 0x40001000) 0 1 2 :=
    ⟨smallBackend_chain.first, smallBackend_chain.middle, smallBackend_chain.last⟩
  refine ⟨hChain.endsWithin (by change 3 ≤ min 8 _; decide), ?_, ?_⟩
  · intro i hi
    have hLt : i < 8 := by
      cases hi with
      | head => decide
      | next _ hNext => exact successor_lt hNext
    have hAddr : heldQueue.descAddr i = 0x40001000 + 16 * i := u64_of_lt (n := 0x40001000 + 16 * i) (by omega)
    change Backed _ (heldQueue.descAddr i) 16
    rw [hAddr]
    exact hBacked (16 * i) 16 (by omega)
  · intro second third hOther
    obtain ⟨rfl, rfl⟩ := hChain.unique hOther
    refine ⟨⟨0x400014c7, 0x40001400⟩, ⟨0x400014c7, 0x40001500⟩, ?_, hBacked 0x408 8 (by decide),
      hBacked 0x400 4 (by decide), ?_, ?_⟩
    · exact (congrArg (fun d : VirtqDesc => archWalk _ _ d.addr) (hDesc 0 (by decide))).trans (hPage 0x400 (by decide))
    · exact (congrArg (fun d : VirtqDesc => archWalk _ _ d.addr) (hDesc 2 (by decide))).trans (hPage 0x500 (by decide))
    · intro _
      refine ⟨⟨0x400014c7, 0x40001800⟩, ?_, hBacked 0x800 1024 (by decide)⟩
      exact (congrArg (fun d : VirtqDesc => archWalk _ _ d.addr) (hDesc 1 (by decide))).trans (hPage 0x800 (by decide))

/-- The small VM sets up its queue and writes a block. -/
theorem backend_confined_small : ∃ s' x l, createVm bootHypervisor (some smallCfg) = .ok s' ∧
    Relation.ReflTransGen AllowedStep ⟨fun _ => .idle, pageBackend s'.host.mem ringPage bootQueue []⟩ x ∧
    x.pcs 0 = .process 0 ∧ x.dev.accesses = l ∧ (∀ a ∈ l, Backed x.dev a.addr a.size) ∧
    ∃ y, Step x (.handler 0) y := by
  obtain ⟨s', node, hCreate, hSpace, hWalk, _⟩ := smallSpace
  obtain ⟨x, l, hRun, hPc, hDev⟩ := run_to_process hSpace hWalk (show load ringPage 130 2 = 1 by decide) (by decide)
  have hStart : (System.mk (fun _ => .idle) (pageBackend s'.host.mem ringPage bootQueue [])).dev.Space node :=
    (withPage_space ringPage hSpace hWalk).1
  obtain ⟨hBacked, hNext⟩ := backend_confined hStart rfl hRun
  refine ⟨s', x, _, hCreate, hRun, hPc, rfl, hBacked, hNext 0 ?_⟩
  change Ready x.dev (x.pcs 0)
  rw [hPc, hDev]
  exact ringPage_ready hSpace hWalk l

/-- The request of the small VM with its buffer at guest address 0x1000, which is not mapped. -/
def strayPage : Mem := store ringPage 16 8 0x1000

theorem strayPage_chain (m : Mem) : ThreeChain heldQueue (withPage m strayPage 0x40001000) 0 1 2 := by
  refine ⟨?_, ?_, ?_⟩
  · rw [VirtQueue.successor, show heldQueue.descAt _ 0 = _ from smallQueue_desc m strayPage 0 (by decide)]
    decide
  · rw [VirtQueue.successor, show heldQueue.descAt _ 1 = _ from smallQueue_desc m strayPage 1 (by decide)]
    decide
  · rw [VirtQueue.successor, show heldQueue.descAt _ 2 = _ from smallQueue_desc m strayPage 2 (by decide)]
    decide

theorem strayPage_process {m : Mem} {node : Nat → Nat → Option Nat} (hSpace : Space m 0x40000000 0x10000000 node)
    (hWalk : archWalk m 0x40000000 0x80000000 = some ⟨0x400014c7, 0x40001000⟩)
    (hNone : archWalk m 0x40000000 0x1000 = none) (l : List Access) :
    ∃ s, virtioBlkProcessDesc (pageBackend m strayPage heldQueue l) 0 = .ok (3, s) ∧
      ⟨false, 0, blockSize⟩ ∈ s.accesses ∧ s.stage2Pt = 0x40000000 ∧ s.ramdiskStart = 0x10000000 ∧
      ∀ ipa, archWalk s.host.mem 0x40000000 ipa = archWalk m 0x40000000 ipa := by
  obtain ⟨hSpace', hSame⟩ := withPage_space strayPage hSpace hWalk
  have hPage := withPage_walk strayPage hSpace hWalk
  have hLoad := load_withPage m strayPage 0x40001000
  have hDesc : ∀ i, i < 8 → heldQueue.descAt (withPage m strayPage 0x40001000) i = loadDesc strayPage (16 * i) :=
    smallQueue_desc m strayPage
  have hVisited : ((pageBackend m strayPage heldQueue l).after
      (visit heldQueue 2 ++ (visit heldQueue 1 ++ visit heldQueue 0))).Space node := hSpace'
  have hReq : archWalk (withPage m strayPage 0x40001000) 0x40000000
      (heldQueue.descAt (withPage m strayPage 0x40001000) 0).addr = some ⟨0x400014c7, 0x40001400⟩ := by
    rw [hDesc 0 (by decide)]
    exact hPage 0x400 (by decide)
  have hBuf : virtioGuestToHost ((pageBackend m strayPage heldQueue l).after
      (visit heldQueue 2 ++ (visit heldQueue 1 ++ visit heldQueue 0)))
      (heldQueue.descAt (withPage m strayPage 0x40001000) 1).addr = .ok 0 := by
    rw [hDesc 1 (by decide)]
    exact hVisited.tree.ipa2pa_of_unmapped (by decide) (by decide) ((hSame 0x1000).trans hNone)
  have hStatus : archWalk (withPage m strayPage 0x40001000) 0x40000000
      (heldQueue.descAt (withPage m strayPage 0x40001000) 2).addr = some ⟨0x400014c7, 0x40001500⟩ := by
    rw [hDesc 2 (by decide)]
    exact hPage 0x500 (by decide)
  have hType : load (withPage m strayPage 0x40001000) 0x40001400 4 = virtioBlkTOut :=
    (hLoad 0x400 4 (by decide)).trans (by decide)
  have hSector : load (withPage m strayPage 0x40001000) 0x40001408 8 = 4 :=
    (hLoad 0x408 8 (by decide)).trans (by decide)
  have hBlk : load (withPage m strayPage 0x40001000) (0x40001400 + 8) 8 / 2 < fsimgSize := by
    rw [hSector]
    decide
  obtain ⟨s, hDone, hMem, hRoot, hDisk, hKept⟩ := processBlkReq_write hVisited hReq hBuf hStatus hType hBlk
  refine ⟨s, ?_, hMem, hRoot, hDisk, fun ipa => (hKept ipa).trans (hSame ipa)⟩
  rw [ThreeChain.process_eq (s := pageBackend m strayPage heldQueue l) (strayPage_chain m) (by change 3 ≤ 8; decide)]
  exact bind_eq_ok.mpr ⟨s, hDone, rfl⟩

def AnyStep (x y : System) : Prop := ∃ e, Step x e y

/-- Guest address 0x1000 does not translate, and the backend copies the 1024 bytes at host address 0,
which no page of the VM maps, to the disk. -/
theorem backend_escapes : ∃ s' x, createVm bootHypervisor (some smallCfg) = .ok s' ∧
    Relation.ReflTransGen AnyStep ⟨fun _ => .idle, pageBackend s'.host.mem strayPage bootQueue []⟩ x ∧
    archWalk x.dev.host.mem x.dev.stage2Pt 0x1000 = none ∧
    ⟨false, 0, blockSize⟩ ∈ x.dev.accesses ∧ ¬Backed x.dev 0 blockSize := by
  obtain ⟨s', node, hCreate, hSpace, hWalk, hNone, hZero⟩ := smallSpace
  obtain ⟨x, l, hRun, hPc, hDev⟩ := run_to_process hSpace hWalk (show load strayPage 130 2 = 1 by decide)
    (by decide)
  obtain ⟨s, hProcess, hMem, hRoot, hDisk, hKept⟩ := strayPage_process hSpace hWalk hNone l
  have hAny : ∀ y z, AllowedStep y z → AnyStep y z := by
    rintro y z ⟨e, _, hStep⟩
    exact ⟨e, hStep⟩
  have hLast : handlerStep x.dev (x.pcs 0) = .ok (.setId 0 3, s) := by
    rw [hPc, hDev]
    exact bind_eq_ok.mpr ⟨_, hProcess, rfl⟩
  have hRun' := (Relation.ReflTransGen.mono hAny _ _ hRun).tail ⟨.handler 0, .handler hLast⟩
  refine ⟨s', _, hCreate, hRun', ?_, hMem, ?_⟩
  · change archWalk s.host.mem s.stage2Pt 0x1000 = none
    rw [hRoot, hKept, hNone]
  · intro hBacked
    obtain hGuest | ⟨hLow, _⟩ := hBacked 0 (by decide)
    · change GuestByte s.host.mem s.stage2Pt (0 + 0) at hGuest
      rw [hRoot, guestByte_congr hKept] at hGuest
      exact hZero hGuest
    · change s.ramdiskStart ≤ 0 + 0 at hLow
      rw [hDisk] at hLow
      omega

end HyperPoc.Virtio
