import HyperPoc.Virtio.Exclusion
import HyperPoc.Virtio.Addresses

/-! # Installing a new ring

Writing the page of the queue leaves `avail_idx` as it is. A driver that starts a new ring at index 0 finds
the backend at the index it had reached on the old one, unless the requests so far are a multiple of
`2 ^ 16`. The requests of the new ring are taken as given: they return, and they leave the rings and one
another alone.
-/
namespace HyperPoc.Virtio
open Library.Memory Library.Run Stage2
set_option autoImplicit false

/-- The queue without what the handler changes. -/
def VirtQueue.base (q : VirtQueue) : VirtQueue := { q with virtqLock := .init, availIdx := 0 }

/-- The handler may lead from `s` to `s'` without touching the bytes of `keep`. -/
structure Alike (keep : Nat → Prop) (s s' : Backend) : Prop where
  queue : s'.vq.base = s.vq.base
  root : s'.stage2Pt = s.stage2Pt
  disk : s'.ramdiskStart = s.ramdiskStart
  same : ∀ a, keep a → s'.host.mem a = s.host.mem a

/-- The request at `head` returns and leaves `keep` alone, whatever the other bytes have become. -/
def Servable (keep : Nat → Prop) (s : Backend) (head : Nat) : Prop :=
  ∀ s', Alike keep s s' → ∃ len s'', virtioBlkProcessDesc s' head = .ok (len, s'') ∧ Alike keep s s''

/-- The available ring is to be kept, and the used ring is not. -/
structure KeepsRings (keep : Nat → Prop) (q : VirtQueue) : Prop where
  availIdx : ∀ j < 2, keep (q.availIdxAddr + j)
  slot : ∀ i, ∀ j < 2, keep (q.availAddr i + j)
  usedIdx : ∀ j < 2, ¬keep (q.usedIdxAddr + j)
  id : ∀ i, ∀ j < 4, ¬keep (q.usedAddr i + j)
  len : ∀ i, ∀ j < 4, ¬keep (u64 (q.usedAddr i + 4) + j)

section
variable {keep : Nat → Prop} {s s' s'' : Backend} {q : VirtQueue}

theorem Alike.trans (h : Alike keep s s') (h' : Alike keep s' s'') : Alike keep s s'' :=
  ⟨h'.queue.trans h.queue, h'.root.trans h.root, h'.disk.trans h.disk, fun a ha =>
    (h'.same a ha).trans (h.same a ha)⟩

theorem Alike.load_eq (h : Alike keep s s') {a n : Nat} (hKeep : ∀ j < n, keep (a + j)) :
    load s'.host.mem a n = load s.host.mem a n :=
  load_congr (fun j hj => h.same _ (hKeep j hj))

theorem Alike.availIdxAddr (h : Alike keep s s') : s'.vq.availIdxAddr = s.vq.availIdxAddr :=
  congrArg (fun q => q.availIdxAddr) h.queue

theorem Alike.availAddr (h : Alike keep s s') (i : Nat) : s'.vq.availAddr i = s.vq.availAddr i :=
  congrArg (fun q => q.availAddr i) h.queue

theorem KeepsRings.of_base (h : KeepsRings keep q) {q' : VirtQueue} (hBase : q'.base = q.base) :
    KeepsRings keep q' := by
  have hAvail : ∀ i, q'.availAddr i = q.availAddr i := fun i => congrArg (fun q => q.availAddr i) hBase
  have hUsed : ∀ i, q'.usedAddr i = q.usedAddr i := fun i => congrArg (fun q => q.usedAddr i) hBase
  have hAvailIdx : q'.availIdxAddr = q.availIdxAddr := congrArg (fun q => q.availIdxAddr) hBase
  have hUsedIdx : q'.usedIdxAddr = q.usedIdxAddr := congrArg (fun q => q.usedIdxAddr) hBase
  refine ⟨?_, ?_, ?_, ?_, ?_⟩
  · rw [hAvailIdx]
    exact h.availIdx
  · simpa only [hAvail] using h.slot
  · rw [hUsedIdx]
    exact h.usedIdx
  · simpa only [hUsed] using h.id
  · simpa only [hUsed] using h.len

theorem alike_after (s : Backend) (l : List Access) : Alike keep s (s.after l) := ⟨rfl, rfl, rfl, fun _ _ => rfl⟩

theorem alike_put {a n : Nat} (v : Nat) (hOut : ∀ j < n, ¬keep (a + j)) : Alike keep s (s.put a n v) := by
  refine ⟨rfl, rfl, rfl, fun b hb => store_sameOutside s.host.mem a n v b ?_⟩
  by_contra hIn
  have hKeep := hOut (b - a) (by omega)
  rw [Nat.add_sub_cancel' (by omega)] at hKeep
  exact hKeep hb

theorem alike_fetch_put {a n : Nat} (b k v : Nat) (hOut : ∀ j < n, ¬keep (a + j)) :
    Alike keep s ((s.record false b k).put a n v) := (alike_after s [⟨false, b, k⟩]).trans (alike_put v hOut)

theorem alike_setUsedId (h : KeepsRings keep s.vq) (descIdx : Nat) : Alike keep s (setUsedId s descIdx) :=
  alike_fetch_put _ _ _ (h.id _)

theorem alike_setUsedLen (h : KeepsRings keep s.vq) (len : Nat) : Alike keep s (setUsedLen s len) :=
  alike_fetch_put _ _ _ (h.len _)

theorem alike_bumpUsedIdx (h : KeepsRings keep s.vq) : Alike keep s (bumpUsedIdx s) := alike_fetch_put _ _ _ h.usedIdx

theorem alike_setUsedElem (h : KeepsRings keep s.vq) (descIdx len : Nat) :
    Alike keep s (vqueueSetUsedElem s descIdx len) := by
  have hId := alike_setUsedId h descIdx
  have hLen := hId.trans (alike_setUsedLen (h.of_base hId.queue) len)
  exact hLen.trans (alike_bumpUsedIdx (h.of_base hLen.queue))

end

/-- The rounds of the request loop, with the heads that are handed to `virtio_blk_process_desc`. -/
inductive Rounds : List Nat → Backend → Backend → Prop
  | done {s : Backend} : (virtqAvailable s).1 = false → Rounds [] s (virtqAvailable s).2
  | round {s s₁ s₂ : Backend} {heads : List Nat} : (virtqAvailable s).1 = true →
    reqRound (virtqAvailable s).2 = .ok s₁ →
      Rounds heads s₁ s₂ → Rounds ((nextHead (virtqAvailable s).2).1 :: heads) s s₂

theorem Rounds.reqLoop_eq {heads : List Nat} {s s' : Backend} (h : Rounds heads s s') :
    reqLoop (heads.length + 1) s = .ok s' := by
  induction h with
  | @done s hNone =>
    rw [reqLoop]
    simp [hNone]
  | @round s s₁ s₂ heads hMore hRound _ ih =>
    rw [reqLoop]
    simp only [hMore, if_true, hRound, ok_bind]
    exact ih

theorem Rounds.available {heads : List Nat} {s s' : Backend} (h : Rounds heads s s') (hSome : heads ≠ []) :
    (virtqAvailable s).1 = true := by
  cases h with
  | done _ => exact (hSome rfl).elim
  | round hMore _ _ => exact hMore

/-- A notification from `s` to `s'` that processes these heads, and no others. -/
def Handles (heads : List Nat) (s s' : Backend) : Prop :=
  ∃ l s₁, (reqEntry s).vq.virtqLock.lock = .ok l ∧ Rounds heads ((reqEntry s).setLock l) s₁ ∧
    s' = virtioSignalVq (s₁.setLock s₁.vq.virtqLock.unlock)

theorem Handles.returns {heads : List Nat} {s s' : Backend} (h : Handles heads s s') :
    virtioBlkReqHandler (heads.length + 1) s = .ok s' := by
  obtain ⟨l, s₁, hLock, hRounds, rfl⟩ := h
  simp only [virtioBlkReqHandler, hLock, ok_bind, hRounds.reqLoop_eq]
  rfl

/-- The ring as the driver fills it: indices from 0 on, and the heads in the first slots. -/
structure Published (s : Backend) (heads : List Nat) : Prop where
  availIdx : load s.host.mem s.vq.availIdxAddr 2 = heads.length
  usedIdx : load s.host.mem s.vq.usedIdxAddr 2 = 0
  slots : ∀ k head, heads[k]? = some head → load s.host.mem (s.vq.availAddr k) 2 = head

section
variable {keep : Nat → Prop} {r s s' : Backend} {heads : List Nat}

theorem Alike.reqRound (h : Alike keep r s) (hRings : KeepsRings keep r.vq)
    (hServable : Servable keep r (nextHead s).1) :
    ∃ s₁, Virtio.reqRound s = .ok s₁ ∧ Alike keep r s₁ ∧
      s₁.vq.availIdx = (s.vq.availIdx + 1) % 2 ^ 16 := by
  obtain ⟨len, s₂, hProcess, hAlike⟩ := hServable (nextHead s).2 (h.trans (alike_after s [_]))
  have hVq : s₂.vq = (nextHead s).2.vq := processDesc_vq hProcess
  have hElem := alike_setUsedElem (hRings.of_base hAlike.queue) (nextHead s).1 len
  refine ⟨bumpAvailIdx (vqueueSetUsedElem s₂ (nextHead s).1 len), bind_eq_ok.mpr ⟨_, hProcess, rfl⟩, ?_, ?_⟩
  · exact (hAlike.trans hElem).trans ⟨rfl, rfl, rfl, fun _ _ => rfl⟩
  · change (s₂.vq.availIdx + 1) % 2 ^ 16 = _
    rw [hVq]
    rfl

theorem Alike.available (h : Alike keep r s) (hRings : KeepsRings keep r.vq) :
    virtqAvailable s = (s.vq.availIdx != load r.host.mem r.vq.availIdxAddr 2,
      s.after [⟨false, s.vq.availIdxAddr, 2⟩]) := by
  have hLoad := h.load_eq hRings.availIdx
  rw [← h.availIdxAddr] at hLoad
  rw [← h.availIdxAddr, ← hLoad]
  rfl

theorem Rounds.spec (hRounds : Rounds heads s s') (h : Alike keep r s) (hRings : KeepsRings keep r.vq)
    (hServable : ∀ head ∈ heads, Servable keep r head) (hIdx : s.vq.availIdx < 2 ^ 16) :
    Alike keep r s' ∧ s'.vq.availIdx = load r.host.mem r.vq.availIdxAddr 2 ∧
      s'.vq.availIdx = (s.vq.availIdx + heads.length) % 2 ^ 16 := by
  induction hRounds with
  | @done s hNone =>
    refine ⟨h.trans (alike_after s [_]), ?_, (Nat.mod_eq_of_lt hIdx).symm⟩
    rw [h.available hRings] at hNone
    change s.vq.availIdx = _
    simpa using hNone
  | @round s s₁ s₂ heads hMore hRound _ ih =>
    have hStart : Alike keep r (virtqAvailable s).2 := h.trans (alike_after s [_])
    obtain ⟨s₃, hEq, hAlike, hNext⟩ := hStart.reqRound hRings (hServable _ List.mem_cons_self)
    rw [hEq] at hRound
    cases hRound
    have hNext : s₁.vq.availIdx = (s.vq.availIdx + 1) % 2 ^ 16 := hNext
    obtain ⟨hEnd, hPublished, hCount⟩ := ih hAlike (fun head hMem => hServable head (List.mem_cons_of_mem _ hMem))
      (by omega)
    refine ⟨hEnd, hPublished, ?_⟩
    rw [hCount, hNext, List.length_cons]
    omega

theorem Alike.rounds {k : Nat} (h : Alike keep r s) (hRings : KeepsRings keep r.vq)
    (hServable : ∀ head ∈ heads, Servable keep r head) (hIdx : s.vq.availIdx = k)
    (hEnd : load r.host.mem r.vq.availIdxAddr 2 = k + heads.length)
    (hSlots : ∀ j head, heads[j]? = some head → load r.host.mem (r.vq.availAddr (k + j)) 2 = head) :
    ∃ s', Rounds heads s s' := by
  induction heads generalizing k s with
  | nil =>
    refine ⟨_, .done ?_⟩
    rw [h.available hRings, hIdx, hEnd]
    simp
  | cons head heads ih =>
    have hLt := load_lt r.host.mem r.vq.availIdxAddr 2
    rw [hEnd, List.length_cons] at hLt
    have hMore : (virtqAvailable s).1 = true := by
      rw [h.available hRings, hIdx, hEnd]
      simp
    have hStart : Alike keep r (virtqAvailable s).2 := h.trans (alike_after s [_])
    have hHead : (nextHead (virtqAvailable s).2).1 = head := by
      have hLoad := h.load_eq (hRings.slot k)
      rw [← Nat.add_zero k, hSlots 0 head rfl] at hLoad
      change load s.host.mem (s.vq.availAddr s.vq.availIdx) 2 = head
      rw [h.availAddr, hIdx]
      exact hLoad
    obtain ⟨s₁, hRound, hAlike, hNext⟩ :=
      hStart.reqRound hRings (by rw [hHead]; exact hServable head List.mem_cons_self)
    have hNext : s₁.vq.availIdx = (s.vq.availIdx + 1) % 2 ^ 16 := hNext
    obtain ⟨s', hRest⟩ := ih hAlike (fun head hMem => hServable head (List.mem_cons_of_mem _ hMem))
      (k := k + 1) (by omega) (by rw [hEnd, List.length_cons]; omega)
      (fun j head hj => by rw [Nat.add_assoc, Nat.add_comm 1]; exact hSlots (j + 1) head hj)
    have hAll := Rounds.round hMore hRound hRest
    rw [hHead] at hAll
    exact ⟨s', hAll⟩

theorem Consistent.keepsRings {q : VirtQueue} (h : Consistent q) (hPa : q.vringPa < 2 ^ 49)
    (hAvail : ∀ a, q.avail ≤ a → a < q.avail + (6 + 2 * q.vringNum) → keep a)
    (hUsed : ∀ a, q.used ≤ a → a < q.used + (6 + 8 * q.vringNum) → ¬keep a) : KeepsRings keep q := by
  have hLe := h.size_le
  have hAvailAt := h.avail
  have hUsedAt := h.used
  refine ⟨fun j hj => ?_, fun i j hj => ?_, fun j hj => ?_, fun i j hj => ?_, fun i j hj => ?_⟩
  · rw [VirtQueue.availIdxAddr, u64_of_lt (by omega)]
    exact hAvail _ (by omega) (by omega)
  · obtain ⟨hLow, hHigh⟩ := h.slot i
    exact hAvail _ (by omega) (by omega)
  · rw [VirtQueue.usedIdxAddr, u64_of_lt (by omega)]
    exact hUsed _ (by omega) (by omega)
  · obtain ⟨hLow, hHigh⟩ := h.elem i
    exact hUsed _ (by omega) (by omega)
  · obtain ⟨hLow, hHigh⟩ := h.elem i
    rw [u64_of_lt (by omega)]
    exact hUsed _ (by omega) (by omega)

theorem Handles.spec (h : Handles heads r s') (hRings : KeepsRings keep r.vq)
    (hServable : ∀ head ∈ heads, Servable keep r head) (hIdx : r.vq.availIdx < 2 ^ 16) :
    Alike keep r s' ∧ s'.vq.availIdx = load r.host.mem r.vq.availIdxAddr 2 ∧
      s'.vq.availIdx = (r.vq.availIdx + heads.length) % 2 ^ 16 := by
  obtain ⟨l, s₁, _, hRounds, rfl⟩ := h
  have hStart : Alike keep r ((reqEntry r).setLock l) := ⟨rfl, rfl, rfl, fun _ _ => rfl⟩
  obtain ⟨hEnd, hPublished, hCount⟩ := hRounds.spec hStart hRings hServable hIdx
  exact ⟨hEnd.trans ⟨rfl, rfl, rfl, fun _ _ => rfl⟩, hPublished, hCount⟩

theorem lock_of_init (hLock : r.vq.virtqLock = .init) : (reqEntry r).vq.virtqLock.lock = .ok ⟨1, 0⟩ := by
  change r.vq.virtqLock.lock = _
  rw [hLock]
  rfl

theorem handles_nil (hLock : r.vq.virtqLock = .init) (hIdx : load r.host.mem r.vq.availIdxAddr 2 = r.vq.availIdx) :
    (∃ s', Handles [] r s') ∧ ∀ s', Handles heads r s' → heads = [] := by
  have hNone : ∀ l, (virtqAvailable ((reqEntry r).setLock l)).1 = false := by
    intro l
    change (r.vq.availIdx != load r.host.mem r.vq.availIdxAddr 2) = false
    rw [hIdx, bne_self_eq_false]
  refine ⟨⟨_, _, _, lock_of_init hLock, .done (hNone _), rfl⟩, ?_⟩
  rintro s' ⟨l, s₁, _, hRounds, _⟩
  by_contra hSome
  have hMore := hRounds.available hSome
  rw [hNone] at hMore
  cases hMore

/-- A notification that finds the lock free processes the published heads exactly if the index is 0. -/
theorem handles_iff (hLock : r.vq.virtqLock = .init) (hRings : KeepsRings keep r.vq) (hPublished : Published r heads)
    (hServable : ∀ head ∈ heads, Servable keep r head) (hIdx : r.vq.availIdx < 2 ^ 16) :
    (∃ s', Handles heads r s') ↔ r.vq.availIdx = 0 := by
  have hLt := load_lt r.host.mem r.vq.availIdxAddr 2
  rw [hPublished.availIdx] at hLt
  constructor
  · rintro ⟨s', hHandles⟩
    obtain ⟨_, hEnd, hCount⟩ := hHandles.spec hRings hServable hIdx
    rw [hPublished.availIdx] at hEnd
    omega
  · intro hZero
    have hStart : Alike keep r ((reqEntry r).setLock ⟨1, 0⟩) := ⟨rfl, rfl, rfl, fun _ _ => rfl⟩
    have hEnd : load r.host.mem r.vq.availIdxAddr 2 = 0 + heads.length := by rw [hPublished.availIdx, Nat.zero_add]
    obtain ⟨s₁, hRounds⟩ := hStart.rounds hRings hServable hZero hEnd
      (fun j head hj => by rw [Nat.zero_add]; exact hPublished.slots j head hj)
    exact ⟨_, _, s₁, lock_of_init hLock, hRounds, rfl⟩

end

theorem Run.installed {x₀ x : System} {steps : List (System × Event)} {val : Nat} {s : Backend}
    (hBoot : x₀.dev.vq = bootQueue) (hRun : Run x₀ steps x) (hInit : virtioMmioWrite 0 x.dev 0x40 val = .ok s)
    (hPos : 0 < s.vq.vringNum) (hMax : s.vq.vringNum ≤ 64) :
    s.vq.virtqLock = .init ∧ Consistent s.vq ∧ s.vq.vringPa < 2 ^ 49 ∧
    s.vq.availIdx = entriesDone steps % 2 ^ 16 := by
  have hNext := hRun.step (.write (by decide) hInit)
  have hWritten := hNext.written hBoot
  have hSize : s.vq.vringNum = sizeWritten steps := hWritten.size
  obtain ⟨hBad, _⟩ | ⟨_, pa, hPa, hVq⟩ | ⟨_, hBad, _⟩ := virtioMmioWrite_cases (by decide) hInit
  · cases hBad
  · refine ⟨by rw [hVq, VirtQueue.ringAt], (consistent_iff hWritten).mpr ?_, by rw [hVq]; exact hPa,
      hNext.availIdx hBoot⟩
    rw [← hWritten.size]
    refine ⟨hPos, hMax, sizeWritten steps, rfl, ?_⟩
    change _ = s.vq.vringNum
    rw [← hSize]
    omega
  · exact (hBad rfl).elim

/-- After any run a new ring is installed, the driver publishes requests from slot 0 on, and a vcpu
notifies alone: these requests are processed, and no others, exactly if the index of the backend has come
back to 0. -/
theorem restart_processes_iff {x₀ x : System} {steps : List (System × Event)} {val : Nat} {s : Backend} {m : Mem}
    {heads : List Nat} {keep : Nat → Prop} (hBoot : x₀.dev.vq = bootQueue) (hRun : Run x₀ steps x)
    (hInit : virtioMmioWrite 0 x.dev 0x40 val = .ok s) (hPos : 0 < s.vq.vringNum) (hMax : s.vq.vringNum ≤ 64)
    (hPublished : Published (s.setMem m) heads)
    (hAvail : ∀ a, s.vq.avail ≤ a → a < s.vq.avail + (6 + 2 * s.vq.vringNum) → keep a)
    (hUsed : ∀ a, s.vq.used ≤ a → a < s.vq.used + (6 + 8 * s.vq.vringNum) → ¬keep a)
    (hServable : ∀ head ∈ heads, Servable keep (s.setMem m) head) :
    (∃ s', virtioBlkReqHandler (heads.length + 1) (s.setMem m) = .ok s' ∧ Handles heads (s.setMem m) s') ↔
      entriesDone steps % 2 ^ 16 = 0 := by
  obtain ⟨hLock, hConsistent, hPa, hIdx⟩ := hRun.installed hBoot hInit hPos hMax
  have hRings := hConsistent.keepsRings hPa hAvail hUsed
  have hIff := handles_iff (r := s.setMem m) hLock hRings hPublished hServable (by
    change s.vq.availIdx < _
    omega)
  rw [← hIdx]
  constructor
  · rintro ⟨s', _, hHandles⟩
    exact hIff.mp ⟨s', hHandles⟩
  · intro hZero
    obtain ⟨s', hHandles⟩ := hIff.mpr hZero
    exact ⟨s', hHandles.returns, hHandles⟩

section
variable {keep : Nat → Prop} {s s' : Backend} {node : Nat → Nat → Option Nat} {head second third : Nat}
  {t₀ t₂ : Translation} {r : Request}

theorem Alike.descAt (h : Alike keep s s') {i : Nat} (hKeep : ∀ j < 16, keep (s.vq.descAddr i + j)) :
    s'.vq.descAt s'.host.mem i = s.vq.descAt s.host.mem i := by
  have hAddr : s'.vq.descAddr i = s.vq.descAddr i := congrArg (fun q => q.descAddr i) h.queue
  rw [VirtQueue.descAt, VirtQueue.descAt, hAddr]
  apply loadDesc_eq
  intro k n hk
  apply h.load_eq
  intro j hj
  rw [Nat.add_assoc]
  exact hKeep (k + j) (by omega)

theorem Shaped.servable (h : Shaped s head second third t₀ t₂ r) (hSpace : s.Space node)
    (hTables : ∀ a, ¬Confined s.host.mem s.stage2Pt s.ramdiskStart a → keep a)
    (hDesc : ∀ i < s.vq.vringNum, ∀ j < 16, keep (s.vq.descAddr i + j))
    (hOut : ∀ a, keep a → ¬InImage s.ramdiskStart a ∧ ¬r.InBuffer a ∧ a ≠ r.status) :
    Servable keep s head := by
  intro s' hAlike
  obtain ⟨hSpace', hWalks⟩ := Space.of_confined hSpace (fun a ha => hAlike.same a (hTables a ha))
  rw [← hAlike.root] at hWalks
  rw [← hAlike.root, ← hAlike.disk] at hSpace'
  have hNum : s'.vq.vringNum = s.vq.vringNum := congrArg (fun q => q.vringNum) hAlike.queue
  have hDescAt : ∀ i < s.vq.vringNum, s'.vq.descAt s'.host.mem i = s.vq.descAt s.host.mem i :=
    fun i hi => hAlike.descAt (hDesc i hi)
  have hNext : ∀ i < s.vq.vringNum, s'.vq.successor s'.host.mem i = s.vq.successor s.host.mem i := by
    intro i hi
    rw [VirtQueue.successor, VirtQueue.successor, hDescAt i hi, hNum]
  have hSecond : second < s.vq.vringNum := Nat.lt_of_lt_of_le (successor_lt h.chain.first) (Nat.mod_le _ _)
  have hThird : third < s.vq.vringNum := Nat.lt_of_lt_of_le (successor_lt h.chain.middle) (Nat.mod_le _ _)
  have hShaped : Shaped s' head second third t₀ t₂ r := by
    refine ⟨by rw [hNum]; exact h.head_lt, ⟨?_, ?_, ?_⟩, ?_, ?_, ?_, h.status_eq, h.apart⟩
    · rw [hNext head h.head_lt, h.chain.first]
    · rw [hNext second hSecond, h.chain.middle]
    · rw [hNext third hThird, h.chain.last]
    · rw [hWalks, hDescAt head h.head_lt, hAlike.root]
      exact h.header
    · intro i hi
      rw [hWalks, hDescAt second hSecond, hAlike.root]
      exact h.buffer i hi
    · rw [hWalks, hDescAt third hThird, hAlike.root]
      exact h.status
  obtain ⟨s'', hProcess, hRoot, hDisk, hAnswers⟩ := hShaped.process hSpace'
  have hVq := processDesc_vq hProcess
  refine ⟨3, s'', hProcess, hAlike.trans ⟨by rw [hVq], hRoot, hDisk, fun a ha => ?_⟩⟩
  obtain ⟨hImage, hBuffer, hStatus⟩ := hOut a ha
  rw [← hAlike.disk] at hImage
  exact hAnswers.same a hImage hBuffer hStatus

end

/-- The pages of the VM with three of them: the request's data, the ring, and an empty used ring. -/
def ringMem (m : Mem) : Mem :=
  withPage (withPage (withPage m ringPage 0x40001000) ringPage 0x40005000) (fun _ => 0) 0x40006000

def queueBackend (m : Mem) (q : VirtQueue) : Backend := { freshBackend m with vq := q }

def secondQueue : VirtQueue := ⟨.init, 8, 0x80001000, 0x40005000, 0, 0x40005000, 0x40005080, 0x40006000⟩

def movedQueue : VirtQueue := { secondQueue with availIdx := 1 }

theorem ringMem_ring (m : Mem) (k n : Nat) (h : k + n ≤ 4096) :
    load (ringMem m) (0x40005000 + k) n = load ringPage k n := by
  rw [ringMem, load_withPage_ne _ _ (by omega)]
  exact load_withPage _ ringPage 0x40005000 k n h

theorem ringMem_used (m : Mem) : load (ringMem m) 0x40006002 2 = 0 :=
  (load_withPage _ (fun _ => 0) 0x40006000 2 2 (by decide)).trans (by decide)

section
variable {m : Mem} {node : Nat → Nat → Option Nat}

theorem ThreePages.ringMem (h : ThreePages m node) : ThreePages (ringMem m) node := by
  apply h.of_same
  intro b hb
  rw [Virtio.ringMem, withPage, if_neg (by omega), withPage, if_neg (by omega), withPage, if_neg (by omega)]

theorem secondQueue_desc (m : Mem) (i : Nat) (hi : i < 8) :
    secondQueue.descAt (ringMem m) i = loadDesc ringPage (16 * i) := by
  have hAddr : secondQueue.descAddr i = 0x40005000 + 16 * i := u64_of_lt (n := 0x40005000 + 16 * i) (by omega)
  rw [VirtQueue.descAt, hAddr]
  apply loadDesc_eq
  intro k n hk
  rw [Nat.add_assoc]
  exact ringMem_ring m (16 * i + k) n (by omega)

theorem secondQueue_request (h : ThreePages m node) :
    Shaped (queueBackend (ringMem m) secondQueue) 0 1 2 ⟨0x400014c7, 0x40001400⟩ ⟨0x400014c7, 0x40001500⟩
      ⟨true, 4, 0x40001800, 0x40001500⟩ := by
  have hPages := h.ringMem
  have hDesc := secondQueue_desc m
  refine ⟨show 0 < 8 by decide, ⟨?_, ?_, ?_⟩, ?_, ?_, ?_, rfl, ?_⟩
  · change secondQueue.successor (ringMem m) 0 = some 1
    rw [VirtQueue.successor, hDesc 0 (by decide)]
    decide
  · change secondQueue.successor (ringMem m) 1 = some 2
    rw [VirtQueue.successor, hDesc 1 (by decide)]
    decide
  · change secondQueue.successor (ringMem m) 2 = none
    rw [VirtQueue.successor, hDesc 2 (by decide)]
    decide
  · change archWalk (ringMem m) 0x40000000 (secondQueue.descAt (ringMem m) 0).addr = _
    rw [hDesc 0 (by decide)]
    exact hPages.space.walk_add hPages.data (by decide) (i := 0x400) (by decide)
  · change LiesAt (ringMem m) 0x40000000 (secondQueue.descAt (ringMem m) 1).addr blockSize _
    rw [hDesc 1 (by decide)]
    exact hPages.space.liesAt hPages.data (by decide) 0x800 blockSize (by decide)
  · change archWalk (ringMem m) 0x40000000 (secondQueue.descAt (ringMem m) 2).addr = _
    rw [hDesc 2 (by decide)]
    exact hPages.space.walk_add hPages.data (by decide) (i := 0x500) (by decide)
  · change ¬(0x40001800 ≤ 0x40001500 ∧ _)
    omega

def kept (m : Mem) (a : Nat) : Prop := ¬Confined m 0x40000000 0x10000000 a ∨ a / 4096 = 0x40005

theorem secondQueue_servable (h : ThreePages m node) :
    Servable (kept (ringMem m)) (queueBackend (ringMem m) secondQueue) 0 := by
  have hRequest := secondQueue_request h
  have hSpace : (queueBackend (ringMem m) secondQueue).Space node := h.ringMem.space
  refine hRequest.servable hSpace (fun a ha => .inl ha) (fun i hi j hj => ?_) (fun a ha => ?_)
  · have hAddr : secondQueue.descAddr i = 0x40005000 + 16 * i := u64_of_lt (n := 0x40005000 + 16 * i) (by
      change i < 8 at hi
      omega)
    right
    change (secondQueue.descAddr i + j) / 4096 = _
    rw [hAddr]
    change i < 8 at hi
    omega
  · -- the image, the buffer and the status byte are confined, and apart from the ring
    have hConfined : InImage 0x10000000 a ∨ a / 4096 = 0x40001 → Confined (ringMem m) 0x40000000 0x10000000 a := by
      rintro (hImage | hData)
      · exact .inr hImage
      · exact .inl (h.ringMem.guest (.inl hData))
    have hImage : InImage 0x10000000 a ↔ 0x10000000 ≤ a ∧ a < 0x100fa000 := Iff.rfl
    have hBuffer : Request.InBuffer ⟨true, 4, 0x40001800, 0x40001500⟩ a ↔ 0x40001800 ≤ a ∧
        a < 0x40001c00 := Iff.rfl
    refine ⟨fun hIn => ?_, fun hIn => ?_, fun hEq => ?_⟩
    · rcases ha with hOut | hRing
      · exact hOut (hConfined (.inl hIn))
      · have hBytes := hImage.mp hIn
        omega
    · have hBytes := hBuffer.mp hIn
      rcases ha with hOut | hRing
      · exact hOut (hConfined (.inr (by omega)))
      · omega
    · change a = 0x40001500 at hEq
      rcases ha with hOut | hRing
      · exact hOut (hConfined (.inr (by omega)))
      · omega

theorem secondQueue_avail (m : Mem) (a : Nat) (hLow : 0x40005080 ≤ a) (hHigh : a < 0x40005080 + (6 + 2 * 8)) :
    kept (ringMem m) a := .inr (by omega)

theorem secondQueue_used (h : ThreePages m node) (a : Nat) (hLow : 0x40006000 ≤ a)
    (hHigh : a < 0x40006000 + (6 + 8 * 8)) : ¬kept (ringMem m) a := by
  rintro (hOut | hRing)
  · exact hOut (.inl (h.ringMem.guest (.inr (.inr (by omega)))))
  · omega

theorem secondQueue_published (m : Mem) : Published (queueBackend (ringMem m) secondQueue) [0] := by
  refine ⟨?_, ringMem_used m, ?_⟩
  · exact (ringMem_ring m 130 2 (by decide)).trans (by decide)
  · intro k head hk
    cases k with
    | zero =>
      cases hk
      exact (ringMem_ring m 132 2 (by decide)).trans (by decide)
    | succ k => cases hk

theorem run_sized (m : Mem) : Run ⟨fun _ => .idle, freshBackend m⟩
    [(⟨fun _ => .idle, freshBackend m⟩, .write 0x38 8)]
    ⟨fun _ => .idle, queueBackend m sizedQueue⟩ :=
  Run.start.write 0x38 8 (queueBackend m sizedQueue) (by decide) rfl

theorem secondQueue_init (h : ThreePages m node) (q : VirtQueue) : virtioMmioWrite 0 (queueBackend m q) 0x40 0x80001 =
    .ok (queueBackend m (q.ringAt 0x80001000 0x40005000)) := by
  have hSpace : (queueBackend m q).Space node := h.space
  exact virtioMmioWrite_pfn (r := 0x80001000) hSpace (by decide) h.ring

theorem secondQueue_servable_all (h : ThreePages m node) :
    ∀ head ∈ [0], Servable (kept (ringMem m)) (queueBackend (ringMem m) secondQueue) head := by
  intro head hMem
  rw [List.mem_singleton.mp hMem]
  exact secondQueue_servable h

def firstQueue : VirtQueue := sizedQueue.ringAt 0x80000000 0x40001000

theorem run_firstQueue (h : ThreePages m node) : ∃ steps, Run ⟨fun _ => .idle, freshBackend m⟩ steps
    ⟨fun _ => .idle, queueBackend m firstQueue⟩ ∧ entriesDone steps = 0 := by
  have hSpace : (queueBackend m sizedQueue).Space node := h.space
  have hInit := virtioMmioWrite_pfn (r := 0x80000000) hSpace (by decide) h.data
  exact ⟨_, (run_sized m).write 0x40 0x80000 _ (by decide) hInit, rfl⟩

theorem restart_processes_second : ∃ m steps s',
    Run ⟨fun _ => .idle, freshBackend (ringMem m)⟩ steps
      ⟨fun _ => .idle, queueBackend (ringMem m) firstQueue⟩ ∧
    virtioMmioWrite 0 (queueBackend (ringMem m) firstQueue) 0x40 0x80001 = .ok
      (queueBackend (ringMem m) secondQueue) ∧
    virtioBlkReqHandler 2 (queueBackend (ringMem m) secondQueue) = .ok s' ∧
    Handles [0] (queueBackend (ringMem m) secondQueue) s' := by
  obtain ⟨m, node, h, _⟩ := threePages_exists
  obtain ⟨steps, hRun, hNone⟩ := run_firstQueue h.ringMem
  have hInit := secondQueue_init h.ringMem firstQueue
  have hIff := restart_processes_iff (m := ringMem m) rfl hRun hInit (show 0 < 8 by decide) (show 8 ≤ 64 by decide)
    (secondQueue_published m) (secondQueue_avail m) (secondQueue_used h) (secondQueue_servable_all h)
  rw [hNone] at hIff
  obtain ⟨s', hReturns, hHandles⟩ := hIff.mpr rfl
  exact ⟨m, steps, s', hRun, hInit, hReturns, hHandles⟩

theorem Run.alone {x₀ : System} {steps : List (System × Event)} {pcs : Nat → Pc} {cpu : Nat} {p p' : Pc × Backend}
    (hRun : Run x₀ steps ⟨Function.update pcs cpu p.1, p.2⟩) (hAlone : Relation.ReflTransGen Alone p p') :
    ∃ steps', Run x₀ steps' ⟨Function.update pcs cpu p'.1, p'.2⟩ := by
  induction hAlone with
  | refl => exact ⟨steps, hRun⟩
  | tail _ hStep ih =>
    obtain ⟨steps', hRun'⟩ := ih
    exact ⟨_, hRun'.handler _ _ hStep⟩

theorem secondQueue_handled (h : ThreePages m node) : ∃ s', Handles [0] (queueBackend (ringMem m) secondQueue) s' ∧
    Alike (kept (ringMem m)) (queueBackend (ringMem m) secondQueue) s' ∧ s'.vq.availIdx = 1 := by
  obtain ⟨_, hConsistent, hPa, _⟩ := (run_sized (ringMem m)).installed rfl (secondQueue_init h.ringMem sizedQueue)
    (show 0 < 8 by decide) (show 8 ≤ 64 by decide)
  have hRings : KeepsRings (kept (ringMem m)) secondQueue :=
    hConsistent.keepsRings hPa (secondQueue_avail m) (secondQueue_used h)
  have hZero : (queueBackend (ringMem m) secondQueue).vq.availIdx = 0 := rfl
  obtain ⟨s', hHandles⟩ := (handles_iff (r := queueBackend (ringMem m) secondQueue) rfl hRings
    (secondQueue_published m) (secondQueue_servable_all h) (by omega)).mpr hZero
  obtain ⟨hAlike, _, hCount⟩ := hHandles.spec hRings (secondQueue_servable_all h) (by omega)
  refine ⟨s', hHandles, hAlike, ?_⟩
  rw [hCount, hZero]
  rfl

theorem secondQueue_again (h : ThreePages m node) {s' : Backend}
    (hAlike : Alike (kept (ringMem m)) (queueBackend (ringMem m) secondQueue) s') (hIdx : s'.vq.availIdx = 1) :
    virtioMmioWrite 0 s' 0x40 0x80001 = .ok { s' with vq := movedQueue } := by
  have hNum : s'.vq.vringNum = 8 := congrArg (fun q => q.vringNum) hAlike.queue
  obtain ⟨hSpace, hWalks⟩ := h.ringMem.space.of_confined (fun a ha => hAlike.same a (.inl ha))
  have hSpace' : s'.Space node := by
    rw [Backend.Space, hAlike.root, hAlike.disk]
    exact hSpace
  have hRing : archWalk s'.host.mem s'.stage2Pt 0x80001000 = some ⟨0x400054c7, 0x40005000⟩ := by
    rw [hAlike.root]
    exact (hWalks _).trans h.ringMem.ring
  have hVq : s'.vq.ringAt 0x80001000 0x40005000 = movedQueue := by
    rw [VirtQueue.ringAt, hNum, hIdx]
    rfl
  rw [← hVq]
  exact virtioMmioWrite_pfn (r := 0x80001000) hSpace' (by decide) hRing

/-- One request has been processed. A new ring is installed at the same page, zeroed and filled again with
one request; the notification finds its index 1 equal to the published one and processes nothing. -/
theorem restart_skips_request : ∃ x₀ x steps s m, x₀.dev.vq = bootQueue ∧ Run x₀ steps x ∧
    (∀ cpu, x.pcs cpu = .idle) ∧
    virtioMmioWrite 0 x.dev 0x40 0x80001 = .ok s ∧ s.vq.vringNum = 8 ∧ Published (s.setMem m) [0] ∧
    (∃ s', virtioBlkReqHandler 1 (s.setMem m) = .ok s' ∧ Handles [] (s.setMem m) s') ∧
    ¬∃ s', Handles [0] (s.setMem m) s' := by
  obtain ⟨m, node, h, _⟩ := threePages_exists
  obtain ⟨s', hHandles, hAlike, hIdx⟩ := secondQueue_handled h
  have hInstalled := (run_sized (ringMem m)).write 0x40 0x80001 _ (by decide) (secondQueue_init h.ringMem sizedQueue)
  obtain ⟨steps, hRun⟩ := (hInstalled.notify 0 rfl).alone (p := (.entry, _))
    (virtioBlkReqHandler_steps hHandles.returns)
  have hPublished := secondQueue_published m
  refine ⟨_, _, steps, _, ringMem m, rfl, hRun, fun cpu => ?_, secondQueue_again h hAlike hIdx, rfl,
    ⟨hPublished.availIdx, hPublished.usedIdx, hPublished.slots⟩, ?_⟩
  · rw [Function.update_eq_self_iff.mpr rfl]
  · obtain ⟨⟨t, hNothing⟩, hOnly⟩ :=
      handles_nil (r := Backend.setMem { s' with vq := movedQueue } (ringMem m)) rfl hPublished.availIdx
    refine ⟨⟨t, hNothing.returns, hNothing⟩, ?_⟩
    rintro ⟨t', hHandles'⟩
    cases hOnly t' hHandles'

end

end HyperPoc.Virtio
