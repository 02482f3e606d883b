import HyperPoc.Virtio.Configure

/-! # Host addresses of rings and buffers

The backend translates the first byte of the ring and of a buffer and reaches the rest by host pointers.
This follows the guest's address space exactly if the next guest page is the next host page too, wherever
the ring or the buffer goes over the end of a page. `create_vm` takes the pages of the tables from the
same pool as those of the RAM, so it is not so everywhere.

A ring in two adjacent pages is in the guest's frames, whatever is in it. Of the conditions for the
confinement of the backend only the one on requests is then left.
-/
namespace HyperPoc.Virtio
open Library.Memory Library.Run Stage2
set_option autoImplicit false

/-- Writing the page of the ring places the used ring where the guest has it. -/
def UsedFollows (s : Backend) (r : Nat) : Prop :=
  ∃ s₁, virtioMmioWrite 0 s 0x40 (r / 4096) = .ok s₁ ∧
    ∀ j < 4096, ∃ t, archWalk s.host.mem s.stage2Pt (r + 4096 + j) = some t ∧ u64 (s₁.vq.used + j) = t.pa

/-- From `m` to `m'` the block at host address `block` and the guest bytes from `d` on have been copied, byte
by byte, and nothing else has changed. -/
def Moves (m m' : Mem) (root block d : Nat) (isWrite : Bool) : Prop :=
  if isWrite then
    (∀ j < blockSize, ∃ t, archWalk m root (d + j) = some t ∧ m' (block + j) = m t.pa) ∧
      ∀ a, (∀ j < blockSize, a ≠ block + j) → m' a = m a
  else
    (∀ j < blockSize, ∃ t, archWalk m root (d + j) = some t ∧ m' t.pa = m (block + j)) ∧
      ∀ a, (∀ j < blockSize, ∀ t, archWalk m root (d + j) = some t → a ≠ t.pa) → m' a = m a

/-- Whatever the guest's memory and the disk hold, requests with their buffer at `d` move its bytes. -/
def BufferFollows (s : Backend) (d : Nat) : Prop :=
  ∀ m : Mem, (∀ a, ¬Confined s.host.mem s.stage2Pt s.ramdiskStart a → m a = s.host.mem a) →
    ∀ blk < fsimgSize, ∀ isWrite, ∃ buf, virtioGuestToHost (s.setMem m) d = .ok buf ∧
      Moves m (ramdiskRw (s.setMem m) blk buf isWrite).2.host.mem s.stage2Pt
        (s.ramdiskStart + blk * blockSize) d isWrite

theorem ramdiskRw_after (s : Backend) (l : List Access) (blk buf : Nat) (isWrite : Bool) :
    (ramdiskRw (s.after l) blk buf isWrite).2.host.mem = (ramdiskRw s blk buf isWrite).2.host.mem := by
  unfold ramdiskRw
  split
  · rfl
  · cases isWrite <;> rfl

/-- A request moves a block as `ramdisk_rw` does, and then stores its status byte. -/
theorem processBlkReq_moves {s s' : Backend} {d₀ d₁ d₂ : VirtqDesc}
    (h : processBlkReq s d₀ d₁ d₂ = .ok s') :
    ∃ blk isWrite buf status v, virtioGuestToHost s d₁.addr = .ok buf ∧
      s'.host.mem = store (ramdiskRw s blk buf isWrite).2.host.mem status 1 v := by
  obtain ⟨req, _, h⟩ := bind_eq_ok.mp h
  obtain ⟨buf, hBuf, h⟩ := bind_eq_ok.mp h
  obtain ⟨status, _, h⟩ := bind_eq_ok.mp h
  obtain ⟨v, hMem⟩ : ∃ v, s'.host.mem = store
      (ramdiskRw (s.after [⟨false, req, 4⟩, ⟨false, u64 (req + 8), 8⟩])
      (load s.host.mem (u64 (req + 8)) 8 / (blockSize / 512)) buf
      (load s.host.mem req 4 == virtioBlkTOut)).2.host.mem status 1 v := by
    cases h
    exact ⟨_, rfl⟩
  rw [ramdiskRw_after] at hMem
  exact ⟨_, _, buf, status, v, hBuf, hMem⟩

section
variable {s : Backend} {node : Nat → Nat → Option Nat} {t : Translation} {r d buf : Nat}

theorem virtioMmioWrite_pfn (h : s.Space node) (hAligned : r % 4096 = 0)
    (hWalk : archWalk s.host.mem s.stage2Pt r = some t) :
    virtioMmioWrite 0 s 0x40 (r / 4096) = .ok { s with vq := s.vq.ringAt r t.pa } := by
  have hIpa := archWalk_lt hWalk
  have hPfn : u64 ((r / 4096) <<< 12) = r := by
    rw [Nat.shiftLeft_eq, u64]
    omega
  change vqRingInit s _ = _
  rw [hPfn, vqRingInit, Space.guestToHost h hWalk]
  rfl

theorem usedFollows_iff (h : s.Space node) (hAligned : r % 4096 = 0) (hWalk : archWalk s.host.mem s.stage2Pt r = some t)
    (hNext : (archWalk s.host.mem s.stage2Pt (r + 4096)).isSome) :
    UsedFollows s r ↔ Adjacent s.host.mem s.stage2Pt r := by
  obtain ⟨next, hNext⟩ := Option.isSome_iff_exists.mp hNext
  have hLt := Space.walk_lt h hWalk
  have hInit := virtioMmioWrite_pfn h hAligned hWalk
  have hUsed : ∀ j < 4096, u64 ((s.vq.ringAt r t.pa).used + j) = t.pa + 4096 + j := by
    intro j hj
    change u64 (u64 (t.pa + 4096) + j) = _
    rw [u64, u64]
    omega
  constructor
  · rintro ⟨s₁, hWrite, hBytes⟩
    cases hInit.symm.trans hWrite
    obtain ⟨t', hFirst, hPa⟩ := hBytes 0 (by decide)
    rw [hUsed 0 (by decide)] at hPa
    exact ⟨t, t', hWalk, hFirst, hPa.symm⟩
  · rintro ⟨t₁, t₂, hFirst, hSecond, hPa⟩
    cases hWalk.symm.trans hFirst
    refine ⟨_, hInit, fun j hj => ?_⟩
    refine ⟨_, Space.walk_add h hSecond (by omega) hj, ?_⟩
    rw [hUsed j hj, hPa]

theorem ramdiskRw_mem {blk : Nat} (hBlk : blk < fsimgSize) (hBound : s.ramdiskStart + fsimgSize * blockSize < 2 ^ 64)
    (hBuf : buf + blockSize < 2 ^ 64) (isWrite : Bool) : (ramdiskRw s blk buf isWrite).2.host.mem =
      if isWrite then copy s.host.mem (s.ramdiskStart + blk * blockSize) buf blockSize
      else copy s.host.mem buf (s.ramdiskStart + blk * blockSize) blockSize := by
  have hBlock := block_le hBlk
  have hAddr : u64 (s.ramdiskStart + blk * blockSize) = s.ramdiskStart + blk * blockSize := u64_of_lt (by omega)
  cases isWrite with
  | true =>
    rw [ramdiskRw_write hBlk, hAddr]
    exact memmove_eq _ _ _ _ (by omega) (Nat.le_of_lt hBuf)
  | false =>
    rw [ramdiskRw_read hBlk, hAddr]
    exact memmove_eq _ _ _ _ (Nat.le_of_lt hBuf) (by omega)

theorem copy_apply (m : Mem) (dst src : Nat) {n j : Nat} (hj : j < n) : copy m dst src n (dst + j) = m (src + j) := by
  rw [copy, if_pos ⟨by omega, by omega⟩, Nat.add_sub_cancel_left]

theorem LiesAt.moves {m : Mem} {root block : Nat} (h : LiesAt m root d blockSize buf) (isWrite : Bool) :
    Moves m (if isWrite then copy m block buf blockSize else copy m buf block blockSize) root block d isWrite := by
  cases isWrite with
  | true =>
    refine ⟨fun j hj => ?_, fun a ha => ?_⟩
    · obtain ⟨t, hWalk, hPa⟩ := h j hj
      refine ⟨t, hWalk, ?_⟩
      rw [if_pos rfl, copy_apply m block buf hj, hPa]
    · refine copy_sameOutside m block buf blockSize a ?_
      by_contra hIn
      exact ha (a - block) (by omega) (by omega)
  | false =>
    refine ⟨fun j hj => ?_, fun a ha => ?_⟩
    · obtain ⟨t, hWalk, hPa⟩ := h j hj
      refine ⟨t, hWalk, ?_⟩
      rw [if_neg Bool.false_ne_true, hPa, copy_apply m buf block hj]
    · refine copy_sameOutside m buf block blockSize a ?_
      by_contra hIn
      obtain ⟨t, hWalk, hPa⟩ := h (a - buf) (by omega)
      exact ha (a - buf) (by omega) t hWalk (by omega)

theorem exists_byte_ne (v : UInt8) : ∃ w : UInt8, w ≠ v := by
  by_cases hZero : v = 0
  · exact ⟨1, by rw [hZero]; decide⟩
  · exact ⟨0, fun hEq => hZero hEq.symm⟩

theorem bufferFollows_iff (h : s.Space node) (hWalk : archWalk s.host.mem s.stage2Pt d = some t)
    (hMapped : ∀ j < blockSize, (archWalk s.host.mem s.stage2Pt (d + j)).isSome) :
    BufferFollows s d ↔ LiesAt s.host.mem s.stage2Pt d blockSize t.pa := by
  have hLt := Space.walk_lt h hWalk
  have hSize : blockSize = 1024 := rfl
  -- any other content of the guest's memory and of the disk translates as the one at hand
  have hAll : ∀ m : Mem, (∀ a, ¬Confined s.host.mem s.stage2Pt s.ramdiskStart a → m a = s.host.mem a) →
      virtioGuestToHost (s.setMem m) d = .ok t.pa ∧
      ∀ ipa, archWalk m s.stage2Pt ipa = archWalk s.host.mem s.stage2Pt ipa := by
    intro m hSame
    obtain ⟨hSpace, hWalks⟩ := Space.of_confined h hSame
    exact ⟨Space.guestToHost (s := s.setMem m) hSpace ((hWalks d).trans hWalk), hWalks⟩
  have hMem : ∀ m : Mem, ∀ blk < fsimgSize, ∀ isWrite, (ramdiskRw (s.setMem m) blk t.pa isWrite).2.host.mem =
      if isWrite then copy m (s.ramdiskStart + blk * blockSize) t.pa blockSize
      else copy m t.pa (s.ramdiskStart + blk * blockSize) blockSize :=
    fun m blk hBlk isWrite => ramdiskRw_mem (s := s.setMem m) hBlk h.bound (by omega) isWrite
  constructor
  · intro hFollows j hj
    obtain ⟨t', hWalk'⟩ := Option.isSome_iff_exists.mp (hMapped j hj)
    refine ⟨t', hWalk', ?_⟩
    by_contra hNe
    -- a byte of the guest that differs from the one the backend reaches
    obtain ⟨w, hw⟩ := exists_byte_ne (s.host.mem (t.pa + j))
    have hSame : ∀ a, ¬Confined s.host.mem s.stage2Pt s.ramdiskStart a →
        Function.update s.host.mem t'.pa w a = s.host.mem a := by
      intro a ha
      rw [Function.update_of_ne]
      rintro rfl
      exact ha (.inl (guestByte_of_walk hWalk'))
    obtain ⟨hPa, hWalks⟩ := hAll _ hSame
    obtain ⟨buf, hBuf, hMoves⟩ := hFollows _ hSame 0 (by decide) true
    cases hPa.symm.trans hBuf
    rw [hMem _ 0 (by decide) true] at hMoves
    obtain ⟨t'', hWalk'', hByte⟩ := hMoves.1 j hj
    cases ((hWalks _).trans hWalk').symm.trans hWalk''
    rw [if_pos rfl, copy_apply _ _ _ hj, Function.update_self, Function.update_of_ne (Ne.symm hNe)] at hByte
    exact hw hByte.symm
  · intro hLies m hSame blk hBlk isWrite
    obtain ⟨hPa, hWalks⟩ := hAll m hSame
    refine ⟨t.pa, hPa, ?_⟩
    rw [hMem m blk hBlk isWrite]
    apply LiesAt.moves
    intro j hj
    rw [hWalks]
    exact hLies j hj

end

/-- In a VM that `create_vm` has built, with any content of its RAM and of the disk, the used ring and the
buffers are where the guest has them exactly if the pages they go over are adjacent. -/
theorem addresses_follow_iff {s s₀ s' : Hypervisor} {cfg : VmConfig} {img : Guest} {i disk : Nat} {b : Backend}
    {r d : Nat} (hPlaced : Placed cfg img) (hPool : RamPool s.host.allocator)
    (hImage : ImagePlaced s.host.allocator disk) (hImg : cfg.guestImg = some img) (hVm : allocvm s = some (s₀, i))
    (hRun : createVm s (some cfg) = .ok s') (hZero : ∀ g ∈ s'.host.grants, GrantedZero g)
    (hRoot : b.stage2Pt = (s'.vms i).stage2Pt) (hDisk : b.ramdiskStart = disk)
    (hMem : ∀ a, ¬Confined s'.host.mem (s'.vms i).stage2Pt disk a → b.host.mem a = s'.host.mem a)
    (hAligned : r % 4096 = 0) (hRing : ∀ j < 8192, InRam cfg img (r + j))
    (hData : ∀ j < blockSize, InRam cfg img (d + j)) :
    (UsedFollows b r ↔ Adjacent b.host.mem b.stage2Pt r) ∧
    (BufferFollows b d ↔ d % 4096 + blockSize ≤ 4096 ∨ Adjacent b.host.mem b.stage2Pt (d / 4096 * 4096)) := by
  obtain ⟨data, node, hCreated⟩ := createVm_owned hPlaced hPool hImg hVm hRun hZero
  obtain ⟨hSpace, hWalks⟩ := (created_space hCreated hPlaced hPool hImage).of_confined hMem
  rw [← hRoot] at hWalks
  rw [← hRoot, ← hDisk] at hSpace
  have hMapped : ∀ ipa, InRam cfg img ipa → (archWalk b.host.mem b.stage2Pt ipa).isSome := by
    intro ipa hIn
    rw [hWalks, hRoot]
    exact ((hCreated.isolated hPlaced hPool).translates ipa).mpr (.inl hIn)
  obtain ⟨t, hWalk⟩ := Option.isSome_iff_exists.mp (hMapped r (hRing 0 (by decide)))
  obtain ⟨t', hWalk'⟩ := Option.isSome_iff_exists.mp (hMapped d (hData 0 (by decide)))
  constructor
  · exact usedFollows_iff hSpace hAligned hWalk (hMapped _ (hRing 4096 (by decide)))
  · rw [bufferFollows_iff hSpace hWalk' (fun j hj => hMapped _ (hData j hj))]
    exact liesAt_iff hSpace hWalk' (by decide)

def freshBackend (m : Mem) : Backend :=
  ⟨⟨m, bootHypervisor.host.allocator, []⟩, 0x40000000, 0x10000000, 0, 0, bootQueue, [], []⟩

theorem threePages_inRam {ipa n : Nat} (hLow : 0x80000000 ≤ ipa) (hHigh : ipa + n ≤ 0x80003000) (j : Nat)
    (hj : j < n) :
    InRam (ramCfg 9000) smallImg (ipa + j) := by
  have hBytes : ramBytes (ramCfg 9000) smallImg = 12288 := by decide
  rw [InRam, hBytes]
  exact ⟨show 0x80000000 ≤ ipa + j by omega, show ipa + j < 0x80000000 + 12288 by omega⟩

theorem addresses_follow_second : ∃ s', createVm bootHypervisor (some (ramCfg 9000)) = .ok s' ∧
    UsedFollows (freshBackend s'.host.mem) 0x80001000 ∧ BufferFollows (freshBackend s'.host.mem) 0x80001f00 := by
  obtain ⟨s', hRun, hZero, hRoot, _, hSecond, hThird, _⟩ := threePages_created
  have hAdjacent : Adjacent s'.host.mem 0x40000000 0x80001000 := ⟨_, _, hSecond, hThird, rfl⟩
  obtain ⟨hUsed, hBuffer⟩ := addresses_follow_iff (b := freshBackend s'.host.mem) (r := 0x80001000)
    (d := 0x80001f00)
    threePages_placed bootHypervisor_ramPool bootHypervisor_image rfl rfl hRun hZero hRoot.symm rfl (fun _ _ => rfl)
    (by decide) (threePages_inRam (by decide) (by decide)) (threePages_inRam (by decide) (by decide))
  exact ⟨s', hRun, hUsed.mpr hAdjacent, hBuffer.mpr (.inr hAdjacent)⟩

/-- The ring at the start of the RAM: its used ring is put at 0x40002000, where a table of the VM is, and
the guest has it at 0x40005000. -/
theorem used_ring_misplaced : ∃ s' s₁ t, createVm bootHypervisor (some (ramCfg 9000)) = .ok s' ∧
    virtioMmioWrite 0 (freshBackend s'.host.mem) 0x40 0x80000 = .ok s₁ ∧ s₁.vq.used = 0x40002000 ∧
    archWalk s'.host.mem 0x40000000 0x80001000 = some t ∧ t.pa = 0x40005000 ∧
    ¬UsedFollows (freshBackend s'.host.mem) 0x80000000 := by
  obtain ⟨s', hRun, hZero, hRoot, hFirst, hSecond, _⟩ := threePages_created
  obtain ⟨node, hSpace⟩ := createVm_space threePages_placed bootHypervisor_ramPool bootHypervisor_image rfl rfl hRun
    hZero
  rw [hRoot] at hSpace
  have hBackend : (freshBackend s'.host.mem).Space node := hSpace
  have hInit := virtioMmioWrite_pfn (r := 0x80000000) hBackend (by decide) hFirst
  have hUsed := usedFollows_iff (r := 0x80000000) hBackend (by decide) hFirst (by
    change (archWalk s'.host.mem 0x40000000 0x80001000).isSome = true
    rw [hSecond]
    rfl)
  refine ⟨s', _, _, hRun, hInit, rfl, hSecond, rfl, fun hFollows => ?_⟩
  obtain ⟨t, t', hWalk, hWalk', hPa⟩ := hUsed.mp hFollows
  have hFirstEq := Option.some.inj (hFirst.symm.trans hWalk)
  have hSecondEq := Option.some.inj (hSecond.symm.trans hWalk')
  rw [← hFirstEq, ← hSecondEq] at hPa
  exact absurd hPa (by decide)

/-- The queue has been set up at page `r`, and the page behind it is adjacent. -/
structure SetUp (node : Nat → Nat → Option Nat) (r : Nat) (s : Backend) : Prop where
  space : s.Space node
  aligned : r % 4096 = 0
  adjacent : Adjacent s.host.mem s.stage2Pt r
  consistent : Consistent s.vq
  ring : ∀ t, archWalk s.host.mem s.stage2Pt r = some t → s.vq.vringPa = t.pa

/-- The queue is not set up anew, and what is processed is ready. -/
structure LeavesQueue (x : System) (e : Event) : Prop where
  size : ∀ val, e ≠ .write 0x38 val
  page : ∀ val, e ≠ .write 0x40 val
  request : ∀ cpu head, e = .handler cpu → x.pcs cpu = .process head → RequestReady x.dev head

def QueueStep (x y : System) : Prop := ∃ e, LeavesQueue x e ∧ Step x e y

theorem Consistent.of_pointers {q q' : VirtQueue} (h : Consistent q) (hNum : q'.vringNum = q.vringNum)
    (hPa : q'.vringPa = q.vringPa) (hDesc : q'.desc = q.desc) (hAvail : q'.avail = q.avail) (hUsed : q'.used = q.used) :
    Consistent q' := by
  cases q
  cases q'
  cases hNum
  cases hPa
  cases hDesc
  cases hAvail
  cases hUsed
  exact ⟨h.size_pos, h.size_le, h.desc, h.avail, h.used, h.desc_avail, h.desc_used, h.avail_used, h.slot, h.elem⟩

section
variable {s : Backend} {x y : System} {e : Event} {node : Nat → Nat → Option Nat} {r : Nat}

theorem SetUp.backed (h : SetUp node r s) {a n : Nat} (hLow : s.vq.vringPa ≤ a)
    (hHigh : a + n ≤ s.vq.vringPa + 8192) :
    Backed s a n := by
  obtain ⟨t, t', hWalk, hNext, hPa⟩ := h.adjacent
  have hRing := h.ring t hWalk
  have hAligned := h.aligned
  intro i hi
  left
  obtain hFirst | hSecond := Nat.lt_or_ge (a + i) (t.pa + 4096)
  · have hByte := guestByte_of_walk (h.space.walk_add hWalk hAligned (i := a + i - t.pa) (by omega))
    rwa [Nat.add_sub_cancel' (by omega)] at hByte
  · have hByte := guestByte_of_walk (h.space.walk_add hNext (by omega) (i := a + i - t'.pa) (by omega))
    rwa [Nat.add_sub_cancel' (by omega)] at hByte

theorem SetUp.ready (h : SetUp node r s) {pc : Pc} (hRequest : ∀ head, pc = .process head → RequestReady s head) :
    Ready s pc := by
  have hPos := h.consistent.size_pos
  have hMax := h.consistent.size_le
  have hAvail := h.consistent.avail
  have hUsed := h.consistent.used
  have hPa : s.vq.vringPa < 2 ^ 48 := by
    obtain ⟨t, _, hWalk, _⟩ := h.adjacent
    rw [h.ring t hWalk]
    exact h.space.walk_lt hWalk
  have hAvailIdx : Backed s s.vq.availIdxAddr 2 := by
    rw [VirtQueue.availIdxAddr, u64_of_lt (by omega)]
    exact h.backed (by omega) (by omega)
  have hUsedIdx : Backed s s.vq.usedIdxAddr 2 := by
    rw [VirtQueue.usedIdxAddr, u64_of_lt (by omega)]
    exact h.backed (by omega) (by omega)
  cases pc with
  | entry => exact hAvailIdx
  | test => exact hAvailIdx
  | fetch =>
    obtain ⟨hLow, hHigh⟩ := h.consistent.slot s.vq.availIdx
    exact h.backed (by omega) (by omega)
  | process head => exact hRequest head rfl
  | setId descIdx descLen =>
    obtain ⟨hLow, hHigh⟩ := h.consistent.elem (load s.host.mem s.vq.usedIdxAddr 2)
    exact ⟨hUsedIdx, h.backed (by omega) (by omega)⟩
  | setLen descLen =>
    obtain ⟨hLow, hHigh⟩ := h.consistent.elem (load s.host.mem s.vq.usedIdxAddr 2)
    refine ⟨hUsedIdx, ?_⟩
    rw [u64_of_lt (by omega)]
    exact h.backed (by omega) (by omega)
  | setIdx => exact hUsedIdx
  | idle => trivial
  | lock => trivial
  | wait ticket => trivial
  | next => trivial
  | unlock => trivial
  | signal => trivial

theorem SetUp.allowed (h : SetUp node r x.dev) (hLeaves : LeavesQueue x e) : Allowed x e := by
  cases e with
  | handler cpu => exact h.ready fun head => hLeaves.request cpu head rfl
  | guest m => trivial
  | read offset val => trivial
  | write offset val => trivial
  | notify cpu => trivial

theorem LeavesQueue.vq (h : LeavesQueue x e) (hStep : Step x e y) : ∃ pc, y.dev.vq = x.dev.vq.stepped pc := by
  cases hStep with
  | guest hSame => exact ⟨.idle, rfl⟩
  | read hRead => exact ⟨.idle, rfl⟩
  | notify hIdle => exact ⟨.idle, rfl⟩
  | handler hStep => exact ⟨_, handlerStep_vq hStep⟩
  | write hOffset hWrite =>
    rcases virtioMmioWrite_cases hOffset hWrite with ⟨rfl, _⟩ | ⟨rfl, _⟩ | ⟨_, _, hVq⟩
    · exact (h.size _ rfl).elim
    · exact (h.page _ rfl).elim
    · exact ⟨.idle, hVq⟩

theorem SetUp.step (h : SetUp node r x.dev) (hLeaves : LeavesQueue x e) (hStep : Step x e y) : SetUp node r y.dev := by
  have hKeeps := AllowedStep.keeps h.space ⟨e, h.allowed hLeaves, hStep⟩
  have hWalks := (Space.of_confined h.space hKeeps.same).2
  rw [← hKeeps.root] at hWalks
  obtain ⟨pc, hVq⟩ := hLeaves.vq hStep
  have hNum : y.dev.vq.vringNum = x.dev.vq.vringNum := by rw [hVq, stepped_vringNum]
  have hPa : y.dev.vq.vringPa = x.dev.vq.vringPa := by rw [hVq]; cases pc <;> rfl
  refine ⟨hKeeps.space h.space, h.aligned, ?_, ?_, ?_⟩
  · obtain ⟨t, t', hWalk, hNext, hPa⟩ := h.adjacent
    exact ⟨t, t', by rw [hWalks, hKeeps.root, hWalk], by rw [hWalks, hKeeps.root, hNext], hPa⟩
  · refine h.consistent.of_pointers hNum hPa ?_ ?_ ?_
    all_goals
      rw [hVq]
      cases pc <;> rfl
  · intro t hWalk
    rw [hWalks, hKeeps.root] at hWalk
    rw [hPa, h.ring t hWalk]

theorem setUp_of_writes {num : Nat} (hSpace : s.Space node) (hAligned : r % 4096 = 0)
    (hAdjacent : Adjacent s.host.mem s.stage2Pt r) (hPos : 0 < num) (hMax : num ≤ 64) :
    ∃ s₁ s₂, virtioMmioWrite 0 s 0x38 num = .ok s₁ ∧ virtioMmioWrite 0 s₁ 0x40 (r / 4096) = .ok s₂ ∧
      s₂.accesses = s.accesses ∧ SetUp node r s₂ := by
  obtain ⟨t, t', hWalk, hNext, hPa⟩ := hAdjacent
  have hSized : (Backend.Space { s with vq := { s.vq with vringNum := num } } node) := hSpace
  have hInit := virtioMmioWrite_pfn hSized hAligned hWalk
  refine ⟨_, _, rfl, hInit, rfl, hSpace, hAligned, ⟨t, t', hWalk, hNext, hPa⟩, ?_, ?_⟩
  · have hLt := Space.walk_lt hSpace hWalk
    have hWritten : Written [(⟨fun _ => .idle, s⟩, .write 0x40 (r / 4096)),
        (⟨fun _ => .idle, s⟩, .write 0x38 num)]
        (({ s.vq with vringNum := num } : VirtQueue).ringAt r t.pa) :=
          ⟨rfl, show t.pa < 2 ^ 49 by omega, rfl, rfl, rfl⟩
    exact (consistent_iff hWritten).mpr ⟨hPos, hMax, num, rfl, Nat.mod_eq_of_lt (by omega)⟩
  · intro t₁ hWalk₁
    cases hWalk.symm.trans hWalk₁
    rfl

end

/-- A queue of 1 to 64 entries is set up in two adjacent pages. From then on the backend stays within the guest's frames
and the image as long as the requests it processes are ready, and no handler step but that of a request can fail. -/
theorem queue_confined {s : Backend} {node : Nat → Nat → Option Nat} {r num : Nat} (hSpace : s.Space node)
    (hFresh : s.accesses = []) (hAligned : r % 4096 = 0) (hAdjacent : Adjacent s.host.mem s.stage2Pt r)
    (hPos : 0 < num) (hMax : num ≤ 64) :
    ∃ s₁ s₂, virtioMmioWrite 0 s 0x38 num = .ok s₁ ∧ virtioMmioWrite 0 s₁ 0x40 (r / 4096) = .ok s₂ ∧
      ∀ pcs x, Relation.ReflTransGen QueueStep ⟨pcs, s₂⟩ x →
        (∀ a ∈ x.dev.accesses, Backed x.dev a.addr a.size) ∧
        ∀ cpu, (∀ head, x.pcs cpu = .process head → RequestReady x.dev head) →
          ∃ y, Step x (.handler cpu) y := by
  obtain ⟨s₁, s₂, hSize, hPage, hSame, hSetUp⟩ := setUp_of_writes hSpace hAligned hAdjacent hPos hMax
  refine ⟨s₁, s₂, hSize, hPage, fun pcs x hRun => ?_⟩
  have hInside : Inside node s₂ := by
    refine ⟨hSetUp.space, ?_⟩
    intro a ha
    rw [hSame, hFresh] at ha
    cases ha
  have hStep : ∀ y z : System, SetUp node r y.dev ∧ Inside node y.dev → QueueStep y z →
      SetUp node r z.dev ∧ Inside node z.dev := by
    rintro y z ⟨h, hIn⟩ ⟨e, hLeaves, hStep⟩
    exact ⟨h.step hLeaves hStep, hIn.step ⟨e, h.allowed hLeaves, hStep⟩⟩
  obtain ⟨hEnd, hBacked⟩ := Library.Run.invariant hStep ⟨hSetUp, hInside⟩ hRun
  refine ⟨hBacked.backed, fun cpu hRequest => ?_⟩
  obtain ⟨pc, s', hGo, _⟩ := handlerStep_keeps hEnd.space (hEnd.ready hRequest)
  exact ⟨_, .handler hGo⟩

theorem queue_confined_second : ∃ m s₁ s₂ x, virtioMmioWrite 0 (freshBackend m) 0x38 8 = .ok s₁ ∧
    virtioMmioWrite 0 s₁ 0x40 0x80001 = .ok s₂ ∧
    Relation.ReflTransGen QueueStep ⟨fun _ => .idle, s₂⟩ x ∧
    x.dev.accesses = [⟨false, s₂.vq.availIdxAddr, 2⟩] ∧ Backed x.dev s₂.vq.availIdxAddr 2 := by
  obtain ⟨m, node, h, _⟩ := threePages_exists
  have hSpace : (freshBackend m).Space node := h.space
  have hAdjacent : Adjacent (freshBackend m).host.mem (freshBackend m).stage2Pt 0x80001000 :=
    ⟨_, _, h.ring, h.used, rfl⟩
  obtain ⟨s₁, s₂, hSize, hPage, hRuns⟩ := queue_confined hSpace rfl (by decide) hAdjacent (show 0 < 8 by decide)
    (by decide)
  have hFresh : s₂.accesses = [] := by
    cases Except.ok.inj hSize
    have hInit := virtioMmioWrite_pfn (s := { freshBackend m with vq := sizedQueue }) hSpace (by decide) h.ring
    cases hInit.symm.trans hPage
    rfl
  have hNotify : Step ⟨fun _ => .idle, s₂⟩ (.notify 0) ⟨Function.update (fun _ => .idle) 0 .entry, s₂⟩ :=
    .notify rfl
  have hEntry : Step ⟨Function.update (fun _ => .idle) 0 .entry, s₂⟩ (.handler 0) ⟨_, reqEntry s₂⟩ :=
    .handler rfl
  have hLeaves : LeavesQueue ⟨fun _ => .idle, s₂⟩ (.notify 0) :=
    ⟨fun _ => Event.noConfusion, fun _ => Event.noConfusion, fun _ _ => Event.noConfusion⟩
  have hLeaves' : LeavesQueue ⟨Function.update (fun _ => .idle) 0 .entry, s₂⟩ (.handler 0) := by
    refine ⟨fun _ => Event.noConfusion, fun _ => Event.noConfusion, fun cpu head hCpu hPc => ?_⟩
    cases hCpu
    cases hPc
  have hRun : Relation.ReflTransGen QueueStep ⟨fun _ => .idle, s₂⟩ _ :=
    (Relation.ReflTransGen.single ⟨_, hLeaves, hNotify⟩).tail ⟨_, hLeaves', hEntry⟩
  have hAccesses : (reqEntry s₂).accesses = [⟨false, s₂.vq.availIdxAddr, 2⟩] := congrArg _ hFresh
  refine ⟨m, s₁, s₂, _, hSize, hPage, hRun, hAccesses,
    (hRuns _ _ hRun).1 ⟨false, s₂.vq.availIdxAddr, 2⟩ ?_⟩
  rw [hAccesses]
  exact List.mem_singleton_self _

end HyperPoc.Virtio
