import HyperPoc.Virtio.Addresses

/-! # Buffers of a request

A descriptor grants the device `len` bytes, for writing only with `VRING_DESC_F_WRITE`. The backend
looks at neither: the direction of a transfer comes from the request header, its size is that of a
block, and the status byte is stored at the third descriptor whatever its flags are.
-/
namespace HyperPoc.Virtio
open Library.Memory Library.Run Stage2
set_option autoImplicit false

def vringDescFWrite : Nat := 2

/-- The host byte `b` is one of the bytes `[addr, addr + len)` of the descriptor. -/
def Backend.InBuffer (s : Backend) (d : VirtqDesc) (b : Nat) : Prop :=
  ∃ j < d.len, ∃ t, archWalk s.host.mem s.stage2Pt (d.addr + j) = some t ∧ t.pa = b

/-- Between `s` and `s'` the `n` bytes from `src` on have been copied to `dst`. -/
def Copies (s s' : Backend) (src dst n : Nat) : Prop :=
  ∃ later earlier, s'.accesses = later ++ ⟨true, dst, n⟩ :: ⟨false, src, n⟩ :: (earlier ++ s.accesses)

/-- What a request for the chain `head`, `second`, `third` may do to the guest's memory. -/
structure Respects (s s' : Backend) (head second third : Nat) : Prop where
  changed : ∀ b, GuestByte s.host.mem s.stage2Pt b → s'.host.mem b ≠ s.host.mem b →
    ∃ i ∈ [head, second, third], virtDescTestFlag (s.vq.descAt s.host.mem i) vringDescFWrite ∧
      s.InBuffer (s.vq.descAt s.host.mem i) b
  sent : ∀ src dst n, Copies s s' src dst n → InImage s.ramdiskStart dst →
    ∀ k < n, GuestByte s.host.mem s.stage2Pt (src + k) → s.InBuffer (s.vq.descAt s.host.mem second) (src + k)

/-- The chain has three descriptors, and the bytes of each lie next to each other in the host. -/
structure Buffers (s : Backend) (head second third : Nat) (t₀ t₁ t₂ : Translation) : Prop where
  size : 3 ≤ s.vq.vringNum
  chain : ThreeChain s.vq s.host.mem head second third
  header : archWalk s.host.mem s.stage2Pt (s.vq.descAt s.host.mem head).addr = some t₀
  data : archWalk s.host.mem s.stage2Pt (s.vq.descAt s.host.mem second).addr = some t₁
  status : archWalk s.host.mem s.stage2Pt (s.vq.descAt s.host.mem third).addr = some t₂
  headerLies : LiesAt s.host.mem s.stage2Pt (s.vq.descAt s.host.mem head).addr (s.vq.descAt s.host.mem head).len t₀.pa
  dataLies : LiesAt s.host.mem s.stage2Pt (s.vq.descAt s.host.mem second).addr
    (s.vq.descAt s.host.mem second).len t₁.pa
  statusLies : LiesAt s.host.mem s.stage2Pt (s.vq.descAt s.host.mem third).addr
    (s.vq.descAt s.host.mem third).len t₂.pa

/-- Byte `b` of the host lies in a buffer of the chain that the device may write. -/
def Backend.Writable (s : Backend) (head second third b : Nat) : Prop :=
  ∃ i ∈ [head, second, third], virtDescTestFlag (s.vq.descAt s.host.mem i) vringDescFWrite ∧
    s.InBuffer (s.vq.descAt s.host.mem i) b

def Backend.blockNumber (s : Backend) (req : Nat) : Nat := load s.host.mem (req + 8) 8 / 2

def Backend.blockAddr (s : Backend) (req : Nat) : Nat := s.ramdiskStart + s.blockNumber req * blockSize

/-- With the header at host address `req`, the data at `buf` and the status byte at `a`: the guest's bytes that will
change may be written, and those that will be sent to the disk are data. -/
structure Permitted (s : Backend) (head second third req buf a : Nat) : Prop where
  status : GuestByte s.host.mem s.stage2Pt a →
    s.host.mem a ≠ (if s.blockNumber req < fsimgSize then 0 else 0xee) → s.Writable head second third a
  read : s.blockNumber req < fsimgSize → load s.host.mem req 4 ≠ virtioBlkTOut →
    ∀ k < blockSize, GuestByte s.host.mem s.stage2Pt (buf + k) → buf + k ≠ a →
      s.host.mem (s.blockAddr req + k) ≠ s.host.mem (buf + k) → s.Writable head second third (buf + k)
  sent : s.blockNumber req < fsimgSize → load s.host.mem req 4 = virtioBlkTOut →
    ∀ k < blockSize, GuestByte s.host.mem s.stage2Pt (buf + k) →
      s.InBuffer (s.vq.descAt s.host.mem second) (buf + k)

/-- The guest has described the request as the device will carry it out. -/
structure Granted (s : Backend) (second third : Nat) (t₀ : Translation) : Prop where
  data : load s.host.mem (t₀.pa + 8) 8 / 2 < fsimgSize → blockSize ≤ (s.vq.descAt s.host.mem second).len
  read : load s.host.mem (t₀.pa + 8) 8 / 2 < fsimgSize → load s.host.mem t₀.pa 4 ≠ virtioBlkTOut →
    virtDescTestFlag (s.vq.descAt s.host.mem second) vringDescFWrite
  statusLen : 1 ≤ (s.vq.descAt s.host.mem third).len
  statusFlag : virtDescTestFlag (s.vq.descAt s.host.mem third) vringDescFWrite

section
variable {s : Backend} {node : Nat → Nat → Option Nat} {head second third : Nat} {t₀ t₁ t₂ : Translation}

def chainReads (q : VirtQueue) (head second third : Nat) : List Access :=
  visit q third ++ (visit q second ++ visit q head)

def Backend.atChain (s : Backend) (head second third : Nat) : Backend := s.after (chainReads s.vq head second third)

/-- The block that is moved and the status byte that is stored for it. -/
def Backend.respond (s : Backend) (req buf status : Nat) : Backend :=
  (transfer s req buf).2.put status 1 (if (transfer s req buf).1 then 0 else 0xee)

/-- No byte of the block at `buf` is in a table. -/
def ClearOfTables (node : Nat → Nat → Option Nat) (buf : Nat) : Prop :=
  ∀ l p t k, node l p = some t → k < blockSize → ¬(t ≤ buf + k ∧ buf + k < t + 4096)

def headerReads (req : Nat) : List Access := [⟨false, req, 4⟩, ⟨false, req + 8, 8⟩]

structure Moved (s s' : Backend) (src dst : Nat) : Prop where
  accesses : s'.accesses = ⟨true, dst, blockSize⟩ :: ⟨false, src, blockSize⟩ :: s.accesses
  copied : ∀ k < blockSize, s'.host.mem (dst + k) = s.host.mem (src + k)
  same : SameOutside s.host.mem s'.host.mem dst blockSize

theorem ramdiskRw_moved {blk buf : Nat} (isWrite : Bool) (hSpace : s.Space node) (hBlk : blk < fsimgSize)
    (hBuf : buf + blockSize < 2 ^ 64) : Moved s (ramdiskRw s blk buf isWrite).2
      (if isWrite then buf else s.ramdiskStart + blk * blockSize)
      (if isWrite then s.ramdiskStart + blk * blockSize else buf) := by
  have hBound := hSpace.bound
  have hMem := ramdiskRw_mem hBlk hBound hBuf isWrite
  cases isWrite with
  | true =>
    refine ⟨?_, ?_, ?_⟩
    · rw [ramdiskRw_write hBlk, hSpace.diskAddr hBlk]
      rfl
    · rw [hMem]
      exact fun k hk => copy_apply s.host.mem _ buf hk
    · rw [hMem]
      exact copy_sameOutside s.host.mem _ buf blockSize
  | false =>
    refine ⟨?_, ?_, ?_⟩
    · rw [ramdiskRw_read hBlk, hSpace.diskAddr hBlk]
      rfl
    · rw [hMem]
      exact fun k hk => copy_apply s.host.mem buf _ hk
    · rw [hMem]
      exact copy_sameOutside s.host.mem buf _ blockSize

theorem Backend.inImage_block {req b : Nat} (hBlk : s.blockNumber req < fsimgSize)
    (hb : s.blockAddr req ≤ b ∧ b < s.blockAddr req + blockSize) : InImage s.ramdiskStart b := by
  have hBlock := block_le hBlk
  rw [Backend.blockAddr] at hb
  exact ⟨by omega, by omega⟩

theorem transfer_cases (hSpace : s.Space node) (req : Nat) {buf : Nat} (hBuf : buf + blockSize < 2 ^ 64) :
    (fsimgSize ≤ s.blockNumber req ∧ transfer s req buf = (false, s.after (headerReads req))) ∨
    s.blockNumber req < fsimgSize ∧ (transfer s req buf).1 = true ∧
      ((load s.host.mem req 4 = virtioBlkTOut ∧
        Moved (s.after (headerReads req)) (transfer s req buf).2 buf (s.blockAddr req)) ∨
      (load s.host.mem req 4 ≠ virtioBlkTOut ∧
        Moved (s.after (headerReads req)) (transfer s req buf).2 (s.blockAddr req) buf)) := by
  obtain hBlk | hGe := Nat.lt_or_ge (s.blockNumber req) fsimgSize
  · right
    have hMoved := ramdiskRw_moved (s := s.after (headerReads req))
      (load s.host.mem req 4 == virtioBlkTOut) hSpace hBlk hBuf
    have hDone : (transfer s req buf).1 = true := by
      rw [transfer]
      cases load s.host.mem req 4 == virtioBlkTOut with
      | true => exact congrArg Prod.fst (ramdiskRw_write hBlk)
      | false => exact congrArg Prod.fst (ramdiskRw_read hBlk)
    refine ⟨hBlk, hDone, ?_⟩
    by_cases hType : load s.host.mem req 4 = virtioBlkTOut
    · rw [if_pos (beq_iff_eq.mpr hType), if_pos (beq_iff_eq.mpr hType)] at hMoved
      exact .inl ⟨hType, hMoved⟩
    · rw [if_neg (mt beq_iff_eq.mp hType), if_neg (mt beq_iff_eq.mp hType)] at hMoved
      exact .inr ⟨hType, hMoved⟩
  · exact .inl ⟨hGe, ramdiskRw_ge hGe⟩

theorem not_written_among_reads {l r old later : List Access} {a n : Nat} (hReads : ∀ x ∈ l, x.write = false)
    (h : l ++ old = later ++ ⟨true, a, n⟩ :: (r ++ old)) : False := by
  have hNew : l = later ++ ⟨true, a, n⟩ :: r := List.append_cancel_right (h.trans (by simp))
  have hRead := hReads ⟨true, a, n⟩ (hNew ▸ List.mem_append_right later List.mem_cons_self)
  cases hRead

section
variable {l : List Access} {req buf status src dst n a b : Nat}

theorem respond_status (req status : Nat) (hSpace : s.Space node) (hBuf : buf + blockSize < 2 ^ 64) :
    (s.respond req buf status).host.mem status = if s.blockNumber req < fsimgSize then 0 else 0xee := by
  have hStore : ∀ done : Bool, store (transfer s req buf).2.host.mem status 1 (if done then 0 else 0xee) status =
      if done then 0 else 0xee := by
    intro done
    rw [store, if_pos ⟨Nat.le_refl _, Nat.lt_succ_self _⟩, Nat.sub_self]
    cases done <;> rfl
  refine (hStore _).trans ?_
  obtain ⟨hGe, hNone⟩ | ⟨hBlk, hDone, _⟩ := transfer_cases hSpace req hBuf
  · rw [hNone, if_neg Bool.false_ne_true, if_neg (by omega)]
  · rw [hDone, if_pos rfl, if_pos hBlk]

theorem respond_mem (hb : b ≠ status) : (s.respond req buf status).host.mem b = (transfer s req buf).2.host.mem b :=
  store_sameOutside _ status 1 _ b (by omega)

theorem reads_before_copy (hReads : ∀ x ∈ l, x.write = false) :
    ∀ x ∈ headerReads req ++ l, x.write = false := by
  intro x hx
  obtain hHeader | hx := List.mem_append.mp hx
  · obtain rfl | rfl : x = ⟨false, req, 4⟩ ∨ x = ⟨false, req + 8, 8⟩ := by simpa [headerReads] using hHeader
    · rfl
    · rfl
  · exact hReads x hx

theorem Moved.copies_eq (h : Moved ((s.after l).after (headerReads req)) (transfer (s.after l) req buf).2 a b)
    (hReads : ∀ x ∈ l, x.write = false) (hCopies : Copies s ((s.after l).respond req buf status) src dst n) :
    src = a ∧ dst = b ∧ n = blockSize := by
  obtain ⟨later, earlier, hEq⟩ := hCopies
  have hAll : ⟨true, status, 1⟩ :: ⟨true, b, blockSize⟩ :: ⟨false, a, blockSize⟩ ::
      (headerReads req ++ (l ++ s.accesses)) =
      later ++ ⟨true, dst, n⟩ :: ⟨false, src, n⟩ :: (earlier ++ s.accesses) :=
    (congrArg (List.cons _) h.accesses).symm.trans hEq
  match later with
  | [] => simp at hAll
  | [_] =>
    simp only [List.cons_append, List.nil_append, List.cons.injEq, Access.mk.injEq, true_and] at hAll
    exact ⟨hAll.2.2.1.1.symm, hAll.2.1.1.symm, hAll.2.1.2.symm⟩
  | _ :: _ :: rest =>
    obtain ⟨_, hTail⟩ := List.cons.inj hAll
    obtain ⟨_, hTail⟩ := List.cons.inj hTail
    have hSplit : ⟨false, a, blockSize⟩ :: (headerReads req ++ l) ++ s.accesses =
        rest ++ ⟨true, dst, n⟩ :: (⟨false, src, n⟩ :: earlier ++ s.accesses) := by simpa using hTail
    exact (not_written_among_reads (List.forall_mem_cons.mpr ⟨rfl, reads_before_copy hReads⟩) hSplit).elim

theorem Moved.copies (h : Moved ((s.after l).after (headerReads req)) (transfer (s.after l) req buf).2 a b) :
    Copies s ((s.after l).respond req buf status) a b blockSize := by
  refine ⟨[⟨true, status, 1⟩], headerReads req ++ l, ?_⟩
  rw [List.append_assoc]
  exact congrArg (List.cons _) h.accesses

theorem not_copies_of_none (h : transfer (s.after l) req buf = (false, (s.after l).after (headerReads req)))
    (hReads : ∀ x ∈ l, x.write = false) : ¬Copies s ((s.after l).respond req buf status) src dst n := by
  rintro ⟨later, earlier, hEq⟩
  have hAll : ⟨true, status, 1⟩ :: (headerReads req ++ (l ++ s.accesses)) =
      later ++ ⟨true, dst, n⟩ :: ⟨false, src, n⟩ :: (earlier ++ s.accesses) := by
    rw [← hEq, Backend.respond, h]
    rfl
  match later with
  | [] => simp [headerReads] at hAll; omega
  | _ :: rest =>
    obtain ⟨_, hTail⟩ := List.cons.inj hAll
    have hSplit : headerReads req ++ l ++ s.accesses =
        rest ++ ⟨true, dst, n⟩ :: (⟨false, src, n⟩ :: earlier ++ s.accesses) := by simpa using hTail
    exact not_written_among_reads (reads_before_copy hReads) hSplit

end

theorem chainReads_reads (q : VirtQueue) (i j k : Nat) : ∀ x ∈ chainReads q i j k, x.write = false := by
  simp [chainReads, visit]

theorem Buffers.data_end (h : Buffers s head second third t₀ t₁ t₂) (hSpace : s.Space node) :
    t₁.pa + blockSize < 2 ^ 64 := by
  have hLt := hSpace.walk_lt h.data
  rw [blockSize]
  omega

theorem Buffers.process_eq (h : Buffers s head second third t₀ t₁ t₂) (hSpace : s.Space node) {a : Nat}
    (hStatus : virtioGuestToHost (transfer (s.atChain head second third) t₀.pa t₁.pa).2
      (s.vq.descAt s.host.mem third).addr = .ok a) :
    virtioBlkProcessDesc s head = .ok (3, (s.atChain head second third).respond t₀.pa t₁.pa a) := by
  have hChain : (s.atChain head second third).Space node := hSpace
  rw [h.chain.process_eq h.size]
  have hReq := processBlkReq_status (s := s.atChain head second third) hChain h.header
    (hChain.guestToHost h.data) hStatus
  rw [Backend.atChain, chainReads] at hReq
  rw [hReq]
  rfl

/-- Unless a block from the disk is moved onto a table, the status byte is where the guest put it. -/
theorem Buffers.status_eq (h : Buffers s head second third t₀ t₁ t₂) (hSpace : s.Space node)
    (hClear : s.blockNumber t₀.pa < fsimgSize → load s.host.mem t₀.pa 4 ≠ virtioBlkTOut →
      ClearOfTables node t₁.pa) :
    virtioGuestToHost (transfer (s.atChain head second third) t₀.pa t₁.pa).2 (s.vq.descAt s.host.mem third).addr =
      .ok t₂.pa := by
  have hTables : ∀ l p t b, node l p = some t → t ≤ b → b < t + 4096 →
      (transfer (s.atChain head second third) t₀.pa t₁.pa).2.host.mem b = s.host.mem b := by
    intro l p t b hNode hLow hHigh
    obtain ⟨_, hNone⟩ | ⟨hBlk, _, ⟨_, hMoved⟩ | ⟨hType, hMoved⟩⟩ :=
      transfer_cases (s := s.atChain head second third) hSpace t₀.pa (h.data_end hSpace)
    · rw [hNone]
      rfl
    · apply hMoved.same
      by_contra hIn
      have hByte := Backend.inImage_block hBlk (b := b) (by omega)
      exact hSpace.image b l p t hByte hNode ⟨hLow, hHigh⟩
    · apply hMoved.same
      by_contra hIn
      have hByte := hClear hBlk hType l p t (b - t₁.pa) hNode (by omega)
      rw [Nat.add_sub_cancel' (by omega)] at hByte
      exact hByte ⟨hLow, hHigh⟩
  obtain ⟨hTree, hWalk⟩ := Space.walk_same hSpace hTables
  have hRoot : (transfer (s.atChain head second third) t₀.pa t₁.pa).2.stage2Pt = s.stage2Pt :=
    (transfer_fixed _ _ _).1
  have hStatus := (hWalk _).trans h.status
  rw [← hRoot] at hTree hStatus
  exact guestToHost_of_tree hTree hStatus

theorem Buffers.respects_iff (h : Buffers s head second third t₀ t₁ t₂) (hSpace : s.Space node) (a : Nat) :
    Respects s ((s.atChain head second third).respond t₀.pa t₁.pa a) head second third ↔
      Permitted s head second third t₀.pa t₁.pa a := by
  have hEnd := h.data_end hSpace
  have hReads := chainReads_reads s.vq head second third
  have hCases := transfer_cases (s := s.atChain head second third) hSpace t₀.pa hEnd
  have hStatus := respond_status (s := s.atChain head second third) t₀.pa a hSpace hEnd
  constructor
  · intro hRespects
    refine ⟨fun hGuest hNe => ?_, fun hBlk hType k hk hGuest hOther hNe => ?_, fun hBlk hType k hk hGuest => ?_⟩
    · apply hRespects.changed a hGuest
      rw [hStatus]
      exact hNe.symm
    · obtain ⟨hGe, _⟩ | ⟨_, _, ⟨hOut, _⟩ | ⟨_, hMoved⟩⟩ := hCases
      · exact absurd hBlk (Nat.not_lt.mpr hGe)
      · exact absurd hOut hType
      · apply hRespects.changed (t₁.pa + k) hGuest
        rw [respond_mem hOther, hMoved.copied k hk]
        exact hNe
    · obtain ⟨hGe, _⟩ | ⟨_, _, ⟨_, hMoved⟩ | ⟨hIn, _⟩⟩ := hCases
      · exact absurd hBlk (Nat.not_lt.mpr hGe)
      · have hImage := Backend.inImage_block hBlk ⟨Nat.le_refl _, Nat.lt_add_of_pos_right (by decide)⟩
        exact hRespects.sent t₁.pa _ blockSize hMoved.copies hImage k hk hGuest
      · exact absurd hType hIn
  · intro hPermitted
    refine ⟨fun b hGuest hChanged => ?_, fun src dst n hCopies hDst k hk hGuest => ?_⟩
    · by_cases hb : b = a
      · subst hb
        rw [hStatus] at hChanged
        exact hPermitted.status hGuest hChanged.symm
      rw [respond_mem hb] at hChanged
      obtain ⟨_, hNone⟩ | ⟨hBlk, _, ⟨_, hMoved⟩ | ⟨hType, hMoved⟩⟩ := hCases
      · rw [hNone] at hChanged
        exact (hChanged rfl).elim
      · -- what changes is on the disk
        refine (hChanged (hMoved.same b ?_)).elim
        by_contra hIn
        exact hSpace.apart b hGuest (Backend.inImage_block (s := s.atChain head second third) hBlk (by omega))
      · by_cases hIn : t₁.pa ≤ b ∧ b < t₁.pa + blockSize
        · obtain ⟨k, rfl⟩ := Nat.exists_eq_add_of_le hIn.1
          rw [hMoved.copied k (by omega)] at hChanged
          exact hPermitted.read hBlk hType k (by omega) hGuest hb hChanged
        · exact (hChanged (hMoved.same b (by omega))).elim
    · obtain ⟨_, hNone⟩ | ⟨hBlk, _, ⟨hType, hMoved⟩ | ⟨_, hMoved⟩⟩ := hCases
      · exact (not_copies_of_none hNone hReads hCopies).elim
      · obtain ⟨rfl, _, rfl⟩ := hMoved.copies_eq hReads hCopies
        exact hPermitted.sent hBlk hType k hk hGuest
      · -- a block that comes from the disk goes to the guest's memory
        obtain ⟨_, rfl, _⟩ := hMoved.copies_eq hReads hCopies
        exact (hSpace.apart _ (guestByte_of_walk h.data) hDst).elim

end

section
variable {m p : Mem} {node : Nat → Nat → Option Nat}

theorem page_lies (hSpace : Space m 0x40000000 0x10000000 node)
    (hWalk : archWalk m 0x40000000 0x80000000 = some ⟨0x400014c7, 0x40001000⟩) (k n : Nat) (h : k + n ≤ 4096) :
    LiesAt (withPage m p 0x40001000) 0x40000000 (0x80000000 + k) n (0x40001000 + k) := by
  intro j hj
  refine ⟨⟨0x400014c7, 0x40001000 + (k + j)⟩, ?_, (Nat.add_assoc _ _ _).symm⟩
  rw [Nat.add_assoc]
  exact withPage_walk p hSpace hWalk (k + j) (by omega)

/-- A page of the small VM with a header at 0x400, data at 0x800 and a status byte at 0x500. -/
structure RequestPage (p : Mem) (len flags : Nat) : Prop where
  head : loadDesc p 0 = ⟨0x80000400, 16, 1, 1⟩
  data : loadDesc p 16 = ⟨0x80000800, len, 1, 2⟩
  status : loadDesc p 32 = ⟨0x80000500, 1, flags, 0⟩
  flags : flags &&& vringDescFNext = 0
  small : len ≤ 1024

theorem RequestPage.descs {len flags : Nat} (h : RequestPage p len flags) (m : Mem) :
    (pageBackend m p smallQueue []).vq.descAt (pageBackend m p smallQueue []).host.mem 0 =
      ⟨0x80000400, 16, 1, 1⟩ ∧
    (pageBackend m p smallQueue []).vq.descAt (pageBackend m p smallQueue []).host.mem 1 =
      ⟨0x80000800, len, 1, 2⟩ ∧
    (pageBackend m p smallQueue []).vq.descAt (pageBackend m p smallQueue []).host.mem 2 =
      ⟨0x80000500, 1, flags, 0⟩ :=
  ⟨(smallQueue_desc m p 0 (by decide)).trans h.head, (smallQueue_desc m p 1 (by decide)).trans h.data,
    (smallQueue_desc m p 2 (by decide)).trans h.status⟩

theorem RequestPage.buffers {len flags : Nat} (h : RequestPage p len flags)
    (hSpace : Space m 0x40000000 0x10000000 node)
    (hWalk : archWalk m 0x40000000 0x80000000 = some ⟨0x400014c7, 0x40001000⟩) :
    Buffers (pageBackend m p smallQueue []) 0 1 2 ⟨0x400014c7, 0x40001400⟩ ⟨0x400014c7, 0x40001800⟩
      ⟨0x400014c7, 0x40001500⟩ := by
  have hPage := withPage_walk p hSpace hWalk
  have hLies := page_lies (p := p) hSpace hWalk
  obtain ⟨hHead, hData, hStatus⟩ := h.descs m
  have hSmall := h.small
  refine ⟨by change 3 ≤ 8; decide, ⟨?_, ?_, ?_⟩, ?_, ?_, ?_, ?_, ?_, ?_⟩
  · rw [VirtQueue.successor, hHead]
    exact if_pos ⟨by decide, by change 1 < 8; decide⟩
  · rw [VirtQueue.successor, hData]
    exact if_pos ⟨(by decide : (1 &&& vringDescFNext != 0) = true), by change 2 < 8; decide⟩
  · rw [VirtQueue.successor, hStatus]
    refine if_neg fun hNext => absurd hNext.1 ?_
    rw [virtDescTestFlag, h.flags]
    decide
  · rw [hHead]
    exact hPage 0x400 (by decide)
  · rw [hData]
    exact hPage 0x800 (by decide)
  · rw [hStatus]
    exact hPage 0x500 (by decide)
  · rw [hHead]
    exact hLies 0x400 16 (by decide)
  · rw [hData]
    exact hLies 0x800 len (by omega)
  · rw [hStatus]
    exact hLies 0x500 1 (by decide)

end

section
variable {m p : Mem} {node : Nat → Nat → Option Nat}

theorem page_space (hSpace : Space m 0x40000000 0x10000000 node)
    (hWalk : archWalk m 0x40000000 0x80000000 = some ⟨0x400014c7, 0x40001000⟩) :
    (pageBackend m p smallQueue []).Space node := (withPage_space p hSpace hWalk).1

theorem page_data (hSpace : Space m 0x40000000 0x10000000 node)
    (hWalk : archWalk m 0x40000000 0x80000000 = some ⟨0x400014c7, 0x40001000⟩) (i : Nat) (hi : i < blockSize) :
    GuestByte (withPage m p 0x40001000) 0x40000000 (0x40001800 + i) := by
  obtain ⟨t, hByte, hPa⟩ := page_lies (p := p) hSpace hWalk 0x800 blockSize (by decide) i hi
  exact hPa ▸ guestByte_of_walk hByte

theorem page_clear (hSpace : Space m 0x40000000 0x10000000 node)
    (hWalk : archWalk m 0x40000000 0x80000000 = some ⟨0x400014c7, 0x40001000⟩) : ClearOfTables node 0x40001800 :=
  fun l p t k hNode hk => (withPage_space m hSpace hWalk).1.frames _ l p t (page_data hSpace hWalk k hk) hNode

end

section
variable {m p : Mem} {node : Nat → Nat → Option Nat} {len flags : Nat}

theorem RequestPage.process_eq (h : RequestPage p len flags) (hSpace : Space m 0x40000000 0x10000000 node)
    (hWalk : archWalk m 0x40000000 0x80000000 = some ⟨0x400014c7, 0x40001000⟩) :
    ∃ s', virtioBlkProcessDesc (pageBackend m p smallQueue []) 0 = .ok (3, s') ∧
      (Respects (pageBackend m p smallQueue []) s' 0 1 2 →
        Permitted (pageBackend m p smallQueue []) 0 1 2 0x40001400 0x40001800 0x40001500) := by
  have hPage := page_space (p := p) hSpace hWalk
  have hBuffers := h.buffers hSpace hWalk
  have hStatus := hBuffers.status_eq hPage fun _ _ => page_clear hSpace hWalk
  exact ⟨_, hBuffers.process_eq hPage hStatus, (hBuffers.respects_iff hPage _).mp⟩

end

end HyperPoc.Virtio
