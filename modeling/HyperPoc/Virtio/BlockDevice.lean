import HyperPoc.Virtio.Process

/-! # The backend as an array of blocks

The image is read as an array of 1000 blocks. A request that follows the driver's format gets the
answer such an array gives, whatever the guest and the queue did before, as long as the backend reads
the header the guest wrote: only the first byte of the header is translated, the rest is reached by
host pointers.
-/
namespace HyperPoc.Virtio
open Library.Memory Library.Run Stage2
set_option autoImplicit false

abbrev Block := Fin blockSize → UInt8
abbrev Disk := Fin fsimgSize → Block

def blockAt (m : Mem) (a : Nat) : Block := fun o => m (a + o)

def diskImage (m : Mem) (disk : Nat) : Disk := fun b => blockAt m (disk + b * blockSize)

/-- A request by its meaning, with the host addresses of its buffer and of its status byte. -/
structure Request where
  write : Bool
  sector : Nat
  buf : Nat
  status : Nat

def Request.InBuffer (r : Request) (b : Nat) : Prop := r.buf ≤ b ∧ b < r.buf + blockSize

/-- The places of a request: a chain of three descriptors, a header, a buffer that is one piece of host memory and
a status byte outside it. -/
structure Shaped (s : Backend) (head second third : Nat) (t₀ t₂ : Translation) (r : Request) : Prop where
  head_lt : head < s.vq.vringNum
  chain : ThreeChain s.vq s.host.mem head second third
  header : archWalk s.host.mem s.stage2Pt (s.vq.descAt s.host.mem head).addr = some t₀
  buffer : LiesAt s.host.mem s.stage2Pt (s.vq.descAt s.host.mem second).addr blockSize r.buf
  status : archWalk s.host.mem s.stage2Pt (s.vq.descAt s.host.mem third).addr = some t₂
  status_eq : t₂.pa = r.status
  apart : ¬r.InBuffer r.status

/-- The header is the guest's: its bytes are found one by one through the translation. -/
structure WellFormed (s : Backend) (head second third : Nat) (t₀ t₂ : Translation) (r : Request) : Prop
    extends Shaped s head second third t₀ t₂ r where
  type : guestLoad s.host.mem s.stage2Pt (s.vq.descAt s.host.mem head).addr 4 =
    some (if r.write then virtioBlkTOut else virtioBlkTIn)
  sector : guestLoad s.host.mem s.stage2Pt ((s.vq.descAt s.host.mem head).addr + 8) 8 = some r.sector
  even : r.sector % 2 = 0

/-- The request the backend finds if it takes the header from host address `req` on. -/
def Request.asRead (r : Request) (m : Mem) (req : Nat) : Request :=
  { r with write := load m req 4 == virtioBlkTOut, sector := load m (req + 8) 8 }

/-- The answer of an array of blocks: the array, the buffer and the status byte afterwards. -/
def respond (d : Disk) (r : Request) (data : Block) : Disk × Block × UInt8 :=
  if h : r.sector / 2 < fsimgSize then
    if r.write then (Function.update d ⟨r.sector / 2, h⟩ data, data, 0) else (d, d ⟨r.sector / 2, h⟩, 0)
  else (d, data, 0xee)

theorem respond_write {d : Disk} {r : Request} {data : Block} (h : r.sector / 2 < fsimgSize) (hWrite : r.write = true) :
    respond d r data = (Function.update d ⟨r.sector / 2, h⟩ data, data, 0) := by
  rw [respond, dif_pos h, if_pos hWrite]

theorem respond_read {d : Disk} {r : Request} {data : Block} (h : r.sector / 2 < fsimgSize) (hRead : r.write = false) :
    respond d r data = (d, d ⟨r.sector / 2, h⟩, 0) := by
  rw [respond, dif_pos h, hRead]
  rfl

theorem respond_ge {d : Disk} {r : Request} {data : Block} (h : fsimgSize ≤ r.sector / 2) :
    respond d r data = (d, data, 0xee) := dif_neg (by omega)

/-- What the backend finds at `req` has the same answer as the request. -/
def ReadRight (d : Disk) (s : Backend) (r : Request) (req : Nat) : Prop :=
  respond d (r.asRead s.host.mem req) (blockAt s.host.mem r.buf) = respond d r (blockAt s.host.mem r.buf)

/-- The memory after a request: the answer of the array `d`, and nothing else has changed. -/
structure Answers (d : Disk) (s s' : Backend) (r : Request) : Prop where
  answer : (diskImage s'.host.mem s.ramdiskStart, blockAt s'.host.mem r.buf, s'.host.mem r.status) =
    respond d r (blockAt s.host.mem r.buf)
  same : ∀ b, ¬InImage s.ramdiskStart b → ¬r.InBuffer b → b ≠ r.status → s'.host.mem b = s.host.mem b

theorem blockAt_congr {m m' : Mem} {a : Nat} (h : ∀ i, i < blockSize → m' (a + i) = m (a + i)) :
    blockAt m' a = blockAt m a := by
  funext o
  exact h o o.isLt

theorem diskImage_congr {m m' : Mem} {disk : Nat} (h : ∀ b, InImage disk b → m' b = m b) :
    diskImage m' disk = diskImage m disk := by
  funext b
  apply blockAt_congr
  intro i hi
  have hBlock := block_le b.isLt
  exact h _ ⟨by omega, by omega⟩

theorem blockAt_copy (m : Mem) (dst src : Nat) : blockAt (copy m dst src blockSize) dst = blockAt m src := by
  funext o
  have hLt := o.isLt
  rw [blockAt, blockAt, copy, if_pos (by omega), Nat.add_sub_cancel_left]

theorem diskImage_copy (m : Mem) (disk src : Nat) (b : Fin fsimgSize) :
    diskImage (copy m (disk + b * blockSize) src blockSize) disk =
      Function.update (diskImage m disk) b (blockAt m src) := by
  funext b'
  obtain rfl | hNe := eq_or_ne b' b
  · rw [Function.update_self, diskImage, blockAt_copy]
  · rw [Function.update_of_ne hNe, diskImage, diskImage]
    apply blockAt_congr
    intro i hi
    -- blocks with different numbers do not overlap
    have hApart : (b' : Nat) * blockSize + blockSize ≤ b * blockSize ∨
        (b : Nat) * blockSize + blockSize ≤ b' * blockSize := by
      rw [← Nat.succ_mul, ← Nat.succ_mul]
      obtain hLt | hGt := Nat.lt_or_gt_of_ne (Fin.val_ne_of_ne hNe)
      · exact .inl (Nat.mul_le_mul_right _ hLt)
      · exact .inr (Nat.mul_le_mul_right _ hGt)
    exact copy_sameOutside m _ src blockSize _ (by omega)

section
variable {m : Mem} {disk buf : Nat}

theorem inImage_of_block {blk b : Nat} (hBlk : blk < fsimgSize) (hLow : disk + blk * blockSize ≤ b)
    (hHigh : b < disk + blk * blockSize + blockSize) : InImage disk b := by
  have hBlock := block_le hBlk
  exact ⟨by omega, by omega⟩

theorem copy_to_block (hApart : ∀ b, InImage disk b → ¬(buf ≤ b ∧ b < buf + blockSize)) {blk : Nat}
    (hBlk : blk < fsimgSize) :
    blockAt (copy m (disk + blk * blockSize) buf blockSize) buf = blockAt m buf ∧
    ∀ b, ¬InImage disk b → copy m (disk + blk * blockSize) buf blockSize b = m b := by
  have hSame := copy_sameOutside m (disk + blk * blockSize) buf blockSize
  constructor
  · apply blockAt_congr
    intro i hi
    apply hSame
    by_contra hIn
    exact hApart (buf + i) (inImage_of_block hBlk (by omega) (by omega)) ⟨by omega, by omega⟩
  · intro b hb
    apply hSame
    by_contra hIn
    exact hb (inImage_of_block hBlk (by omega) (by omega))

theorem copy_from_block (hApart : ∀ b, InImage disk b → ¬(buf ≤ b ∧ b < buf + blockSize)) (src : Nat) :
    diskImage (copy m buf src blockSize) disk = diskImage m disk ∧
    ∀ b, ¬(buf ≤ b ∧ b < buf + blockSize) → copy m buf src blockSize b = m b := by
  have hSame := copy_sameOutside m buf src blockSize
  constructor
  · apply diskImage_congr
    intro b hb
    apply hSame
    have hOut := hApart b hb
    omega
  · intro b hb
    exact hSame b (by omega)

theorem store_status {status : Nat} (hImage : ¬InImage disk status)
    (hBuf : ¬(buf ≤ status ∧ status < buf + blockSize)) (done : Bool) :
    (diskImage (store m status 1 (if done then 0 else 0xee)) disk,
      blockAt (store m status 1 (if done then 0 else 0xee)) buf,
      store m status 1 (if done then 0 else 0xee) status) =
    (diskImage m disk, blockAt m buf, if done then 0 else 0xee) := by
  have hStore := store_sameOutside m status 1 (if done then 0 else 0xee)
  have hDisk : diskImage (store m status 1 (if done then 0 else 0xee)) disk = diskImage m disk := by
    apply diskImage_congr
    intro b hb
    apply hStore
    have hNe : b ≠ status := by
      rintro rfl
      exact hImage hb
    omega
  have hBlock : blockAt (store m status 1 (if done then 0 else 0xee)) buf = blockAt m buf := by
    apply blockAt_congr
    intro i hi
    exact hStore (buf + i) (by omega)
  have hByte : store m status 1 (if done then 0 else 0xee) status = if done then 0 else 0xee := by
    rw [store, if_pos (by omega), Nat.sub_self]
    cases done <;> rfl
  rw [hDisk, hBlock, hByte]

end

section
variable {s : Backend} {node : Nat → Nat → Option Nat} {head second third : Nat} {t₀ t₂ : Translation}
  {r : Request}

theorem Shaped.guestByte (h : Shaped s head second third t₀ t₂ r) {b : Nat} (hb : r.InBuffer b) :
    GuestByte s.host.mem s.stage2Pt b := by
  obtain ⟨hLow, hHigh⟩ := hb
  obtain ⟨t, hWalk, hPa⟩ := h.buffer (b - r.buf) (by omega)
  rw [Nat.add_sub_cancel' hLow] at hPa
  rw [← hPa]
  exact guestByte_of_walk hWalk

theorem Shaped.buffer_lt (h : Shaped s head second third t₀ t₂ r)
    (hSpace : Space s.host.mem s.stage2Pt s.ramdiskStart node) : r.buf + blockSize < 2 ^ 64 := by
  obtain ⟨t, hWalk, hPa⟩ := h.buffer (blockSize - 1) (by decide)
  have hLt := hSpace.walk_lt hWalk
  have hSize : blockSize = 1024 := rfl
  omega

theorem Shaped.image_apart (h : Shaped s head second third t₀ t₂ r)
    (hSpace : Space s.host.mem s.stage2Pt s.ramdiskStart node) (b : Nat) (hb : InImage s.ramdiskStart b) :
    ¬r.InBuffer b := by
  intro hIn
  exact hSpace.apart b (h.guestByte hIn) hb

theorem Shaped.transfer_eq (h : Shaped s head second third t₀ t₂ r)
    (hSpace : Space s.host.mem s.stage2Pt s.ramdiskStart node) :
    (diskImage (transfer s t₀.pa r.buf).2.host.mem s.ramdiskStart,
      blockAt (transfer s t₀.pa r.buf).2.host.mem r.buf, if (transfer s t₀.pa r.buf).1 then 0 else 0xee) =
      respond (diskImage s.host.mem s.ramdiskStart) (r.asRead s.host.mem t₀.pa) (blockAt s.host.mem r.buf) ∧
    ∀ b, ¬InImage s.ramdiskStart b → ¬r.InBuffer b →
      (transfer s t₀.pa r.buf).2.host.mem b = s.host.mem b := by
  have hBufLt := h.buffer_lt hSpace
  have hBound := hSpace.bound
  obtain ⟨q, hRead⟩ : ∃ q, q = r.asRead s.host.mem t₀.pa := ⟨_, rfl⟩
  have hType : (load s.host.mem t₀.pa 4 == virtioBlkTOut) = q.write := by rw [hRead, Request.asRead]
  have hSector : load s.host.mem (t₀.pa + 8) 8 = q.sector := by rw [hRead, Request.asRead]
  rw [transfer, hType, hSector, ← hRead]
  obtain hBlk | hGe := Nat.lt_or_ge (q.sector / 2) fsimgSize
  · have hBlock := block_le hBlk
    have hAddr : u64 (s.ramdiskStart + q.sector / 2 * blockSize) = s.ramdiskStart + q.sector / 2 * blockSize :=
      hSpace.diskAddr hBlk
    cases hWrite : q.write with
    | true =>
      have hMem := memmove_eq s.host.mem (s.ramdiskStart + q.sector / 2 * blockSize) r.buf blockSize (by omega)
        (Nat.le_of_lt hBufLt)
      obtain ⟨hBuf, hSame⟩ := copy_to_block (m := s.host.mem) (h.image_apart hSpace) hBlk
      rw [ramdiskRw_write hBlk, respond_write hBlk hWrite]
      change (diskImage (memmove s.host.mem (u64 (s.ramdiskStart + q.sector / 2 * blockSize)) r.buf blockSize) _,
        blockAt (memmove s.host.mem (u64 (s.ramdiskStart + q.sector / 2 * blockSize)) r.buf blockSize) _, _) = _ ∧
        ∀ b, _ → _ → memmove s.host.mem (u64 (s.ramdiskStart + q.sector / 2 * blockSize)) r.buf blockSize b = _
      rw [hAddr, hMem, diskImage_copy _ _ _ ⟨q.sector / 2, hBlk⟩, hBuf]
      exact ⟨rfl, fun b hb _ => hSame b hb⟩
    | false =>
      have hMem := memmove_eq s.host.mem r.buf (s.ramdiskStart + q.sector / 2 * blockSize) blockSize
        (Nat.le_of_lt hBufLt) (by omega)
      obtain ⟨hDisk, hSame⟩ := copy_from_block (m := s.host.mem) (h.image_apart hSpace)
        (s.ramdiskStart + q.sector / 2 * blockSize)
      rw [ramdiskRw_read hBlk, respond_read hBlk hWrite]
      change (diskImage (memmove s.host.mem r.buf (u64 (s.ramdiskStart + q.sector / 2 * blockSize)) blockSize) _,
        blockAt (memmove s.host.mem r.buf (u64 (s.ramdiskStart + q.sector / 2 * blockSize)) blockSize) _, _) = _ ∧
        ∀ b, _ → _ → memmove s.host.mem r.buf (u64 (s.ramdiskStart + q.sector / 2 * blockSize)) blockSize b = _
      rw [hAddr, hMem, hDisk, blockAt_copy]
      exact ⟨rfl, fun b _ hb => hSame b hb⟩
  · rw [ramdiskRw_ge hGe, respond_ge hGe]
    exact ⟨rfl, fun _ _ _ => rfl⟩

theorem Shaped.after (h : Shaped s head second third t₀ t₂ r) (l : List Access) :
    Shaped (s.after l) head second third t₀ t₂ r :=
  ⟨h.head_lt, h.chain, h.header, h.buffer, h.status, h.status_eq, h.apart⟩

theorem Shaped.processBlkReq_eq (h : Shaped s head second third t₀ t₂ r)
    (hSpace : Space s.host.mem s.stage2Pt s.ramdiskStart node) :
    processBlkReq s (s.vq.descAt s.host.mem head) (s.vq.descAt s.host.mem second) (s.vq.descAt s.host.mem third) =
      .ok ((transfer s t₀.pa r.buf).2.put r.status 1 (if (transfer s t₀.pa r.buf).1 then 0 else 0xee)) := by
  obtain ⟨t, hWalk, hPa⟩ := h.buffer 0 (by decide)
  have hBufAddr := hSpace.guestToHost hWalk
  rw [hPa, Nat.add_zero, Nat.add_zero] at hBufAddr
  rw [← h.status_eq]
  apply Virtio.processBlkReq_eq hSpace h.header hBufAddr h.status
  apply ramdiskRw_same (s := (s.record false (t₀.pa + 8) 8).record false t₀.pa 4) hSpace
  intro _ i hi
  exact .inl (h.guestByte ⟨by omega, by omega⟩)

theorem Shaped.process (h : Shaped s head second third t₀ t₂ r)
    (hSpace : Space s.host.mem s.stage2Pt s.ramdiskStart node) :
    ∃ s', virtioBlkProcessDesc s head = .ok (3, s') ∧ s'.stage2Pt = s.stage2Pt ∧
      s'.ramdiskStart = s.ramdiskStart ∧
      Answers (diskImage s.host.mem s.ramdiskStart) s s' (r.asRead s.host.mem t₀.pa) := by
  have hVisited := h.after (visit s.vq third ++ (visit s.vq second ++ visit s.vq head))
  have hDone := hVisited.processBlkReq_eq hSpace
  obtain ⟨hAnswer, hSame⟩ := hVisited.transfer_eq hSpace
  obtain ⟨hRoot, hDisk⟩ := transfer_fixed (s.after (visit s.vq third ++ (visit s.vq second ++ visit s.vq head)))
    t₀.pa r.buf
  generalize transfer (s.after (visit s.vq third ++ (visit s.vq second ++ visit s.vq head))) t₀.pa r.buf =
    moved at hDone hAnswer hSame hRoot hDisk
  have hStore := store_sameOutside moved.2.host.mem r.status 1 (if moved.1 then 0 else 0xee)
  have hStatus : ¬InImage s.ramdiskStart r.status := by
    apply hSpace.apart
    rw [← h.status_eq]
    exact guestByte_of_walk h.status
  refine ⟨moved.2.put r.status 1 (if moved.1 then 0 else 0xee), ?_, hRoot, hDisk, ?_, ?_⟩
  · rw [h.chain.process_eq (h.chain.vringNum_le h.head_lt)]
    exact bind_eq_ok.mpr ⟨_, hDone, rfl⟩
  · exact (store_status hStatus h.apart moved.1).trans hAnswer
  · intro b hImage hBuf hNe
    have hOther : b ≠ r.status := hNe
    exact (hStore b (by omega)).trans (hSame b hImage hBuf)

end

/-- A sequence of well-formed requests that were read right, with the data each buffer held when it was made, latest
first. In between the guest writes its own memory and the queue moves on or is set up anew. -/
inductive Session (s₀ : Backend) : List (Request × Block) → Backend → Prop
  | start : Session s₀ [] s₀
  | between {log : List (Request × Block)} {s s' : Backend} (hSession : Session s₀ log s)
    (hRoot : s'.stage2Pt = s.stage2Pt) (hDisk : s'.ramdiskStart = s.ramdiskStart)
    (hSame : ∀ b, ¬GuestByte s.host.mem s.stage2Pt b → s'.host.mem b = s.host.mem b) : Session s₀ log s'
  | request {log : List (Request × Block)} {s s' : Backend} {head second third len : Nat} {t₀ t₂ : Translation}
    {r : Request} (hSession : Session s₀ log s) (hRequest : WellFormed s head second third t₀ t₂ r)
    (hRead : ReadRight (diskImage s.host.mem s.ramdiskStart) s r t₀.pa)
    (hProcess : virtioBlkProcessDesc s head = .ok (len, s')) :
    Session s₀ ((r, blockAt s.host.mem r.buf) :: log) s'

/-- The data of the latest write of each block, and the first content where there is none. -/
def latest (d : Disk) (log : List (Request × Block)) : Disk := fun b =>
  match log.find? fun e => e.1.write && e.1.sector / 2 == b.val with
  | some e => e.2
  | none => d b

theorem respond_latest (d : Disk) (log : List (Request × Block)) (r : Request) (data : Block) :
    (respond (latest d log) r data).1 = latest d ((r, data) :: log) := by
  funext b
  rw [latest, List.find?_cons]
  obtain hBlk | hGe := Nat.lt_or_ge (r.sector / 2) fsimgSize
  · cases hWrite : r.write with
    | true =>
      rw [respond_write hBlk hWrite]
      obtain hEq | hNe := eq_or_ne b ⟨r.sector / 2, hBlk⟩
      · simp [hEq]
      · have hVal : (r.sector / 2 == (b : Nat)) = false := by
          rw [beq_eq_false_iff_ne]
          intro hVal
          exact hNe (Fin.ext hVal.symm)
        simp [Function.update_of_ne hNe, hVal, latest]
    | false =>
      rw [respond_read hBlk hWrite]
      simp [latest]
  · have hVal : (r.sector / 2 == (b : Nat)) = false := by
      rw [beq_eq_false_iff_ne]
      have hLt := b.isLt
      omega
    rw [respond_ge hGe]
    simp [hVal, latest]

/-- What a sequence of requests keeps: the address space, and the image as the latest writes leave it. -/
structure Holds (s₀ : Backend) (node : Nat → Nat → Option Nat) (log : List (Request × Block)) (s : Backend) :
    Prop where
  space : Space s.host.mem s.stage2Pt s.ramdiskStart node
  disk : s.ramdiskStart = s₀.ramdiskStart
  content : diskImage s.host.mem s.ramdiskStart = latest (diskImage s₀.host.mem s₀.ramdiskStart) log
  walks : ∀ ipa, archWalk s.host.mem s.stage2Pt ipa = archWalk s₀.host.mem s₀.stage2Pt ipa

section
variable {s₀ s s' : Backend} {node : Nat → Nat → Option Nat} {log : List (Request × Block)}
  {head second third : Nat} {t₀ t₂ : Translation} {r : Request}

theorem Holds.between (h : Holds s₀ node log s) (hRoot : s'.stage2Pt = s.stage2Pt)
    (hDisk : s'.ramdiskStart = s.ramdiskStart)
    (hSame : ∀ b, ¬GuestByte s.host.mem s.stage2Pt b → s'.host.mem b = s.host.mem b) : Holds s₀ node log s' := by
  obtain ⟨hSpace, hWalks⟩ := h.space.of_confined fun b hb => hSame b fun hGuest => hb (.inl hGuest)
  refine ⟨?_, hDisk.trans h.disk, ?_, fun ipa => ?_⟩
  · rw [hRoot, hDisk]
    exact hSpace
  · rw [hDisk, ← h.content]
    apply diskImage_congr
    intro b hb
    exact hSame b fun hGuest => h.space.apart b hGuest hb
  · rw [hRoot, hWalks, h.walks]

theorem Holds.request (h : Holds s₀ node log s) (hRequest : Shaped s head second third t₀ t₂ r)
    (hRead : ReadRight (diskImage s.host.mem s.ramdiskStart) s r t₀.pa) :
    ∃ s', virtioBlkProcessDesc s head = .ok (3, s') ∧
      Holds s₀ node ((r, blockAt s.host.mem r.buf) :: log) s' := by
  obtain ⟨s', hProcess, hRoot, hDisk, hAnswers⟩ := hRequest.process h.space
  have hContent : diskImage s'.host.mem s.ramdiskStart = (respond _ r _).1 :=
    congrArg Prod.fst (hAnswers.answer.trans hRead)
  have hSame : ∀ b, ¬Confined s.host.mem s.stage2Pt s.ramdiskStart b → s'.host.mem b = s.host.mem b := by
    intro b hb
    apply hAnswers.same
    · exact fun hImage => hb (.inr hImage)
    · exact fun hIn => hb (.inl (hRequest.guestByte hIn))
    · rintro rfl
      apply hb
      left
      change GuestByte _ _ r.status
      rw [← hRequest.status_eq]
      exact guestByte_of_walk hRequest.status
  obtain ⟨hSpace, hWalks⟩ := h.space.of_confined hSame
  rw [h.content] at hContent
  refine ⟨s', hProcess, ?_, hDisk.trans h.disk, ?_, fun ipa => ?_⟩
  · rw [hRoot, hDisk]
    exact hSpace
  · rw [hDisk, hContent, respond_latest]
  · rw [hRoot, hWalks, h.walks]

theorem Session.holds (hSession : Session s₀ log s)
    (hSpace : Space s₀.host.mem s₀.stage2Pt s₀.ramdiskStart node) : Holds s₀ node log s := by
  induction hSession with
  | start => exact ⟨hSpace, rfl, rfl, fun _ => rfl⟩
  | between _ hRoot hDisk hSame ih => exact ih.between hRoot hDisk hSame
  | request _ hRequest hRead hProcess ih =>
    obtain ⟨s₁, hEq, hHolds⟩ := ih.request hRequest.toShaped hRead
    rw [hEq] at hProcess
    cases hProcess
    exact hHolds

theorem WellFormed.asRead_eq (h : WellFormed s head second third t₀ t₂ r)
    (hHeader : LiesAt s.host.mem s.stage2Pt (s.vq.descAt s.host.mem head).addr 16 t₀.pa) :
    r.asRead s.host.mem t₀.pa = r := by
  have hType := (hHeader.mono 0 4 (by decide)).guestLoad
  have hSector := (hHeader.mono 8 8 (by decide)).guestLoad
  rw [Nat.add_zero, Nat.add_zero, h.type] at hType
  rw [h.sector] at hSector
  rw [Request.asRead, ← Option.some.inj hType, ← Option.some.inj hSector]
  cases r with
  | mk write sector buf status => cases write <;> rfl

/-- A header that is one piece of host memory is read right. -/
theorem WellFormed.readRight (h : WellFormed s head second third t₀ t₂ r)
    (hHeader : LiesAt s.host.mem s.stage2Pt (s.vq.descAt s.host.mem head).addr 16 t₀.pa) (d : Disk) :
    ReadRight d s r t₀.pa := by
  rw [ReadRight, h.asRead_eq hHeader]

/-- After every sequence of well-formed requests that were read right the next one is carried out. It is answered as
an array of blocks answers it that holds the latest data written to each block, exactly if it is read right as well,
and so if its header lies at the address the first byte is translated to. -/
theorem blockDevice_semantics_iff (hSpace : Space s₀.host.mem s₀.stage2Pt s₀.ramdiskStart node)
    (hSession : Session s₀ log s) (hRequest : WellFormed s head second third t₀ t₂ r) :
    ∃ s', virtioBlkProcessDesc s head = .ok (3, s') ∧
      (Answers (latest (diskImage s₀.host.mem s₀.ramdiskStart) log) s s' r ↔
        ReadRight (latest (diskImage s₀.host.mem s₀.ramdiskStart) log) s r t₀.pa) ∧
      (LiesAt s.host.mem s.stage2Pt (s.vq.descAt s.host.mem head).addr 16 t₀.pa →
        Answers (latest (diskImage s₀.host.mem s₀.ramdiskStart) log) s s' r) := by
  have hHolds := hSession.holds hSpace
  obtain ⟨s', hProcess, _, _, hAnswers⟩ := hRequest.process hHolds.space
  rw [hHolds.content] at hAnswers
  have hRight : ∀ h : ReadRight _ s r t₀.pa,
      Answers (latest (diskImage s₀.host.mem s₀.ramdiskStart) log) s s' r :=
    fun h => ⟨hAnswers.answer.trans h, hAnswers.same⟩
  refine ⟨s', hProcess, ⟨fun h => hAnswers.answer.symm.trans h.answer, hRight⟩, fun hHeader => ?_⟩
  exact hRight (hRequest.readRight hHeader _)

end

def withPage (m page : Mem) (frame : Nat) : Mem := fun b =>
  if frame ≤ b ∧ b < frame + 4096 then page (b - frame) else m b

theorem load_withPage (m page : Mem) (frame k n : Nat) (h : k + n ≤ 4096) :
    load (withPage m page frame) (frame + k) n = load page k n := by
  apply load_congr
  intro i hi
  rw [withPage, if_pos (by omega)]
  congr 1
  omega

theorem load_withPage_ne (m page : Mem) {frame a n : Nat} (h : a + n ≤ frame ∨ frame + 4096 ≤ a) :
    load (withPage m page frame) a n = load m a n := by
  apply load_congr
  intro j hj
  rw [withPage, if_neg (by omega)]

/-- Three descriptors, the available ring with head 0 published, and a header that asks for a write
of sector 4 from guest address 0x80000800. -/
def ringPage : Mem :=
  [(0, 8, 0x80000400), (8, 4, 16), (12, 2, 1), (14, 2, 1), (16, 8, 0x80000800), (24, 4, 1024), (28, 2, 1),
    (30, 2, 2), (32, 8, 0x80000500), (40, 4, 1), (44, 2, 2), (130, 2, 1), (0x400, 4, 1), (0x408, 8, 4)].foldl
    (fun m e => store m e.1 e.2.1 e.2.2) fun _ => 0

def smallQueue : VirtQueue := ⟨.init, 8, 0x80000000, 0x40001000, 0, 0x40001000, 0x40001080, 0x40002000⟩

def smallBackend (m : Mem) : Backend where
  host := ⟨withPage m ringPage 0x40001000, bootHypervisor.host.allocator, []⟩
  stage2Pt := 0x40000000
  ramdiskStart := 0x10000000
  guestPagesz := 4096
  queueSel := 0
  vq := smallQueue
  signals := []
  accesses := []

section
variable {m : Mem} {root disk : Nat} {node : Nat → Nat → Option Nat}

theorem withPage_space (page : Mem) (hSpace : Space m root disk node)
    (hWalk : archWalk m root 0x80000000 = some ⟨0x400014c7, 0x40001000⟩) :
    Space (withPage m page 0x40001000) root disk node ∧
    ∀ ipa, archWalk (withPage m page 0x40001000) root ipa = archWalk m root ipa := by
  apply hSpace.of_confined
  intro b hb
  rw [withPage, if_neg]
  rintro ⟨hLow, hHigh⟩
  refine hb (.inl ⟨0x80000000, _, hWalk, ?_⟩)
  dsimp only
  omega

theorem withPage_walk (page : Mem) (hSpace : Space m root disk node)
    (hWalk : archWalk m root 0x80000000 = some ⟨0x400014c7, 0x40001000⟩) (i : Nat) (hi : i < 4096) :
    archWalk (withPage m page 0x40001000) root (0x80000000 + i) = some ⟨0x400014c7, 0x40001000 + i⟩ := by
  rw [(withPage_space page hSpace hWalk).2]
  exact hSpace.walk_add hWalk (by decide) hi

/-- The first page of the guest holds the bytes of `page`. -/
def HoldsPage (m page : Mem) : Prop := ∀ k n, k + n ≤ 4096 → load m (0x40001000 + k) n = load page k n

theorem HoldsPage.descAt {page : Mem} (h : HoldsPage m page) (i : Nat) (hi : i < 8) :
    smallQueue.descAt m i = loadDesc page (16 * i) := by
  have hAddr : smallQueue.descAddr i = 0x40001000 + 16 * i := u64_of_lt (n := 0x40001000 + 16 * i) (by omega)
  rw [VirtQueue.descAt, hAddr]
  apply loadDesc_eq
  intro j n hj
  rw [Nat.add_assoc]
  exact h (16 * i + j) n (by omega)

theorem withPage_byte (m page : Mem) (k : Nat) (hk : k < 4096) :
    withPage m page 0x40001000 (0x40001000 + k) = page k := by
  rw [withPage, if_pos (by omega), Nat.add_sub_cancel_left]

theorem withPage_holdsPage (m page : Mem) : HoldsPage (withPage m page 0x40001000) page :=
  load_withPage m page 0x40001000

theorem smallQueue_desc (m page : Mem) (i : Nat) (hi : i < 8) :
    smallQueue.descAt (withPage m page 0x40001000) i = loadDesc page (16 * i) :=
  (withPage_holdsPage m page).descAt i hi

theorem smallBackend_chain : ThreeChain smallQueue (withPage m ringPage 0x40001000) 0 1 2 := by
  refine ⟨?_, ?_, ?_⟩
  · rw [VirtQueue.successor, smallQueue_desc m ringPage 0 (by decide)]
    decide
  · rw [VirtQueue.successor, smallQueue_desc m ringPage 1 (by decide)]
    decide
  · rw [VirtQueue.successor, smallQueue_desc m ringPage 2 (by decide)]
    decide

end

/-- The chain 0, 1, 2 with its header at `addr`, the buffer at guest address 0x80000800 and the status byte at
0x80000500. -/
structure SmallChain (page : Mem) (addr : Nat) : Prop where
  header : loadDesc page 0 = ⟨addr, 16, 1, 1⟩
  buffer : loadDesc page 16 = ⟨0x80000800, 1024, 1, 2⟩
  status : loadDesc page 32 = ⟨0x80000500, 1, 2, 0⟩

section
variable {s : Backend} {page : Mem} {node : Nat → Nat → Option Nat} {addr : Nat}

theorem SmallChain.shaped (h : SmallChain page addr) (hVq : s.vq = smallQueue) (hHolds : HoldsPage s.host.mem page)
    (hSpace : Space s.host.mem s.stage2Pt s.ramdiskStart node)
    (hWalk : archWalk s.host.mem s.stage2Pt 0x80000000 = some ⟨0x400014c7, 0x40001000⟩) {t₀ : Translation}
    (hHeader : archWalk s.host.mem s.stage2Pt addr = some t₀) (write : Bool) :
    Shaped s 0 1 2 t₀ ⟨0x400014c7, 0x40001500⟩ ⟨write, 4, 0x40001800, 0x40001500⟩ := by
  have hDesc₀ := (hHolds.descAt 0 (by decide)).trans h.header
  have hDesc₁ := (hHolds.descAt 1 (by decide)).trans h.buffer
  have hDesc₂ := (hHolds.descAt 2 (by decide)).trans h.status
  refine ⟨?_, ⟨?_, ?_, ?_⟩, ?_, ?_, ?_, rfl, ?_⟩
  · rw [hVq]
    decide
  · rw [hVq, VirtQueue.successor, hDesc₀]
    exact if_pos ⟨show (1 &&& 1 != 0) = true by decide, show 1 < 8 % 2 ^ 16 by decide⟩
  · rw [hVq, VirtQueue.successor, hDesc₁]
    rfl
  · rw [hVq, VirtQueue.successor, hDesc₂]
    rfl
  · rw [hVq, hDesc₀]
    exact hHeader
  · rw [hVq, hDesc₁]
    exact hSpace.liesAt hWalk (by decide) 0x800 blockSize (by decide)
  · rw [hVq, hDesc₂]
    exact hSpace.walk_add hWalk (by decide) (i := 0x500) (by decide)
  · change ¬(0x40001800 ≤ 0x40001500 ∧ _)
    omega

end

def Backend.prepare (s : Backend) (page : Mem) : Backend :=
  { s.setMem (withPage s.host.mem page 0x40001000) with vq := smallQueue }

section
variable {s s₀ : Backend} {page : Mem} {node : Nat → Nat → Option Nat} {log : List (Request × Block)}

theorem Session.prepare (h : Session s₀ log s)
    (hWalk : archWalk s.host.mem s.stage2Pt 0x80000000 = some ⟨0x400014c7, 0x40001000⟩) (page : Mem) :
    Session s₀ log (s.prepare page) := by
  refine .between h rfl rfl fun b hb => ?_
  change withPage s.host.mem page 0x40001000 b = s.host.mem b
  rw [withPage, if_neg]
  rintro ⟨hLow, hHigh⟩
  refine hb ⟨0x80000000, _, hWalk, ?_⟩
  dsimp only
  omega

theorem SmallChain.prepare (h : SmallChain page 0x80000400) (hSpace : Space s.host.mem s.stage2Pt s.ramdiskStart node)
    (hWalk : archWalk s.host.mem s.stage2Pt 0x80000000 = some ⟨0x400014c7, 0x40001000⟩) (write : Bool)
    (hType : load page 0x400 4 = if write then virtioBlkTOut else virtioBlkTIn) (hSector : load page 0x408 8 = 4) :
    WellFormed (s.prepare page) 0 1 2 ⟨0x400014c7, 0x40001400⟩ ⟨0x400014c7, 0x40001500⟩
      ⟨write, 4, 0x40001800, 0x40001500⟩ ∧
    LiesAt (s.prepare page).host.mem (s.prepare page).stage2Pt
      ((s.prepare page).vq.descAt (s.prepare page).host.mem 0).addr 16 0x40001400 := by
  obtain ⟨hSpace', hWalks⟩ := withPage_space page hSpace hWalk
  have hWalk' := (hWalks 0x80000000).trans hWalk
  have hHolds : HoldsPage (s.prepare page).host.mem page := withPage_holdsPage s.host.mem page
  have hShaped := h.shaped (s := s.prepare page) rfl hHolds hSpace' hWalk'
    (hSpace'.walk_add hWalk' (by decide) (i := 0x400) (by decide)) write
  have hAddr : ((s.prepare page).vq.descAt (s.prepare page).host.mem 0).addr = 0x80000400 :=
    congrArg VirtqDesc.addr ((hHolds.descAt 0 (by decide)).trans h.header)
  have hLies : LiesAt (s.prepare page).host.mem (s.prepare page).stage2Pt 0x80000400 16 0x40001400 :=
    hSpace'.liesAt hWalk' (by decide) 0x400 16 (by decide)
  rw [hAddr]
  refine ⟨⟨hShaped, ?_, ?_, show 4 % 2 = 0 by decide⟩, hLies⟩
  · rw [hAddr, (hLies.mono 0 4 (by decide)).guestLoad]
    exact congrArg some ((hHolds 0x400 4 (by decide)).trans hType)
  · rw [hAddr, (hLies.mono 8 8 (by decide)).guestLoad]
    exact congrArg some ((hHolds 0x408 8 (by decide)).trans hSector)

end

def outPage : Mem := store ringPage 0x800 1 0x5a

def inPage : Mem := store ringPage 0x400 4 virtioBlkTIn

theorem outPage_chain : SmallChain outPage 0x80000400 := ⟨by decide, by decide, by decide⟩

theorem inPage_chain : SmallChain inPage 0x80000400 := ⟨by decide, by decide, by decide⟩

/-- The small VM writes block 2, clears its buffer and reads the block back. -/
theorem blockDevice_semantics_written :
    ∃ m s₁ s₂, virtioBlkProcessDesc ((smallBackend m).prepare outPage) 0 = .ok (3, s₁) ∧
    (s₁.prepare inPage).host.mem 0x40001800 = 0 ∧ virtioBlkProcessDesc (s₁.prepare inPage) 0 = .ok (3, s₂) ∧
    s₂.host.mem 0x40001800 = 0x5a ∧ s₂.host.mem 0x40001500 = 0 := by
  obtain ⟨s, node, _, hSpace, hWalk, _⟩ := smallSpace
  obtain ⟨hSpace₀, hWalks₀⟩ := withPage_space ringPage hSpace hWalk
  have hStart : Session (smallBackend s.host.mem) [] (smallBackend s.host.mem) := .start
  have hWalk₀ : archWalk (smallBackend s.host.mem).host.mem 0x40000000 0x80000000 = some
      ⟨0x400014c7, 0x40001000⟩ :=
    (hWalks₀ _).trans hWalk
  -- the write
  obtain ⟨hOut, hOutLies⟩ := outPage_chain.prepare (s := smallBackend s.host.mem) hSpace₀ hWalk₀ true
    (by decide) (by decide)
  have hFilled := hStart.prepare hWalk₀ outPage
  have hOutRead := hOut.readRight hOutLies (diskImage ((smallBackend s.host.mem).prepare outPage).host.mem 0x10000000)
  obtain ⟨s₁, hWritten, _⟩ := (hFilled.holds hSpace₀).request hOut.toShaped hOutRead
  have hLogged := Session.request hFilled hOut hOutRead hWritten
  -- the read
  have hHolds₁ := hLogged.holds hSpace₀
  have hWalk₁ := (hHolds₁.walks 0x80000000).trans hWalk₀
  obtain ⟨hIn, hInLies⟩ := inPage_chain.prepare hHolds₁.space hWalk₁ false (by decide) (by decide)
  obtain ⟨s₂, hRead, _, hAnswers⟩ := blockDevice_semantics_iff hSpace₀ (hLogged.prepare hWalk₁ inPage) hIn
  have hAnswer := (hAnswers hInLies).answer
  rw [respond_read (by decide) rfl] at hAnswer
  obtain ⟨hBuffer, hStatus⟩ := Prod.ext_iff.mp (Prod.ext_iff.mp hAnswer).2
  refine ⟨s.host.mem, s₁, s₂, hWritten, ?_, hRead, ?_, hStatus⟩
  · exact (withPage_byte s₁.host.mem inPage 0x800 (by decide)).trans (by decide)
  · have hLatest : ∀ d data, latest d [(⟨true, 4, 0x40001800, 0x40001500⟩, data)] ⟨2, by decide⟩ = data :=
      fun _ _ => by simp [latest]
    have hByte := congrFun (hBuffer.trans (hLatest _ _)) ⟨0, by decide⟩
    have hFirst := withPage_byte (smallBackend s.host.mem).host.mem outPage 0x800 (by decide)
    exact hByte.trans (hFirst.trans (by decide))

/-- A header at 0x80000ff8: its type ends the first page, and its sector is in the second one. -/
def headerPage : Mem := store (store ringPage 0 8 0x80000ff8) 0xff8 4 virtioBlkTOut

def headerMem (m : Mem) : Mem :=
  withPage (withPage m headerPage 0x40001000) (store (fun _ => 0) 0 8 4) 0x40005000

theorem headerPage_chain : SmallChain headerPage 0x80000ff8 := ⟨by decide, by decide, by decide⟩

section
variable {m : Mem} {node : Nat → Nat → Option Nat}

theorem ThreePages.headerMem (h : ThreePages m node) : ThreePages (headerMem m) node := by
  apply h.of_same
  intro b hb
  rw [Virtio.headerMem, withPage, if_neg (by omega), withPage, if_neg (by omega)]

theorem headerMem_holdsPage (m : Mem) : HoldsPage (headerMem m) headerPage := by
  intro k n hk
  rw [headerMem, load_withPage_ne _ _ (by omega)]
  exact load_withPage m headerPage 0x40001000 k n hk

theorem headerMem_sector (m : Mem) : load (headerMem m) 0x40005000 8 = 4 := by
  rw [headerMem]
  exact (load_withPage _ _ 0x40005000 0 8 (by decide)).trans (by decide)

theorem headerMem_request (h : ThreePages m node) :
    WellFormed ((smallBackend m).setMem (headerMem m)) 0 1 2 ⟨0x400014c7, 0x40001ff8⟩ ⟨0x400014c7, 0x40001500⟩
      ⟨true, 4, 0x40001800, 0x40001500⟩ := by
  have hPages := h.headerMem
  have hHolds := headerMem_holdsPage m
  have hAddr : (smallQueue.descAt (headerMem m) 0).addr = 0x80000ff8 :=
    congrArg VirtqDesc.addr ((hHolds.descAt 0 (by decide)).trans headerPage_chain.header)
  have hType : LiesAt (headerMem m) 0x40000000 0x80000ff8 4 0x40001ff8 :=
    hPages.space.liesAt hPages.data (by decide) 0xff8 4 (by decide)
  have hSector : LiesAt (headerMem m) 0x40000000 0x80001000 8 0x40005000 :=
    hPages.space.liesAt hPages.ring (by decide) 0 8 (by decide)
  have hHeader : archWalk (headerMem m) 0x40000000 0x80000ff8 = some ⟨0x400014c7, 0x40001ff8⟩ :=
    hPages.space.walk_add hPages.data (by decide) (i := 0xff8) (by decide)
  have hShaped := headerPage_chain.shaped (s := (smallBackend m).setMem (headerMem m)) rfl hHolds hPages.space
    hPages.data hHeader true
  have hTypeLoad : load (headerMem m) 0x40001ff8 4 = virtioBlkTOut := (hHolds 0xff8 4 (by decide)).trans (by decide)
  refine ⟨hShaped, ?_, ?_, show 4 % 2 = 0 by decide⟩
  · change guestLoad (headerMem m) 0x40000000 (smallQueue.descAt (headerMem m) 0).addr 4 = some virtioBlkTOut
    rw [hAddr, hType.guestLoad, hTypeLoad]
  · change guestLoad (headerMem m) 0x40000000 ((smallQueue.descAt (headerMem m) 0).addr + 8) 8 = some 4
    rw [hAddr, hSector.guestLoad, headerMem_sector]

end

/-- The guest asks to write block 2. The backend takes the sector from host address 0x40002000, where a table of the
VM is, gives status 0xee and leaves the disk as it is. -/
theorem header_misread : ∃ m node s', Space (headerMem m) 0x40000000 0x10000000 node ∧
    WellFormed ((smallBackend m).setMem (headerMem m)) 0 1 2 ⟨0x400014c7, 0x40001ff8⟩ ⟨0x400014c7, 0x40001500⟩
      ⟨true, 4, 0x40001800, 0x40001500⟩ ∧
    virtioBlkProcessDesc ((smallBackend m).setMem (headerMem m)) 0 = .ok (3, s') ∧ s'.host.mem 0x40001500 = 0xee ∧
    diskImage s'.host.mem 0x10000000 = diskImage (headerMem m) 0x10000000 ∧
    ¬Answers (diskImage (headerMem m) 0x10000000) ((smallBackend m).setMem (headerMem m)) s'
      ⟨true, 4, 0x40001800, 0x40001500⟩ := by
  obtain ⟨m, node, h, hTable⟩ := threePages_exists
  have hRequest := headerMem_request h
  have hSpace := h.headerMem.space
  obtain ⟨s', hProcess, _, _, hAnswers⟩ := hRequest.process hSpace
  have hSector : load (headerMem m) 0x40002000 8 = 0x40007003 := by
    rw [headerMem, load_withPage_ne _ _ (by omega), load_withPage_ne _ _ (by omega), hTable]
  have hAnswer := hAnswers.answer
  rw [respond_ge (by change _ ≤ load (headerMem m) 0x40002000 8 / 2; rw [hSector]; decide)] at hAnswer
  obtain ⟨hDisk, hRest⟩ := Prod.ext_iff.mp hAnswer
  have hStatus : s'.host.mem 0x40001500 = 0xee := (Prod.ext_iff.mp hRest).2
  refine ⟨m, node, s', hSpace, hRequest, hProcess, hStatus, hDisk, fun hRight => ?_⟩
  have hZero := hRight.answer
  rw [respond_write (by decide) rfl] at hZero
  have hGood : s'.host.mem 0x40001500 = 0 := (Prod.ext_iff.mp (Prod.ext_iff.mp hZero).2).2
  rw [hStatus] at hGood
  revert hGood
  decide

end HyperPoc.Virtio
