import HyperPoc.Mmu
import HyperPoc.Spinlock

/-! # The virtio block backend

The split virtqueue lies in guest memory and the backend follows host pointers into it. Field
offsets are those of `virtq_desc`, `virtq_avail`, `virtq_used` and `virtio_blk_req`. Every host byte
range the backend reads or writes outside its own variables is recorded in a history that no code
reads.
-/
namespace HyperPoc.Virtio
open Library.Memory
set_option autoImplicit false

structure Access where
  write : Bool
  addr : Nat
  size : Nat
  deriving DecidableEq

structure VirtqDesc where
  addr : Nat
  len : Nat
  flags : Nat
  next : Nat
  deriving DecidableEq

structure VirtQueue where
  virtqLock : Spinlock
  vringNum : Nat
  vringIpa : Nat
  vringPa : Nat
  availIdx : Nat
  desc : Nat
  avail : Nat
  used : Nat

/-- The static variables of the backend, the table of the VM whose vcpu is running, and the calls
of `gic_set_pending_irq`, latest first. -/
structure Backend where
  host : Host
  stage2Pt : Nat
  ramdiskStart : Nat
  guestPagesz : Nat
  queueSel : Nat
  vq : VirtQueue
  signals : List Nat
  accesses : List Access

def fsimgSize : Nat := 1000
def blockSize : Nat := 1024
def virtio0Irq : Nat := 48
def vringDescFNext : Nat := 1
def virtioBlkTIn : Nat := 0
def virtioBlkTOut : Nat := 1

def Backend.record (s : Backend) (write : Bool) (a n : Nat) : Backend :=
  { s with accesses := ⟨write, a, n⟩ :: s.accesses }

def Backend.fetch (s : Backend) (a n : Nat) : Nat × Backend :=
  (load s.host.mem a n, s.record false a n)

def Backend.setMem (s : Backend) (m : Mem) : Backend := { s with host := { s.host with mem := m } }

def Backend.put (s : Backend) (a n v : Nat) : Backend :=
  (s.record true a n).setMem (store s.host.mem a n v)

def virtioGuestToHost (s : Backend) (ipa : Nat) : Outcome Nat := ipa2pa s.host s.stage2Pt ipa

def vqRingInit (s : Backend) (ipa : Nat) : Outcome Backend := do
  let vringPa ← virtioGuestToHost s ipa
  return { s with vq := { s.vq with
    virtqLock := .init
    vringIpa := ipa
    vringPa := vringPa
    avail := u64 (vringPa + s.vq.vringNum * 16)
    desc := vringPa
    used := u64 (vringPa + pageSize) } }

def virtioSignalVq (s : Backend) : Backend := { s with signals := virtio0Irq :: s.signals }

def VirtQueue.descAddr (q : VirtQueue) (i : Nat) : Nat := u64 (q.desc + 16 * i)
def VirtQueue.availIdxAddr (q : VirtQueue) : Nat := u64 (q.avail + 2)
def VirtQueue.usedIdxAddr (q : VirtQueue) : Nat := u64 (q.used + 2)

/-- `&avail->ring[i % vring_num]`. The AArch64 remainder by zero is the dividend, as that of `Nat`. -/
def VirtQueue.availAddr (q : VirtQueue) (i : Nat) : Nat := u64 (q.avail + 4 + 2 * (i % q.vringNum))

def VirtQueue.usedAddr (q : VirtQueue) (i : Nat) : Nat := u64 (q.used + 4 + 8 * (i % q.vringNum))

def setUsedId (s : Backend) (descIdx : Nat) : Backend :=
  let (idx, s) := s.fetch s.vq.usedIdxAddr 2
  s.put (s.vq.usedAddr idx) 4 descIdx

def setUsedLen (s : Backend) (len : Nat) : Backend :=
  let (idx, s) := s.fetch s.vq.usedIdxAddr 2
  s.put (u64 (s.vq.usedAddr idx + 4)) 4 len

def bumpUsedIdx (s : Backend) : Backend :=
  let (idx, s) := s.fetch s.vq.usedIdxAddr 2
  s.put s.vq.usedIdxAddr 2 ((idx + 1) % 2 ^ 16)

def vqueueSetUsedElem (s : Backend) (descIdx len : Nat) : Backend :=
  bumpUsedIdx (setUsedLen (setUsedId s descIdx) len)

def virtqAvailable (s : Backend) : Bool × Backend :=
  let (idx, s) := s.fetch s.vq.availIdxAddr 2
  (s.vq.availIdx != idx, s)

def loadDesc (m : Mem) (a : Nat) : VirtqDesc :=
  ⟨load m a 8, load m (a + 8) 4, load m (a + 12) 2, load m (a + 14) 2⟩

def Backend.fetchDesc (s : Backend) (i : Nat) : VirtqDesc × Backend :=
  (loadDesc s.host.mem (s.vq.descAddr i), s.record false (s.vq.descAddr i) 16)

def virtDescTestFlag (d : VirtqDesc) (flags : Nat) : Bool := d.flags &&& flags != 0

def nextDesc (s : Backend) (i max : Nat) : Nat × Backend :=
  let (d, s) := s.fetchDesc i
  if virtDescTestFlag d vringDescFNext then (if d.next < max then d.next else max, s) else (max, s)

/-- The loop that copies a chain into the local array of `vring_num` elements. A chain of more than
`2 ^ 16` descriptors visits one of them twice and never ends. -/
def chainLoop (max : Nat) : Nat → Backend → Nat → (Nat → VirtqDesc) → Nat →
    Outcome ((Nat → VirtqDesc) × Nat × Backend)
  | 0, _, _, _, _ => .error .diverges
  | n + 1, s, idx, desc, descLen =>
    if s.vq.vringNum ≤ descLen then .error .outOfBounds
    else
      let (d, s) := s.fetchDesc idx
      let desc := Function.update desc descLen d
      let descLen := (descLen + 1) % 2 ^ 16
      let (idx, s) := nextDesc s idx max
      if idx = max then .ok (desc, descLen, s) else chainLoop max n s idx desc descLen

/-- The Boolean is false where the source returns -1. -/
def ramdiskRw (s : Backend) (blkNum bufAddr : Nat) (isWrite : Bool) : Bool × Backend :=
  if fsimgSize ≤ blkNum then (false, s)
  else
    let diskAddr := u64 (s.ramdiskStart + blkNum * blockSize)
    let (dst, src) := if isWrite then (diskAddr, bufAddr) else (bufAddr, diskAddr)
    (true, ((s.record false src blockSize).record true dst blockSize).setMem
      (memmove s.host.mem dst src blockSize))

/-- The part of `virtio_blk_process_desc` that follows the check of the chain length. -/
def processBlkReq (s : Backend) (blkReq buffer reqStatus : VirtqDesc) : Outcome Backend := do
  let req ← virtioGuestToHost s blkReq.addr
  let (sector, s) := s.fetch (u64 (req + 8)) 8
  let blkNum := sector / (blockSize / 512)
  let (type, s) := s.fetch req 4
  let bufAddr ← virtioGuestToHost s buffer.addr
  let (done, s) := ramdiskRw s blkNum bufAddr (type == virtioBlkTOut)
  let statusPa ← virtioGuestToHost s reqStatus.addr
  return s.put statusPa 1 (if done then 0 else 0xee)

def virtioBlkProcessDesc (s : Backend) (descIdx : Nat) : Outcome (Nat × Backend) := do
  let max := s.vq.vringNum % 2 ^ 16
  let (desc, descLen, s) ← chainLoop max (2 ^ 16) s descIdx (fun _ => ⟨0, 0, 0, 0⟩) 0
  if descLen ≠ 3 then return (descLen, s)
  else
    let s ← processBlkReq s (desc 0) (desc 1) (desc 2)
    return (descLen, s)

/-- The arguments of the log line at the head of `virtio_blk_req_handler`. -/
def reqEntry (s : Backend) : Backend := (s.fetch s.vq.availIdxAddr 2).2

def Backend.setLock (s : Backend) (l : Spinlock) : Backend := { s with vq := { s.vq with virtqLock := l } }

def nextHead (s : Backend) : Nat × Backend := s.fetch (s.vq.availAddr s.vq.availIdx) 2

def bumpAvailIdx (s : Backend) : Backend :=
  { s with vq := { s.vq with availIdx := (s.vq.availIdx + 1) % 2 ^ 16 } }

def reqRound (s : Backend) : Outcome Backend := do
  let (descIdx, s) := nextHead s
  let (descLen, s) ← virtioBlkProcessDesc s descIdx
  return bumpAvailIdx (vqueueSetUsedElem s descIdx descLen)

def reqLoop : Nat → Backend → Outcome Backend
  | 0, _ => .error .diverges
  | n + 1, s =>
    let (more, s) := virtqAvailable s
    if more then do
      let s ← reqRound s
      reqLoop n s
    else .ok s

/-- The handler on a cpu that has the queue for itself, for fewer than `n` rounds. -/
def virtioBlkReqHandler (n : Nat) (s : Backend) : Outcome Backend := do
  let s := reqEntry s
  let l ← s.vq.virtqLock.lock
  let s ← reqLoop n (s.setLock l)
  return virtioSignalVq (s.setLock s.vq.virtqLock.unlock)

/-- The value at `val` is left as it is by the registers that store nothing. -/
def virtioMmioRead (offset val : Nat) : Outcome Nat :=
  match offset with
  | 0x00 => .ok 0x74726976
  | 0x04 => .ok 1
  | 0x08 => .ok 2
  | 0x0c => .ok 0x554d4551
  | 0x10 => .ok 0
  | 0x34 => .ok 64
  | 0x40 | 0x44 | 0x60 | 0x70 => .ok val
  | _ => .error (.panic
      "[virtio_mmio_read] Invalid/Unsupported offset(%p), ipa=%p, vm=%s, vcpuid=%d, vm's pc=%p\n")

def virtioMmioWrite (n : Nat) (s : Backend) (offset val : Nat) : Outcome Backend :=
  match offset with
  | 0x20 => .ok s
  | 0x28 =>
    if val ≠ pageSize then .error (.panic "[virtio_mmio_write]: invalid page size(%p)\n")
    else .ok { s with guestPagesz := val }
  | 0x30 => .ok { s with queueSel := val }
  | 0x38 => .ok { s with vq := { s.vq with vringNum := val } }
  | 0x3c => .ok s
  | 0x40 => vqRingInit s (u64 (val <<< 12))
  | 0x44 => .ok s
  | 0x50 => virtioBlkReqHandler n s
  | 0x64 => .ok s
  | 0x70 => .ok s
  | _ => .error (.panic
      "[virtio_mmio_write]: Invalid/Unsupported offset(%p), ipa=%p, vm=%s, vcpuid=%d, vm's pc=%p\n")

end HyperPoc.Virtio
