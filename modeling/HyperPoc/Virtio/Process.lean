import HyperPoc.Virtio.Chain
import HyperPoc.Virtio.Space

/-! # One request

What `virtio_blk_process_desc` does once the chain is known. The status byte is translated after the
block has been moved; the translation is still that of the start because the move stays inside the
guest's frames and the image.
-/
namespace HyperPoc.Virtio
open Library.Memory Library.Run Stage2
set_option autoImplicit false

section
variable {s s' : Backend} {head second third len : Nat}

theorem ThreeChain.process_eq (h : ThreeChain s.vq s.host.mem head second third) (hNum : 3 ≤ s.vq.vringNum) :
    virtioBlkProcessDesc s head = do
      let s' ← processBlkReq (s.after (visit s.vq third ++ (visit s.vq second ++ visit s.vq head)))
        (s.vq.descAt s.host.mem head) (s.vq.descAt s.host.mem second) (s.vq.descAt s.host.mem third)
      return (3, s') := by
  unfold virtioBlkProcessDesc
  dsimp only
  rw [h.chainLoop_eq hNum (by decide)]
  rfl

end

theorem Confined.lt {m : Mem} {root disk b : Nat} {node : Nat → Nat → Option Nat} (h : Space m root disk node)
    (hb : Confined m root disk b) : b + 1 < 2 ^ 64 := by
  obtain ⟨ipa, t, hWalk, hFrame⟩ | ⟨_, hHigh⟩ := hb
  · have hLt := h.walk_lt hWalk
    omega
  · have hBound := h.bound
    omega

theorem block_le {blk : Nat} (hBlk : blk < fsimgSize) :
    blk * blockSize + blockSize ≤ fsimgSize * blockSize := by
  rw [← Nat.succ_mul]
  exact Nat.mul_le_mul_right blockSize hBlk

theorem Space.diskAddr {m : Mem} {root disk : Nat} {node : Nat → Nat → Option Nat} (h : Space m root disk node)
    {blk : Nat} (hBlk : blk < fsimgSize) : u64 (disk + blk * blockSize) = disk + blk * blockSize := by
  have hBound := h.bound
  have hBlock := block_le hBlk
  exact u64_of_lt (by omega)

section
variable {s : Backend} {node : Nat → Nat → Option Nat} {blk buf : Nat} {isWrite : Bool}

theorem ramdiskRw_ge (hBlk : fsimgSize ≤ blk) : ramdiskRw s blk buf isWrite = (false, s) := if_pos hBlk

theorem ramdiskRw_write (hBlk : blk < fsimgSize) : ramdiskRw s blk buf true =
    (true, ((s.record false buf blockSize).record true (u64 (s.ramdiskStart + blk * blockSize)) blockSize).setMem
      (memmove s.host.mem (u64 (s.ramdiskStart + blk * blockSize)) buf blockSize)) := if_neg (by omega)

theorem ramdiskRw_read (hBlk : blk < fsimgSize) : ramdiskRw s blk buf false =
    (true, ((s.record false (u64 (s.ramdiskStart + blk * blockSize)) blockSize).record true buf blockSize).setMem
      (memmove s.host.mem buf (u64 (s.ramdiskStart + blk * blockSize)) blockSize)) := if_neg (by omega)

/-- Writing to the disk leaves all other bytes alone, wherever the buffer is. -/
theorem ramdiskRw_write_same (hSpace : Space s.host.mem s.stage2Pt s.ramdiskStart node) (b : Nat)
    (hb : ¬Confined s.host.mem s.stage2Pt s.ramdiskStart b) :
    (ramdiskRw s blk buf true).2.host.mem b = s.host.mem b := by
  obtain hBlk | hGe := Nat.lt_or_ge blk fsimgSize
  · have hBound := hSpace.bound
    have hBlock := block_le hBlk
    rw [ramdiskRw_write hBlk, hSpace.diskAddr hBlk]
    apply memcpy_sameOutside s.host.mem (s.ramdiskStart + blk * blockSize) buf blockSize
    · omega
    · by_contra hIn
      exact hb (.inr ⟨by omega, by omega⟩)
  · rw [ramdiskRw_ge hGe]

theorem ramdiskRw_same (hSpace : Space s.host.mem s.stage2Pt s.ramdiskStart node)
    (hBuf : blk < fsimgSize → ∀ i, i < blockSize → Confined s.host.mem s.stage2Pt s.ramdiskStart (buf + i))
    (b : Nat) (hb : ¬Confined s.host.mem s.stage2Pt s.ramdiskStart b) :
    (ramdiskRw s blk buf isWrite).2.host.mem b = s.host.mem b := by
  cases isWrite with
  | true => exact ramdiskRw_write_same hSpace b hb
  | false =>
    obtain hBlk | hGe := Nat.lt_or_ge blk fsimgSize
    · have hLast := (hBuf hBlk (blockSize - 1) (by decide)).lt hSpace
      rw [ramdiskRw_read hBlk]
      apply memcpy_sameOutside s.host.mem buf _ blockSize
      · rw [blockSize] at *
        omega
      · by_contra hIn
        apply hb
        have hConfined := hBuf hBlk (b - buf) (by omega)
        rwa [Nat.add_sub_cancel' (by omega)] at hConfined
    · rw [ramdiskRw_ge hGe]

end

/-- The transfer a request header at host address `req` asks for, with the buffer at `buf`. -/
def transfer (s : Backend) (req buf : Nat) : Bool × Backend :=
  ramdiskRw ((s.record false (req + 8) 8).record false req 4) (load s.host.mem (req + 8) 8 / 2) buf
    (load s.host.mem req 4 == virtioBlkTOut)

section
variable {s : Backend} {node : Nat → Nat → Option Nat} {d₀ d₁ d₂ : VirtqDesc} {t₀ t₂ : Translation}
  {buf : Nat}

theorem transfer_fixed (s : Backend) (req buf : Nat) : (transfer s req buf).2.stage2Pt = s.stage2Pt ∧
    (transfer s req buf).2.ramdiskStart = s.ramdiskStart := by
  rw [transfer]
  obtain hBlk | hGe := Nat.lt_or_ge (load s.host.mem (req + 8) 8 / 2) fsimgSize
  · cases load s.host.mem req 4 == virtioBlkTOut with
    | true =>
      rw [ramdiskRw_write hBlk]
      exact ⟨rfl, rfl⟩
    | false =>
      rw [ramdiskRw_read hBlk]
      exact ⟨rfl, rfl⟩
  · rw [ramdiskRw_ge hGe]
    exact ⟨rfl, rfl⟩

/-- The status byte goes to the address its descriptor has once the block has been moved. -/
theorem processBlkReq_status (hSpace : Space s.host.mem s.stage2Pt s.ramdiskStart node)
    (hReq : archWalk s.host.mem s.stage2Pt d₀.addr = some t₀) (hBufAddr : virtioGuestToHost s d₁.addr = .ok buf)
    {a : Nat} (hStatus : virtioGuestToHost (transfer s t₀.pa buf).2 d₂.addr = .ok a) :
    processBlkReq s d₀ d₁ d₂ = .ok
      ((transfer s t₀.pa buf).2.put a 1 (if (transfer s t₀.pa buf).1 then 0 else 0xee)) := by
  have hLt := hSpace.walk_lt hReq
  unfold processBlkReq
  rw [hSpace.guestToHost hReq]
  change (do
    let bufAddr ← virtioGuestToHost s d₁.addr
    let s := ramdiskRw ((s.record false (u64 (t₀.pa + 8)) 8).record false t₀.pa 4)
      (load s.host.mem (u64 (t₀.pa + 8)) 8 / 2) bufAddr (load s.host.mem t₀.pa 4 == virtioBlkTOut)
    let statusPa ← virtioGuestToHost s.2 d₂.addr
    return s.2.put statusPa 1 (if s.1 then 0 else 0xee)) = _
  rw [hBufAddr, u64_of_lt (by omega)]
  change (do
    let statusPa ← virtioGuestToHost (transfer s t₀.pa buf).2 d₂.addr
    return (transfer s t₀.pa buf).2.put statusPa 1 (if (transfer s t₀.pa buf).1 then 0 else 0xee)) = _
  rw [hStatus]
  rfl

theorem processBlkReq_eq (hSpace : Space s.host.mem s.stage2Pt s.ramdiskStart node)
    (hReq : archWalk s.host.mem s.stage2Pt d₀.addr = some t₀) (hBufAddr : virtioGuestToHost s d₁.addr = .ok buf)
    (hStatus : archWalk s.host.mem s.stage2Pt d₂.addr = some t₂)
    (hSame : ∀ b, ¬Confined s.host.mem s.stage2Pt s.ramdiskStart b →
      (transfer s t₀.pa buf).2.host.mem b = s.host.mem b) :
    processBlkReq s d₀ d₁ d₂ = .ok ((transfer s t₀.pa buf).2.put t₂.pa 1
      (if (transfer s t₀.pa buf).1 then 0 else 0xee)) := by
  obtain ⟨hSpace', hWalk⟩ := hSpace.of_confined hSame
  obtain ⟨hRoot, hDisk⟩ := transfer_fixed s t₀.pa buf
  apply processBlkReq_status hSpace hReq hBufAddr
  rw [← hRoot, ← hDisk] at hSpace'
  apply hSpace'.guestToHost
  rw [hRoot, hWalk]
  exact hStatus

end

/-- From `s` to `s'` the queue stays as it is and every byte written is on record. -/
structure Logged (s s' : Backend) : Prop where
  vq : s'.vq = s.vq
  signals : s'.signals = s.signals
  disk : s'.ramdiskStart = s.ramdiskStart
  writes : ∃ l, s'.accesses = l ++ s.accesses ∧ ∀ b,
    (∀ a ∈ l, a.write = true → b < a.addr ∨ a.addr + a.size ≤ b) → s'.host.mem b = s.host.mem b

section
variable {s s₁ s₂ : Backend}

theorem Logged.trans (h : Logged s s₁) (h' : Logged s₁ s₂) : Logged s s₂ := by
  obtain ⟨l, hl, hSame⟩ := h.writes
  obtain ⟨l', hl', hSame'⟩ := h'.writes
  refine ⟨h'.vq.trans h.vq, h'.signals.trans h.signals, h'.disk.trans h.disk, l' ++ l, ?_, ?_⟩
  · rw [hl', hl, List.append_assoc]
  · intro b hb
    rw [hSame' b fun a ha => hb a (List.mem_append_left _ ha), hSame b fun a ha => hb a (List.mem_append_right _ ha)]

theorem logged_after (s : Backend) (l : List Access) : Logged s (s.after l) :=
  ⟨rfl, rfl, rfl, l, rfl, fun _ _ => rfl⟩

theorem logged_put (s : Backend) (a n v : Nat) : Logged s (s.put a n v) := by
  refine ⟨rfl, rfl, rfl, [_], rfl, ?_⟩
  intro b hb
  exact store_sameOutside s.host.mem a n v b (hb _ List.mem_cons_self rfl)

theorem ipa2pa_lt {h : Host} {pgt ipa pa : Nat} (hPa : ipa2pa h pgt ipa = .ok pa) : pa < 2 ^ 49 := by
  rw [ipa2pa] at hPa
  split at hPa
  · cases hPa
    decide
  · obtain ⟨⟨h', pte⟩, _, hRest⟩ := bind_eq_ok.mp hPa
    dsimp only at hRest
    split at hRest
    · cases hRest
      decide
    · cases hRest
      have hLt := outputAddress_lt (load h'.mem pte 8)
      have hMask : ipa &&& (pageSize - 1) = ipa % 4096 := Nat.and_two_pow_sub_one_eq_mod ipa 12
      rw [hMask, ptePa_eq, u64_of_lt (by omega)]
      omega

theorem logged_ramdiskRw {blk buf : Nat} {isWrite : Bool} (hDisk : s.ramdiskStart + fsimgSize * blockSize < 2 ^ 64)
    (hBuf : buf < 2 ^ 49) : Logged s (ramdiskRw s blk buf isWrite).2 := by
  obtain hBlk | hGe := Nat.lt_or_ge blk fsimgSize
  · have hBlock := block_le hBlk
    have hSize : blockSize = 1024 := rfl
    cases isWrite with
    | true =>
      rw [ramdiskRw_write hBlk, u64_of_lt (by omega)]
      refine ⟨rfl, rfl, rfl, [_, _], rfl, ?_⟩
      intro b hb
      exact memcpy_sameOutside s.host.mem _ buf blockSize (by omega) b (hb _ List.mem_cons_self rfl)
    | false =>
      rw [ramdiskRw_read hBlk]
      refine ⟨rfl, rfl, rfl, [_, _], rfl, ?_⟩
      intro b hb
      exact memcpy_sameOutside s.host.mem buf _ blockSize (by omega) b (hb _ List.mem_cons_self rfl)
  · rw [ramdiskRw_ge hGe]
    exact logged_after s []

theorem logged_processBlkReq {d₀ d₁ d₂ : VirtqDesc} (hDisk : s.ramdiskStart + fsimgSize * blockSize < 2 ^ 64)
    (h : processBlkReq s d₀ d₁ d₂ = .ok s₁) : Logged s s₁ := by
  obtain ⟨req, _, h⟩ := bind_eq_ok.mp h
  obtain ⟨buf, hBuf, h⟩ := bind_eq_ok.mp h
  obtain ⟨status, _, h⟩ := bind_eq_ok.mp h
  cases h
  have hHeader : Logged s ((s.record false (u64 (req + 8)) 8).record false req 4) :=
    logged_after s [⟨false, req, 4⟩, ⟨false, u64 (req + 8), 8⟩]
  exact (hHeader.trans (logged_ramdiskRw hDisk (ipa2pa_lt hBuf))).trans (logged_put _ _ _ _)

/-- Processing a head changes nothing but what it records as written. -/
theorem logged_processDesc {head len : Nat} (hDisk : s.ramdiskStart + fsimgSize * blockSize < 2 ^ 64)
    (h : virtioBlkProcessDesc s head = .ok (len, s₁)) : Logged s s₁ := by
  unfold virtioBlkProcessDesc at h
  obtain ⟨⟨desc, n, s₂⟩, hChain, hRest⟩ := bind_eq_ok.mp h
  obtain ⟨_, l, rfl, _⟩ := chainLoop_spec hChain
  dsimp only at hRest
  split at hRest
  · cases hRest
    exact logged_after s l
  · obtain ⟨s₃, hReq, hEq⟩ := bind_eq_ok.mp hRest
    cases hEq
    exact (logged_after s l).trans (logged_processBlkReq hDisk hReq)

end

end HyperPoc.Virtio
