import HyperPoc.Vgic.Loops
import HyperPoc.Vgic.Setup

/-! # Priorities through the redistributors

A redistributor frame belongs to one vcpu, whichever vcpu accesses it. The handlers of the priority
registers take the vcpu from the frame but the INTID from the offset in the whole window, so that only
frame 0 gives INTIDs below 32.
-/
namespace HyperPoc.Vgic
open Library.Memory Library.Packing Library.Run Gic
set_option autoImplicit false

def gicrIpriorityr (n : Nat) : Nat := 0x10400 + 4 * n

/-- What a write of GICR_IPRIORITYR<n> in frame `k` should do: four priorities of vcpu `k` become the
bytes of the value, all other records and everything outside the vgic cpus stay. -/
structure SetsPriorities (w : Wiring) (k n val : Nat) (b b' : Board) : Prop where
  irqs : ∀ k' m, k' < w.nvcpu → m < 2 ^ 32 → w.irq b'.hv k' m =
    if k' = k ∧ 4 * n ≤ m ∧ m < 4 * n + 4 then { w.irq b.hv k' m with priority := val / 256 ^ (m - 4 * n) % 256 }
    else w.irq b.hv k' m
  others : ∀ g, g ≠ w.vgicCpu k → b'.hv.vgicCpus g = b.hv.vgicCpus g
  rest : b' = { b with hv := { b.hv with vgicCpus := b'.hv.vgicCpus } }

def GivesPriorities (w : Wiring) (k n : Nat) (b : Board) (v : Nat) : Prop :=
  ∀ i, i < 4 → v % 2 ^ 32 / 256 ^ i % 256 = (w.irq b.hv k (4 * n + i)).priority

section
variable {w : Wiring} {s : Hypervisor} {j k : Nat}

theorem Wired.gicrFrame_eq (h : Wired w s) (hj : j < w.nvcpu) (offset : Nat) :
    gicrFrame s (w.vcpu j) offset =
      .ok (if offset / gicrStride % 2 ^ 32 < w.nvcpu then some (some (w.vcpu (offset / gicrStride % 2 ^ 32)))
        else none) := by
  have hLe := h.nvcpu_le_four
  rw [gicrFrame, h.vm j hj, deref, ok_bind, h.nvcpu]
  by_cases hIdx : offset / gicrStride % 2 ^ 32 < w.nvcpu
  · rw [if_neg (by omega), if_pos (by rw [vcpuMax]; omega), if_pos hIdx, h.vcpus _ hIdx]
    rfl
  · rw [if_pos (by omega), if_neg hIdx]
    rfl

theorem Wired.gicrFrame (h : Wired w s) (hj : j < w.nvcpu) (hk : k < w.nvcpu) {r : Nat} (hr : r < gicrStride) :
    gicrFrame s (w.vcpu j) (k * gicrStride + r) = .ok (some (some (w.vcpu k))) := by
  have hLe := h.nvcpu_le_four
  have hDiv : (k * gicrStride + r) / gicrStride % 2 ^ 32 = k := by
    rw [gicrStride] at hr ⊢
    omega
  rw [h.gicrFrame_eq hj, hDiv, if_pos hk]

theorem gicrReg_frame (k : Nat) {r : Nat} (hr : r < gicrStride) :
    gicrReg ((k * gicrStride + r) % gicrStride) = gicrReg r := by
  rw [Nat.mul_add_mod', Nat.mod_eq_of_lt hr]

theorem gicrPriorityIntid_eq (hk : k < 4) {n : Nat} (hn : n < 8) :
    gicrPriorityIntid (k * gicrStride + gicrIpriorityr n) = ((k * gicrStride + 4 * n : Nat) : Int) := by
  have hIntid : (k * gicrStride + gicrIpriorityr n - 0x10400) / 4 * 4 = k * gicrStride + 4 * n := by
    rw [gicrIpriorityr, gicrStride]
    omega
  rw [gicrPriorityIntid, hIntid, toInt32_of_lt]
  rw [gicrStride]
  omega

end

section
variable {w : Wiring} {b : Board} {j k n : Nat}

theorem gicrIpriorityr_lt (hn : n < 8) : gicrIpriorityr n < gicrStride := by
  rw [gicrIpriorityr, gicrStride]
  omega

theorem vgicr_ipriorityr_write (h : Wired w b.hv) (hj : j < w.nvcpu) (hk : k < w.nvcpu) (hn : n < 8) (cpu val : Nat) :
    vgicrMmioWrite b cpu (w.vcpu j) (k * gicrStride + gicrIpriorityr n) val =
      .ok ({ b with
        hv := assignAll (fun i => w.ref (w.spis b.hv) k (k * gicrStride + 4 * n + i))
          (priorityWrites val) 4 b.hv }, 0) := by
  have hLe := h.nvcpu_le_four
  have hr := gicrIpriorityr_lt hn
  rw [vgicrMmioWrite, h.gicrFrame hj hk hr, ok_bind, gicrReg_frame k hr, gicrIpriorityr, gicrReg_ipriorityr hn]
  dsimp only
  rw [deref, ok_bind, ← gicrIpriorityr, gicrPriorityIntid_eq (by omega) hn, writePriorities_eq h hk, ok_bind]
  rfl

theorem vgicr_ipriorityr_read (h : Wired w b.hv) (hj : j < w.nvcpu) (hk : k < w.nvcpu) (hn : n < 8) (val : Nat) :
    vgicrMmioRead b (w.vcpu j) (k * gicrStride + gicrIpriorityr n) val =
      .ok (0, orUpTo (fun i => signedPriorityTerm i (w.irq b.hv k (k * gicrStride + 4 * n + i))) 4) := by
  have hLe := h.nvcpu_le_four
  have hr := gicrIpriorityr_lt hn
  rw [vgicrMmioRead, h.gicrFrame hj hk hr, ok_bind, gicrReg_frame k hr, gicrIpriorityr, gicrReg_ipriorityr hn]
  dsimp only
  rw [deref, ok_bind, ← gicrIpriorityr, gicrPriorityIntid_eq (by omega) hn, readLoop_eq h hk, ok_bind]
  rfl

/-- The offset in its frame of the set-enable (`on`) or clear-enable register. -/
def gicrEnabler0 (on : Bool) : Nat := if on then 0x10100 else 0x10180

theorem gicrEnabler0_lt (on : Bool) : gicrEnabler0 on < gicrStride := by
  cases on <;> decide

theorem vgicr_enabler0_write (h : Wired w b.hv) (hj : j < w.nvcpu) (hk : k < w.nvcpu) (cpu val : Nat) (on : Bool) :
    vgicrMmioWrite b cpu (w.vcpu j) (k * gicrStride + gicrEnabler0 on) val =
      .ok ({ b with
        hv := assignAll (fun i => w.ref (w.spis b.hv) k (0 + i)) (enableWrites val on) 32 b.hv
        gic := switchAll b.gic cpu 0 val on }, 0) := by
  have hr := gicrEnabler0_lt on
  have hWrite := writeEnables_eq h hk cpu 0 val on
  rw [Int.natCast_zero] at hWrite
  rw [vgicrMmioWrite, h.gicrFrame hj hk hr, ok_bind, gicrReg_frame k hr]
  cases on with
  | false =>
    rw [show gicrReg (gicrEnabler0 false) = some .icenabler0 from by decide]
    dsimp only
    rw [deref, ok_bind, hWrite, ok_bind]
    rfl
  | true =>
    rw [show gicrReg (gicrEnabler0 true) = some .isenabler0 from by decide]
    dsimp only
    rw [deref, ok_bind, hWrite, ok_bind]
    rfl

theorem vgicr_enabler0_read (h : Wired w b.hv) (hj : j < w.nvcpu) (hk : k < w.nvcpu) (val : Nat) (on : Bool) :
    vgicrMmioRead b (w.vcpu j) (k * gicrStride + gicrEnabler0 on) val =
      .ok (0, orUpTo (fun i => enableTerm i (w.irq b.hv k (0 + i))) 32) := by
  have hr := gicrEnabler0_lt on
  have hRead := readLoop_eq h hk 0 32 enableTerm
  rw [Int.natCast_zero] at hRead
  rw [vgicrMmioRead, h.gicrFrame hj hk hr, ok_bind, gicrReg_frame k hr]
  cases on with
  | false =>
    rw [show gicrReg (gicrEnabler0 false) = some .icenabler0 from by decide]
    dsimp only
    rw [deref, ok_bind, hRead, ok_bind]
    rfl
  | true =>
    rw [show gicrReg (gicrEnabler0 true) = some .isenabler0 from by decide]
    dsimp only
    rw [deref, ok_bind, hRead, ok_bind]
    rfl

theorem signedPriorityTerm_mod (irq : Nat → VgicIrq) (hIrq : ∀ i, (irq i).priority < 256) (i : Nat) (hi : i < 4) :
    signedPriorityTerm i (irq i) % 2 ^ 32 = (irq i).priority <<< (8 * i) := by
  rw [signedPriorityTerm, sext32_mod, shifted_byte_mod (hIrq i) hi]

theorem byte_signedPriorities {irq : Nat → VgicIrq} (hIrq : ∀ i, (irq i).priority < 256) {i : Nat} (hi : i < 4) :
    orUpTo (fun i => signedPriorityTerm i (irq i)) 4 % 2 ^ 32 / 256 ^ i % 256 = (irq i).priority := by
  rw [orUpTo_mod, orUpTo_congr (signedPriorityTerm_mod irq hIrq)]
  exact byte_orBytes hIrq hi

theorem vgicr_frame_zero_write (h : Wired w b.hv) (hj : j < w.nvcpu) (hPos : 0 < w.nvcpu) (hn : n < 8) (cpu val : Nat) :
    ∃ b', vgicrMmioWrite b cpu (w.vcpu j) (0 * gicrStride + gicrIpriorityr n) val = .ok (b', 0) ∧
      SetsPriorities w 0 n val b b' := by
  refine ⟨_, vgicr_ipriorityr_write h hj hPos hn cpu val, ?_, ?_, ?_⟩
  · intro k' m hk' hm
    rw [Nat.zero_mul, Nat.zero_add, irq_assignAll h hPos hk' (by omega) hm, changed_priorityWrites]
    have hIff : InLoop 0 (4 * n) 4 k' m ↔ k' = 0 ∧ 4 * n ≤ m ∧ m < 4 * n + 4 := by
      rw [InLoop]
      constructor
      · rintro ⟨hLow, hHigh, hCpu⟩
        exact ⟨hCpu (by omega), hLow, hHigh⟩
      · rintro ⟨hCpu, hLow, hHigh⟩
        exact ⟨hLow, hHigh, fun _ => hCpu⟩
    simp only [hIff]
  · rw [Nat.zero_mul, Nat.zero_add]
    exact (assignAll_private w b.hv 0 _ (by omega) _).others
  · rw [Nat.zero_mul, Nat.zero_add]
    congr 1
    exact (assignAll_private w b.hv 0 _ (by omega) _).rest

theorem vgicr_frame_zero_read (h : Wired w b.hv) (hj : j < w.nvcpu) (hPos : 0 < w.nvcpu) (hn : n < 8) (old : Nat) :
    ∃ v, vgicrMmioRead b (w.vcpu j) (0 * gicrStride + gicrIpriorityr n) old = .ok (0, v) ∧
      GivesPriorities w 0 n b v := by
  refine ⟨_, vgicr_ipriorityr_read h hj hPos hn old, ?_⟩
  intro i hi
  rw [Nat.zero_mul, Nat.zero_add]
  exact byte_signedPriorities (fun i => (irq_lt w b.hv 0 (4 * n + i)).1) hi

/-- Through any other frame no priority of an SGI or PPI is ever changed. -/
theorem vgicr_priorities_other_frame (h : Wired w b.hv) (hj : j < w.nvcpu) (hk : k < w.nvcpu) (hFrame : k ≠ 0)
    (hn : n < 8) (cpu val : Nat) :
    ∃ b', vgicrMmioWrite b cpu (w.vcpu j) (k * gicrStride + gicrIpriorityr n) val = .ok (b', 0) ∧
      ∀ k' m, k' < w.nvcpu → m < 32 → w.irq b'.hv k' m = w.irq b.hv k' m := by
  have hLe := h.nvcpu_le_four
  refine ⟨_, vgicr_ipriorityr_write h hj hk hn cpu val, ?_⟩
  intro k' m hk' hm
  have hStride : 0x20000 ≤ k * gicrStride ∧ k * gicrStride ≤ 0x60000 := by
    rw [gicrStride]
    omega
  rw [irq_assignAll h hk hk' (by omega) (by omega), if_neg]
  rintro ⟨hLow, _⟩
  omega

/-- The priority registers of a frame belong to its vcpu exactly if the frame is 0. -/
theorem vgicr_priorities_iff (h : Wired w b.hv) (hj : j < w.nvcpu) (hk : k < w.nvcpu) (hn : n < 8) (cpu : Nat) :
    ((∀ val, ∃ b', vgicrMmioWrite b cpu (w.vcpu j) (k * gicrStride + gicrIpriorityr n) val = .ok (b', 0) ∧
        SetsPriorities w k n val b b') ∧
      ∀ old, ∃ v, vgicrMmioRead b (w.vcpu j) (k * gicrStride + gicrIpriorityr n) old = .ok (0, v) ∧
        GivesPriorities w k n b v) ↔ k = 0 := by
  constructor
  · rintro ⟨hWrites, _⟩
    by_contra hFrame
    -- a byte that differs from the priority of the first interrupt of the register
    have hByte := (irq_lt w b.hv k (4 * n)).1
    obtain ⟨b', hRun, hSets⟩ := hWrites (((w.irq b.hv k (4 * n)).priority + 1) % 256)
    obtain ⟨b'', hRun', hSame⟩ := vgicr_priorities_other_frame h hj hk hFrame hn cpu
      (((w.irq b.hv k (4 * n)).priority + 1) % 256)
    cases hRun.symm.trans hRun'
    have hNew := hSets.irqs k (4 * n) hk (by omega)
    rw [hSame k (4 * n) hk (by omega), if_pos ⟨rfl, le_refl _, by omega⟩] at hNew
    have hPriority : (w.irq b.hv k (4 * n)).priority =
        ((w.irq b.hv k (4 * n)).priority + 1) % 256 / 256 ^ (4 * n - 4 * n) % 256 := congrArg VgicIrq.priority hNew
    rw [Nat.sub_self, Nat.pow_zero, Nat.div_one] at hPriority
    omega
  · rintro rfl
    exact ⟨vgicr_frame_zero_write h hj hk hn cpu, vgicr_frame_zero_read h hj hk hn⟩

end

theorem vgicr_priorities_iff_small :
    (∀ val, ∃ b', vgicrMmioWrite smallBoard 1 (smallWiring.vcpu 1)
      (0 * gicrStride + gicrIpriorityr 4) val = .ok (b', 0) ∧
      SetsPriorities smallWiring 0 4 val smallBoard b') ∧
    (∀ old, ∃ v, vgicrMmioRead smallBoard (smallWiring.vcpu 1)
      (0 * gicrStride + gicrIpriorityr 4) old = .ok (0, v) ∧
      GivesPriorities smallWiring 0 4 smallBoard v) :=
  (vgicr_priorities_iff (w := smallWiring) (b := smallBoard) (j := 1) (k := 0) (n := 4) smallBoard_wired (by decide)
    (by decide) (by decide) 1).mpr rfl

/-- The small board after vcpu 1 has written 0xa0a0a0a0 to the first priority register of its frame. -/
def misplacedBoard : Board :=
  { smallBoard with
    hv := assignAll (fun i => smallWiring.ref (smallWiring.spis smallBoard.hv) 1 (1 * gicrStride + 4 * 0 + i))
      (priorityWrites 0xa0a0a0a0) 4 smallBoard.hv }

theorem misplacedBoard_priority : (smallWiring.irq misplacedBoard.hv 1 0).priority = 0 := by
  decide +kernel

theorem misplacedBoard_memory : smallBoard.hv.host.mem (0x40008000 + 3 * (0x20000 - 32)) = 0 ∧
    misplacedBoard.hv.host.mem (0x40008000 + 3 * (0x20000 - 32)) = 0xa0 :=
  ⟨by decide +kernel, by decide +kernel⟩

/-- Vcpu 1 sets the priorities of its SGIs 0 to 3: they stay 0, and the value goes to host memory far
behind the page of SPI records at 0x40008000. -/
theorem vgicr_priorities_frame_one :
    ∃ b', vgicrMmioWrite smallBoard 1 (smallWiring.vcpu 1)
      (1 * gicrStride + gicrIpriorityr 0) 0xa0a0a0a0 = .ok (b', 0) ∧
      (smallWiring.irq b'.hv 1 0).priority = 0 ∧ ¬SetsPriorities smallWiring 1 0 0xa0a0a0a0 smallBoard b' ∧
      smallBoard.hv.host.mem (0x40008000 + 3 * (0x20000 - 32)) = 0 ∧
      b'.hv.host.mem (0x40008000 + 3 * (0x20000 - 32)) = 0xa0 := by
  have hRun : vgicrMmioWrite smallBoard 1 (smallWiring.vcpu 1) (1 * gicrStride + gicrIpriorityr 0) 0xa0a0a0a0 =
      .ok (misplacedBoard, 0) :=
    vgicr_ipriorityr_write (w := smallWiring) (b := smallBoard) (j := 1) (k := 1) (n := 0) smallBoard_wired (by decide)
      (by decide) (by decide) 1 0xa0a0a0a0
  refine ⟨misplacedBoard, hRun, misplacedBoard_priority, ?_, misplacedBoard_memory.1, misplacedBoard_memory.2⟩
  intro hSets
  have hIrq := hSets.irqs 1 0 (by decide) (by decide)
  rw [if_pos ⟨rfl, by decide, by decide⟩] at hIrq
  have hByte := misplacedBoard_priority.symm.trans (congrArg VgicIrq.priority hIrq)
  exact absurd hByte (by decide)

end HyperPoc.Vgic
